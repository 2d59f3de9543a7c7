import TableSpec.Ingest
import TableSpec.Proofs.Result

/-!
# `Proofs.Extraction.Errors` — an error names its file once

Nothing below `Ingest.file` names a file in its errors: neither the source reader nor any declaration knows
which file it works on. So `Ingest.file` adds the only layer, and its error is the file's own.

## Contents
- One lemma for each step of an extraction, up to `namesNoFile_ofSource`.
- `Ingest.contents`, `Ingest.file_eq_error`: what is wrong with a file.
-/

namespace TableSpec

/-! ## Arguments -/

/-- An argument that is no text is told by its place in the call. -/
theorem namesNoFile_textArgument (form : Form) (call : Call) : NamesNoFile (textArgument form call) := by
  unfold textArgument
  split
  · exact NamesNoFile.ok _
  · exact NamesNoFile.error rfl

/-- An element that is no text is told by its position; the induction is on the elements. -/
theorem namesNoFile_textElements (form : Form) :
    ∀ (elements : List Node) (position : Nat), NamesNoFile (textElements form position elements) := by
  intro elements
  induction elements with
  | nil => exact fun _ => NamesNoFile.ok _
  | cons node rest ih =>
    intro position
    cases node with
    | str s => exact (ih (position + 1)).map
    | _ => exact NamesNoFile.error rfl

theorem namesNoFile_textListArgument (form : Form) (call : Call) :
    NamesNoFile (textListArgument form call) := by
  unfold textListArgument
  split
  · exact namesNoFile_textElements form _ 0
  · exact NamesNoFile.error rfl

/-! ## Platforms -/

namespace Platform

/-- What is not in a table is told by the key and the title of the table. -/
theorem namesNoFile_entry {α : Type} (title : String) (table : List (String × α)) (key : String) :
    NamesNoFile (entry title table key) := by
  intro e h
  obtain ⟨-, rfl⟩ := entry_eq_error.mp h
  rfl

theorem namesNoFile_operandCategory (context : String) (operand : Node) :
    NamesNoFile (operandCategory context operand) := by
  unfold operandCategory
  split
  · exact NamesNoFile.ok _
  all_goals exact NamesNoFile.error rfl

/-- The first operand that fails is told by its position. -/
theorem namesNoFile_ofOperands : ∀ (operands : List Node) (known : List String) (position : Nat),
    NamesNoFile (ofOperands known position operands) := by
  intro operands
  induction operands with
  | nil => exact fun _ _ => NamesNoFile.ok _
  | cons operand rest ih =>
    intro known position
    refine NamesNoFile.bind (namesNoFile_operandCategory _ operand) fun category => ?_
    exact NamesNoFile.bind (namesNoFile_entry _ _ category) fun platforms => ih _ _

theorem namesNoFile_ofDisjunction (body : Node) : NamesNoFile (ofDisjunction body) := by
  unfold ofDisjunction
  split
  · exact namesNoFile_ofOperands _ _ _
  · exact NamesNoFile.error rfl

/-- One case for each kind of node that names platforms. -/
theorem namesNoFile_ofArgument (argument : Node) : NamesNoFile (ofArgument argument) := by
  unfold ofArgument
  split
  · exact namesNoFile_ofDisjunction _
  · split
    · exact namesNoFile_entry _ _ _
    · exact NamesNoFile.error rfl

end Platform

/-! ## Schemas -/

namespace Schema

theorem namesNoFile_addArgument (s : Schema) (argument : Node) : NamesNoFile (s.addArgument argument) := by
  unfold addArgument
  split
  · exact (Platform.namesNoFile_ofDisjunction _).map
  · exact (Platform.namesNoFile_ofArgument _).map

theorem namesNoFile_addElement (s : Schema) (context : String) (element : Node) :
    NamesNoFile (s.addElement context element) := by
  unfold addElement
  split
  · split
    · exact NamesNoFile.ok _
    · split <;> exact NamesNoFile.ok _
  all_goals exact NamesNoFile.error rfl

/-- Elements of a schema are taken in one after the other; the induction is on them. -/
theorem namesNoFile_addElements (callee : String) : ∀ (elements : List Node) (s : Schema) (position : Nat),
    NamesNoFile (addElements callee s position elements) := by
  intro elements
  induction elements with
  | nil => exact fun _ _ => NamesNoFile.ok _
  | cons element rest ih =>
    exact fun s position => NamesNoFile.bind (namesNoFile_addElement s _ element) fun s => ih s _

theorem namesNoFile_addList (s : Schema) (callee : String) (call : Call) (position : Nat) :
    NamesNoFile (s.addList callee call position) := by
  unfold addList
  split
  · exact namesNoFile_addElements callee _ s 0
  · exact NamesNoFile.error rfl

/-- A schema fails by its callee, its platforms or its list. -/
theorem namesNoFile_ofCall (call : Call) : NamesNoFile (ofCall call) := by
  unfold ofCall
  split
  · split
    · split
      · exact NamesNoFile.error rfl
      · exact NamesNoFile.bind (namesNoFile_addArgument _ _) fun _ => namesNoFile_addList _ _ _ _
    · exact namesNoFile_addList _ _ _ _
  · exact NamesNoFile.error rfl

end Schema

/-! ## Tables -/

namespace Table

/-- One case for each form of a declaration. -/
theorem namesNoFile_applyForm (t : Table) (form : Form) (call : Call) :
    NamesNoFile (t.applyForm form call) := by
  unfold applyForm
  cases form with
  | tableName | description | implementation =>
    exact NamesNoFile.bind (namesNoFile_textArgument _ call) fun _ => NamesNoFile.ok _
  | fuzzPaths | examples =>
    exact NamesNoFile.bind (namesNoFile_textListArgument _ call) fun _ => NamesNoFile.ok _
  | schema =>
    dsimp only
    split
    · exact NamesNoFile.error rfl
    · exact NamesNoFile.bind (Schema.namesNoFile_ofCall call) fun _ => NamesNoFile.ok _
  | extendedSchema => exact NamesNoFile.bind (Schema.namesNoFile_ofCall call) fun _ => NamesNoFile.ok _
  | attributes | column | foreignKey => exact NamesNoFile.ok _

/-- No declaration knows the file that it stands in, so that its error cannot name one. -/
theorem namesNoFile_apply (t : Table) (d : Declaration) : NamesNoFile (t.apply d) := by
  cases d with
  | known form call => exact namesNoFile_applyForm t form call
  | unknown _ | unnamed => exact NamesNoFile.ok t

/-- **No step of an extraction names a file** in its error. -/
theorem namesNoFile_ofSource (name origin text : String) : NamesNoFile (ofSource name origin text) := by
  refine NamesNoFile.bind ?_ fun node => NamesNoFile.foldlM namesNoFile_apply _ _
  unfold Source.parse
  split
  · exact NamesNoFile.ok _
  · exact NamesNoFile.error rfl

end Table

/-! ## Files -/

namespace Ingest

/-- The table of a file, with errors that do not name it. -/
def contents (files : Files) (path : String) : Except Error Table :=
  (files.readText path).bind (Table.ofSource ((Path.stem? path).getD "") path)

/-- Nor does reading a file name it: that is left to `file`, which does it once. -/
theorem namesNoFile_contents (files : Files) (path : String) : NamesNoFile (contents files path) := by
  refine NamesNoFile.bind ?_ fun text => Table.namesNoFile_ofSource _ _ _
  unfold Files.readText
  split
  · split
    · exact NamesNoFile.ok _
    · exact NamesNoFile.error rfl
  · exact NamesNoFile.error rfl

/-- The error of a file is what is wrong with its contents, with one layer that names the file. -/
theorem file_eq_error {files : Files} {path : String} {e : Error} (h : file files path = .error e) :
    ∃ cause, contents files path = .error cause ∧ cause.isInFile = false ∧ e = .inFile path cause := by
  obtain ⟨cause, hcause, rfl⟩ := mapError_eq_error.mp h
  have hbare := namesNoFile_contents files path cause hcause
  exact ⟨cause, hcause, hbare, Error.within_of_not_inFile hbare⟩

end Ingest
end TableSpec
