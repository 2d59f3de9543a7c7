import Mathlib.Tactic.Common
import TableSpec.Config
import TableSpec.Proofs.Files
import TableSpec.Proofs.Toml.Document

/-!
# `Proofs.Config` — settings that are written and loaded

Settings are written as the lines of those that are set, and the settings of such a document are the same
again: what is not set has no line, and a line gives the text or the count that it was printed from. A write
decides whether it may replace a file and whether the settings can be written before it touches anything, so
there is a new file or no trace of the attempt.

## Contents
- `settings`, `toToml`: settings as a document. `ofToml?_toToml`: they are its settings.
- `lines_print`: the text is that document. `Fits`: the settings that have a text.
- `parse?_print`: **settings are read back from their text.**
- `saveInPlace`, `saved`: a write in a tree that is changed in place. `saved_eq`: it does what `save` says.
- `save_cases`: what a write can come to. `load_write`: settings that were written are loaded.
- `load_saved`: **settings survive a write and a load, and a refused write leaves no trace.**
-/

namespace TableSpec
namespace Config

variable {c : Config} {text path : String} {files : Files} {force : Bool}

/-! ## Settings as a document -/

/-- All settings, those that are not set without a value. -/
def settings (c : Config) : List (String × Option Toml) :=
  c.texts.map (fun e => (e.1, e.2.map Toml.string)) ++ [("workers", c.workers.map (fun n => Toml.integer n))]

/-- The entries of settings of which some are set. -/
def setEntries (settings : List (String × Option Toml)) : Toml.Entries :=
  settings.filterMap (fun e => e.2.map (fun v => (e.1, v)))

/-- The document of settings. -/
def toToml (c : Config) : Toml.Entries := setEntries c.settings

theorem nodup_settings (c : Config) : (c.settings.map Prod.fst).Nodup := by
  have hkeys : c.settings.map Prod.fst =
      ["specs_dir", "schema", "output_format", "listen_addr", "target_os", "workers"] := rfl
  rw [hkeys]
  decide

/-- Settings that are not set are left out, the others stay in order. -/
theorem keys_setEntries (settings : List (String × Option Toml)) :
    ((setEntries settings).map Prod.fst).Sublist (settings.map Prod.fst) := by
  induction settings with
  | nil => exact List.Sublist.refl []
  | cons e rest ih =>
    obtain ⟨key, v⟩ := e
    cases v with
    | none => exact ih.cons key
    | some v => exact ih.cons_cons key

theorem lookup_setEntries_of_ne {key : String} {e : String × Option Toml} (h : key ≠ e.1)
    (rest : List (String × Option Toml)) : (setEntries (e :: rest)).lookup key = (setEntries rest).lookup key := by
  obtain ⟨other, w⟩ := e
  cases w with
  | none => rfl
  | some w =>
    show ((other, w) :: setEntries rest).lookup key = _
    rw [List.lookup_cons, beq_eq_false_iff_ne.mpr h]

/-- A setting is found under its key when no key comes twice. -/
theorem lookup_setEntries {settings : List (String × Option Toml)} {key : String} {v : Option Toml}
    (hkeys : (settings.map Prod.fst).Nodup) (h : (key, v) ∈ settings) : (setEntries settings).lookup key = v := by
  induction settings with
  | nil => contradiction
  | cons e rest ih =>
    obtain ⟨hnew, hrest⟩ := List.nodup_cons.mp hkeys
    rcases List.mem_cons.mp h with rfl | hmem
    · cases v with
      | none =>
        -- the key comes once, so nothing further on has it
        rw [List.lookup_eq_none_iff]
        intro e he
        have hmem : e.1 ∈ rest.map Prod.fst := (keys_setEntries rest).subset (List.mem_map_of_mem he)
        have hne : key ≠ e.1 := fun heq => hnew (by rwa [heq])
        simpa using hne
      | some v => simp [setEntries]
    · have hne : key ≠ e.1 := by
        rintro rfl
        exact hnew (List.mem_map.mpr ⟨_, hmem, rfl⟩)
      rw [lookup_setEntries_of_ne hne]
      exact ih hrest hmem

/-- A text is found under its key, and nothing is found where it is not set. -/
theorem textAt_toToml {key : String} {s : Option String} (h : (key, s) ∈ c.texts) :
    textAt c.toToml key = some s := by
  have hmem : (key, s.map Toml.string) ∈ c.settings :=
    List.mem_append_left _ (List.mem_map.mpr ⟨(key, s), h, rfl⟩)
  rw [textAt, toToml, lookup_setEntries (nodup_settings c) hmem]
  cases s <;> rfl

theorem countAt_toToml (c : Config) : countAt c.toToml "workers" = some c.workers := by
  have hmem : ("workers", c.workers.map (fun n => Toml.integer n)) ∈ c.settings :=
    List.mem_append_right _ List.mem_cons_self
  rw [countAt, toToml, lookup_setEntries (nodup_settings c) hmem]
  cases c.workers <;> rfl

/-- The settings of a document of settings are the same. -/
theorem ofToml?_toToml (c : Config) : ofToml? c.toToml = some c := by
  have htext : ∀ key s, (key, s) ∈ c.texts → textAt c.toToml key = some s := fun _ _ => textAt_toToml
  have hspecs := htext "specs_dir" c.specsDir (by simp [texts])
  have hschema := htext "schema" c.schema (by simp [texts])
  have hformat := htext "output_format" c.outputFormat (by simp [texts])
  have hlisten := htext "listen_addr" c.listenAddr (by simp [texts])
  have htarget := htext "target_os" c.targetOs (by simp [texts])
  simp only [ofToml?, hspecs, hschema, hformat, hlisten, htarget, countAt_toToml]
  rfl

/-! ## The text of settings -/

/-- Settings can be written unless the number of workers has more than 63 bits. -/
def Fits (c : Config) : Prop := ∀ n, c.workers = some n → n < 0x8000000000000000

theorem fits_iff : c.Fits ↔ c.workers.all (· < 0x8000000000000000) = true := by
  unfold Fits
  cases c.workers <;> simp

/-- Only the number of workers can keep settings from being written. -/
theorem print?_eq_none_iff : c.print? = none ↔ ¬c.Fits := by
  rw [fits_iff, print?]
  split <;> simp_all

theorem fits_of_print (h : c.print? = some text) : c.Fits := by
  by_contra hnot
  rw [print?_eq_none_iff.mpr hnot] at h
  exact absurd h (by simp)

/-- The lines of texts, followed by other lines. -/
theorem lines_texts {texts : List (String × Option String)} {entries : Toml.Entries} {rest : List Char}
    (hkeys : ∀ e ∈ texts, Toml.isBare e.1 = true)
    (h : Toml.Lines entries rest) :
    Toml.Lines (setEntries (texts.map (fun e => (e.1, e.2.map Toml.string))) ++ entries)
      ((texts.filterMap (fun e => e.2.map (fun s => Toml.line e.1 (Toml.quoted s)))).flatten ++ rest) := by
  induction texts with
  | nil => exact h
  | cons e more ih =>
    obtain ⟨key, s⟩ := e
    have hmore := ih (fun e he => hkeys e (List.mem_cons_of_mem _ he))
    cases s with
    | none => exact hmore
    | some s =>
      have hline := Toml.Lines.cons (hkeys (key, some s) List.mem_cons_self) (.string s) hmore
      simpa [setEntries] using hline

/-- The text of settings is their document. -/
theorem lines_print (h : c.print? = some text) : ∃ cs, text = String.ofList cs ∧ Toml.Lines c.toToml cs := by
  have hfits := fits_of_print h
  rw [print?, if_pos (fits_iff.mp hfits)] at h
  refine ⟨_, (Option.some.inj h).symm, ?_⟩
  have hkeys : ∀ e ∈ c.texts, Toml.isBare e.1 = true := by
    simp only [texts, List.forall_mem_cons, List.not_mem_nil, false_implies, implies_true, and_true]
    decide
  -- the count is written last, after the texts
  have hcount : Toml.Lines (setEntries [("workers", c.workers.map (fun n => Toml.integer n))])
      ((c.workers.map (fun n => Toml.line "workers" (Digits.ofNat n))).getD []) := by
    cases hworkers : c.workers with
    | none => exact .nil
    | some n =>
      have hline : Toml.Lines [("workers", .integer n)] (Toml.line "workers" (Digits.ofNat n) ++ []) :=
        .cons (by decide) (.integer (hfits n hworkers)) .nil
      simpa [setEntries] using hline
  have hall := lines_texts hkeys hcount
  rwa [setEntries, setEntries, ← List.filterMap_append] at hall

/-- **Settings are read back from their text.** -/
theorem parse?_print (h : c.print? = some text) : parse? text = some c := by
  obtain ⟨cs, rfl, hlines⟩ := lines_print h
  have hkeys : (c.toToml.map Prod.fst).Nodup := (keys_setEntries c.settings).nodup (nodup_settings c)
  rw [parse?, Toml.ofText?_lines hlines hkeys, Option.bind_some, ofToml?_toToml]

/-! ## Settings in a file -/

/-- Write settings in a tree that is changed in place, one step after the other. -/
def saveInPlace (path : String) (c : Config) (force : Bool) : ExceptT ConfigError (StateM Files) Unit := do
  if (← get).contains path && !force then throw (.present path)
  match c.print? with
  | none => throw .unwritable
  | some text =>
    match (← get).write path text with
    | .ok files => set files
    | .error _ => throw .file

/-- The result of a write, and the tree afterwards. -/
def saved (files : Files) (path : String) (c : Config) (force : Bool) : Except ConfigError Unit × Files :=
  (saveInPlace path c force).run.run files

/-- There is a file that must not be replaced. -/
def Refused (files : Files) (path : String) (force : Bool) : Prop := files.contains path = true ∧ force = false

theorem refused_iff : Refused files path force ↔ (files.contains path && !force) = true := by
  simp [Refused]

/-- A write changes the tree when it succeeds, and only then. -/
theorem saved_eq (files : Files) (path : String) (c : Config) (force : Bool) :
    saved files path c force = match save files path c force with
      | .ok files' => (.ok (), files')
      | .error e => (.error e, files) := by
  unfold saved saveInPlace save
  show StateT.run (ExceptT.run (if files.contains path && !force then _ else _)) files = _
  split
  · rfl
  cases c.print? with
  | none => rfl
  | some text =>
    show StateT.run (ExceptT.run (match files.write path text with | .ok _ => _ | .error _ => _)) files = _
    dsimp only
    cases files.write path text <;> rfl

/-- **What a write can come to.** Whether the file may be replaced is looked at first, then whether the settings
    can be written, and then whether the file can. -/
theorem save_cases (files : Files) (path : String) (c : Config) (force : Bool) :
    (Refused files path force ∧ save files path c force = .error (.present path)) ∨
    (¬Refused files path force ∧ ¬c.Fits ∧ save files path c force = .error .unwritable) ∨
    (¬Refused files path force ∧ c.Fits ∧ ¬files.Accepts path ∧ save files path c force = .error .file) ∨
    (¬Refused files path force ∧ c.Fits ∧ files.Accepts path ∧ ∃ text files', c.print? = some text ∧
      files.write path text = .ok files' ∧ save files path c force = .ok files') := by
  rw [save]
  by_cases hrefused : Refused files path force
  · rw [if_pos (refused_iff.mp hrefused)]
    exact Or.inl ⟨hrefused, rfl⟩
  rw [if_neg (mt refused_iff.mpr hrefused)]
  cases hprint : c.print? with
  | none => exact Or.inr (Or.inl ⟨hrefused, print?_eq_none_iff.mp hprint, rfl⟩)
  | some text =>
    have hfits := fits_of_print hprint
    cases hwrite : files.write path text with
    | error e =>
      have hbarred : ¬files.Accepts path := by
        intro haccepts
        obtain ⟨files', h⟩ := Files.write_eq_ok_iff.mpr haccepts
        rw [hwrite] at h
        cases h
      exact Or.inr (Or.inr (Or.inl ⟨hrefused, hfits, hbarred, by dsimp only; rw [hwrite]; rfl⟩))
    | ok files' =>
      have haccepts : files.Accepts path := Files.write_eq_ok_iff.mp ⟨files', hwrite⟩
      exact Or.inr (Or.inr (Or.inr
        ⟨hrefused, hfits, haccepts, text, files', rfl, hwrite, by dsimp only; rw [hwrite]; rfl⟩))

/-- Settings that were written are loaded. -/
theorem load_write {files' : Files} (hprint : c.print? = some text) (hwrite : files.write path text = .ok files') :
    load files' path = .ok (some c) := by
  rw [load, if_pos (Files.contains_write hwrite), Files.readText_write hwrite]
  dsimp only
  rw [parse?_print hprint]

/-- **Settings survive a write and a load, and a refused write leaves no trace.** For all settings, whatever is or
    is not at the path before: when the write succeeds, the settings that are loaded from the path are those that
    were written, and no other file has changed. It succeeds just when there is no file that must not be replaced,
    the number of workers fits the format, and there may be a file at the path. The error tells which of the first
    two is not so. The write in place comes to the same in either case, and where it fails every file is as it
    was. -/
theorem load_saved (files : Files) (path : String) (c : Config) (force : Bool) :
    (∀ files', save files path c force = .ok files' →
      load files' path = .ok (some c) ∧
      ∀ key, (∀ p, files.place? path = some p → key ≠ p.key) → files'.entries.get? key = files.entries.get? key) ∧
    ((∃ files', save files path c force = .ok files') ↔
      ¬Refused files path force ∧ c.Fits ∧ files.Accepts path) ∧
    (save files path c force = .error (.present path) ↔ Refused files path force) ∧
    (save files path c force = .error .unwritable ↔ ¬Refused files path force ∧ ¬c.Fits) ∧
    (∀ files', save files path c force = .ok files' → saved files path c force = (.ok (), files')) ∧
    (∀ e, save files path c force = .error e → saved files path c force = (.error e, files)) := by
  have hsaved := saved_eq files path c force
  rcases save_cases files path c force with ⟨hrefused, hsave⟩ | ⟨hfree, hunfit, hsave⟩ |
    ⟨hfree, hfits, hbarred, hsave⟩ | ⟨hfree, hfits, haccepts, text, files', hprint, hwrite, hsave⟩
  · rw [hsave] at hsaved ⊢
    simp [hsaved, hrefused]
  · rw [hsave] at hsaved ⊢
    simp [hsaved, hfree, hunfit]
  · rw [hsave] at hsaved ⊢
    simp [hsaved, hfree, hfits, hbarred]
  · have hload := load_write hprint hwrite
    rw [hsave] at hsaved ⊢
    refine ⟨?_, by simp [hsaved, hfree, hfits, haccepts]⟩
    rintro _ ⟨⟩
    exact ⟨hload, fun key hkey => Files.get?_write hwrite hkey⟩

/-- Settings with texts that no kind of quotes takes as they are, and the greatest number of workers. -/
def awkward : Config where
  specsDir := some ""
  schema := some "a\"b'c\\d"
  outputFormat := some "\ntwo lines\"\"\"\n'''"
  listenAddr := some "\x00\t\x1b\x7f\r\n"
  workers := some 0x7fffffffffffffff

/-- There is a file of settings already, and what it holds is no text. -/
def notText : Files := Files.add {} "osqt.toml" (.file ⟨#[0xff]⟩)

/-- The file is replaced when it may be, and is as before when it may not or a number does not fit. -/
theorem load_saved_awkward :
    (∃ files', save notText "osqt.toml" awkward true = .ok files' ∧
      saved notText "osqt.toml" awkward true = (.ok (), files') ∧
      load files' "osqt.toml" = .ok (some awkward)) ∧
    save notText "osqt.toml" awkward false = .error (.present "osqt.toml") ∧
    saved notText "osqt.toml" awkward false = (.error (.present "osqt.toml"), notText) ∧
    save notText "osqt.toml" { awkward with workers := some 0x8000000000000000 } true = .error .unwritable ∧
    saved notText "osqt.toml" { awkward with workers := some 0x8000000000000000 } true =
      (.error .unwritable, notText) := by
  have hcontains : notText.contains "osqt.toml" = true := by decide
  have haccepts : notText.Accepts "osqt.toml" := ⟨["osqt.toml"], by decide, by decide, by decide⟩
  obtain ⟨hload, hok, -, -, hwritten, -⟩ := load_saved notText "osqt.toml" awkward true
  obtain ⟨-, -, hpresent, -, -, hkept⟩ := load_saved notText "osqt.toml" awkward false
  obtain ⟨-, -, -, hunwritable, -, hkept'⟩ :=
    load_saved notText "osqt.toml" { awkward with workers := some 0x8000000000000000 } true
  have hfree : ¬Refused notText "osqt.toml" true := by simp [Refused]
  obtain ⟨files', hsave⟩ := hok.mpr ⟨hfree, by simp [Fits, awkward], haccepts⟩
  have hrefused := hpresent.mpr ⟨hcontains, rfl⟩
  have hlarge := hunwritable.mpr ⟨hfree, by simp [Fits]⟩
  exact ⟨⟨files', hsave, hwritten files' hsave, (hload files' hsave).1⟩, hrefused, hkept _ hrefused, hlarge,
    hkept' _ hlarge⟩

end Config
end TableSpec
