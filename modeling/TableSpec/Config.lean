import TableSpec.Files
import TableSpec.Toml.Printer
import TableSpec.Toml.Reader

/-!
# `TableSpec.Config` — settings

Settings stand in a file of definitions, one for each setting that is set. Keys and sections that are no
settings are passed over.

## Contents
- `Config`, `Config.starter`.
- `Config.print?`, `Config.parse?`: settings as text.
- `Config.load`, `Config.save`: settings in a file.
-/

namespace TableSpec

/-- Settings, each of which may be left out. -/
structure Config where
  specsDir : Option String := none
  schema : Option String := none
  outputFormat : Option String := none
  listenAddr : Option String := none
  targetOs : Option String := none
  workers : Option Nat := none
  deriving DecidableEq, Repr, Inhabited

/-- Why settings cannot be read or written. -/
inductive ConfigError where
  /-- There is a file already. -/
  | present (path : String)
  /-- The file does not hold settings. -/
  | malformed (path : String)
  /-- A number does not fit the format. -/
  | unwritable
  /-- The file cannot be read or written. -/
  | file
  deriving DecidableEq, Repr, Inhabited

namespace Config

/-- The address that is listened on when none is set. -/
def defaultAddress : String := "127.0.0.1:13306"

/-- The settings that are written at first. -/
def starter (specsDir targetOs : Option String) : Config where
  specsDir := some (specsDir.getD "specs")
  outputFormat := some "json"
  listenAddr := some defaultAddress
  targetOs := targetOs

/-! ## Texts -/

/-- The settings that are texts, in order. -/
def texts (c : Config) : List (String × Option String) :=
  [("specs_dir", c.specsDir), ("schema", c.schema), ("output_format", c.outputFormat),
   ("listen_addr", c.listenAddr), ("target_os", c.targetOs)]

/-- The text of settings. Numbers have at most 63 bits. -/
def print? (c : Config) : Option String :=
  if c.workers.all (· < 0x8000000000000000) then
    let lines := c.texts.filterMap (fun e => e.2.map (fun s => Toml.line e.1 (Toml.quoted s)))
    let count := c.workers.map (fun n => Toml.line "workers" (Digits.ofNat n))
    some (String.ofList (lines.flatten ++ count.getD []))
  else none

/-- The text under a key, if there is something under it. -/
def textAt (entries : Toml.Entries) (key : String) : Option (Option String) :=
  match entries.lookup key with
  | none => some none
  | some (.string s) => some (some s)
  | some _ => none

/-- The count under a key, if there is something under it. -/
def countAt (entries : Toml.Entries) (key : String) : Option (Option Nat) :=
  match entries.lookup key with
  | none => some none
  | some (.integer (.ofNat n)) => some (some n)
  | some _ => none

/-- The settings of a document. -/
def ofToml? (entries : Toml.Entries) : Option Config := do
  return {
    specsDir := ← textAt entries "specs_dir"
    schema := ← textAt entries "schema"
    outputFormat := ← textAt entries "output_format"
    listenAddr := ← textAt entries "listen_addr"
    targetOs := ← textAt entries "target_os"
    workers := ← countAt entries "workers" }

/-- The settings of a text. -/
def parse? (text : String) : Option Config := (Toml.ofText? text).bind ofToml?

/-! ## Files -/

/-- The settings in a file, if there is one. -/
def load (files : Files) (path : String) : Except ConfigError (Option Config) :=
  if files.contains path then
    match files.readText path with
    | .ok text =>
      match parse? text with
      | some c => .ok (some c)
      | none => .error (.malformed path)
    | .error _ => .error .file
  else .ok none

/-- Write settings to a file, which may be there already only if `force` is set. -/
def save (files : Files) (path : String) (c : Config) (force : Bool) : Except ConfigError Files :=
  if files.contains path && !force then .error (.present path)
  else match c.print? with
    | none => .error .unwritable
    | some text => (files.write path text).mapError (fun _ => .file)

end Config
end TableSpec
