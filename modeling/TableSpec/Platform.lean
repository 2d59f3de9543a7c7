import TableSpec.Error
import TableSpec.Source.Node

/-!
# `TableSpec.Platform` — the fixed tables of platforms, and what names one

Three fixed tables say where a table applies: the directories that hold specifications, the directories
that apply to an operating system, and the categories that an extended schema may name.

## Contents
- `Platform.directories`, `Platform.operatingSystems`, `Platform.categories`: the tables.
- `describe`, `directoriesFor`, `ofCategory`: the look-ups, each with its own error.
- `ofDisjunction`, `ofArgument`: the platforms that a syntax tree names.
-/

namespace TableSpec
namespace Platform

/-! ## Tables -/

/-- Directories of specifications and their descriptions. -/
def directories : List (String × String) :=
  [("specs", "All Platforms"),
   ("darwin", "Darwin (Apple OS X)"),
   ("linux", "Ubuntu, CentOS"),
   ("freebsd", "FreeBSD"),
   ("posix", "POSIX-compatible Plaforms"),
   ("windows", "Microsoft Windows"),
   ("utility", "Utility"),
   ("yara", "YARA"),
   ("smart", "SMART"),
   ("lldpd", "LLDPD"),
   ("sleuthkit", "The Sleuth Kit"),
   ("macwin", "MacOS and Windows"),
   ("linwin", "Linux and Windows")]

/-- Operating systems and the directories that apply to each, in order of precedence. -/
def operatingSystems : List (String × List String) :=
  [("linux", ["specs", "linux", "posix", "utility", "yara", "smart", "lldpd", "sleuthkit", "linwin"]),
   ("darwin", ["specs", "posix", "utility", "darwin", "yara", "smart", "lldpd", "sleuthkit", "macwin"]),
   ("windows", ["specs", "windows", "utility", "yara", "smart", "sleuthkit", "macwin", "linwin"]),
   ("freebsd", ["specs", "freebsd", "posix", "utility", "yara", "smart", "lldpd"])]

/-- Categories and the platforms that each stands for. -/
def categories : List (String × List String) :=
  [("WINDOWS", ["windows", "win32", "cygwin"]),
   ("LINUX", ["linux"]),
   ("POSIX", ["linux", "darwin", "freebsd"]),
   ("DARWIN", ["darwin"]),
   ("FREEBSD", ["freebsd"])]

/-- The entry of a fixed table. `title` names the table in the error. -/
def entry {α : Type} (title : String) (table : List (String × α)) (key : String) : Except Error α :=
  match table.lookup key with
  | some value => .ok value
  | none => .error (.lookup key title)

/-- The description of a directory of specifications. -/
def describe (directory : String) : Except Error String :=
  entry "canonical platforms" directories directory

/-- The directories that apply to an operating system. -/
def directoriesFor (system : String) : Except Error (List String) :=
  entry "OS namespaces" operatingSystems system

/-- The platforms of a category. -/
def ofCategory (category : String) : Except Error (List String) :=
  entry "table categories" categories category

theorem entry_eq_ok {α : Type} {title key : String} {table : List (String × α)} {value : α} :
    entry title table key = .ok value ↔ table.lookup key = some value := by
  cases h : table.lookup key <;> simp [entry, h]

theorem entry_eq_error {α : Type} {title key : String} {table : List (String × α)} {e : Error} :
    entry title table key = .error e ↔ table.lookup key = none ∧ e = .lookup key title := by
  cases h : table.lookup key <;> simp [entry, h, eq_comm]

/-! ## Platforms named in a syntax tree -/

/-- Add those names of a list that are not there yet, in order. -/
def addNew (names more : List String) : List String :=
  more.foldl (fun acc name => if acc.contains name then acc else acc ++ [name]) names

/-- The category that an operand names, which has to be a call to a bare name without arguments. -/
def operandCategory (context : String) (operand : Node) : Except Error String :=
  match operand with
  | .call (.name category) [] [] => .ok category
  | .call (.name _) (arg :: _) _ => .error (.unexpected context "zero-argument call" arg.describe)
  | .call (.name _) [] ((_, value) :: _) => .error (.unexpected context "zero-argument call" value.describe)
  | .call callee _ _ => .error (.unexpected context "call to a bare name" callee.describe)
  | node => .error (.unexpected context "call" node.describe)

/-- The platforms of the operands of a disjunction from position `position` on, added to those known. -/
def ofOperands (known : List String) : Nat → List Node → Except Error (List String)
  | _, [] => .ok known
  | position, operand :: rest => do
    let category ← operandCategory s!"lambda OR operand {position}" operand
    let platforms ← ofCategory category
    ofOperands (addNew known platforms) (position + 1) rest

/-- The platforms that `A() or B() or ...` names, each once, in order of first mention. -/
def ofDisjunction (body : Node) : Except Error (List String) :=
  match body with
  | .chain .or operands => ofOperands [] 0 operands
  | node => .error (.unexpected "lambda body" "boolean OR" node.describe)

/-- The platforms that the argument of an extended schema names: a category by its name, or several by a
    lambda over a disjunction. -/
def ofArgument (argument : Node) : Except Error (List String) :=
  match argument with
  | .lambda body => ofDisjunction body
  | node =>
    match Literal.ofNode? node with
    | some literal => ofCategory literal.key
    | none =>
      .error (.unexpected "extended_schema platform argument" "string, name, constant or lambda"
        node.describe)

end Platform
end TableSpec
