/-!
# `TableSpec.Path` — names in a path

A path is a text with slashes. Repeated slashes, inner points and slashes at the end do not count.

## Contents
- `Path.segments`, `Path.parts`: the parts of a path.
- `fileName?`, `directoryName?`, `stem?`, `extension?`: the names in it.
- `join`: the path of something in a directory. `parent`: the path of the directory.
-/

namespace TableSpec
namespace Path

/-- What stands between the slashes of a path. -/
def segments (path : String) : List String := (path.toList.splitOn '/').map String.ofList

/-- A part of a path. -/
inductive Part where
  /-- The slash at the start. -/
  | root
  /-- A single point at the start. -/
  | here
  /-- Two points. -/
  | up
  | name (text : String)
  deriving DecidableEq, Repr, Inhabited

/-- The parts of a path. -/
def parts (path : String) : List Part :=
  let start := match segments path with
    | "" :: _ :: _ => [.root]
    | "." :: _ => [.here]
    | _ => []
  start ++ (segments path).filterMap fun s =>
    if s = "" ∨ s = "." then none else if s = ".." then some .up else some (.name s)

/-- The last part, when it is a name. -/
def lastName? (ps : List Part) : Option String :=
  match ps.getLast? with
  | some (.name s) => some s
  | _ => none

/-- The name that a path ends in. -/
def fileName? (path : String) : Option String := lastName? (parts path)

/-- The name of the directory that a path leads into. -/
def directoryName? (path : String) : Option String := lastName? (parts path).dropLast

/-- The part of a file name before its last point, and the part after it. A point at the start separates
    nothing. -/
def splitExtension (name : String) : String × Option String :=
  let reversed := name.toList.reverse
  let after := reversed.takeWhile (· ≠ '.')
  match reversed.drop after.length with
  | '.' :: before =>
    if before.isEmpty then (name, none)
    else (String.ofList before.reverse, some (String.ofList after.reverse))
  | _ => (name, none)

/-- The name that a path ends in, without its extension. -/
def stem? (path : String) : Option String := (fileName? path).map (fun n => (splitExtension n).1)

/-- The extension of the name that a path ends in. -/
def extension? (path : String) : Option String := (fileName? path).bind (fun n => (splitExtension n).2)

/-- The path of `name` in a directory. A path that begins with a slash stands for itself. -/
def join (directory name : String) : String :=
  if name.startsWith "/" || directory = "" then name
  else if directory.endsWith "/" then directory ++ name
  else directory ++ "/" ++ name

/-- The path of the directory that a path leads into; a path without slashes leads into the working
    directory. -/
def parent (path : String) : String :=
  let before := (path.toList.reverse.dropWhile (· ≠ '/')).reverse
  if before.isEmpty then "." else String.ofList before

end Path
end TableSpec
