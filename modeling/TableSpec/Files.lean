import TableSpec.Error
import TableSpec.KeyMap
import TableSpec.Path

/-!
# `TableSpec.Files` — a tree of files

What the library reads and writes is a tree of files, as a value. Paths are relative to one directory of the
tree unless they begin with a slash.

## Contents
- `Files`, `Files.place?`: the place that a path leads to.
- `entry?`, `contains`, `readText`, `write`.
- `below`: the files below a place. `changes`: what is new in a tree.
-/

namespace TableSpec

/-- What is at a place in a tree of files. -/
inductive FileEntry where
  | file (bytes : ByteArray)
  | directory
  deriving Inhabited

/-- Files and directories under the keys of their places. The directories on the way to a file need no
    entries of their own. -/
structure Files where
  entries : KeyMap FileEntry := .empty
  deriving Inhabited

/-- A place in a tree of files: the names on the way to it. The way begins with an empty name when it begins
    at the root, and with two points for every directory that it leads out of. -/
abbrev Place := List String

namespace Place

/-- The key of a place: its names with slashes between. -/
def key (p : Place) : String := if p = [""] then "/" else "/".intercalate p

/-- What the keys of the places inside of a place begin with. -/
def inside (p : Place) : List Char :=
  if p.isEmpty || p == [""] then p.key.toList else p.key.toList ++ ['/']

/-- The place above. -/
def up (p : Place) : Place :=
  match p.getLast? with
  | none | some ".." => p ++ [".."]
  | some "" => p
  | some _ => p.dropLast

/-- The place that is next by a name of a path. -/
def next (p : Place) (name : String) : Place :=
  if name = "" || name = "." then p else if name = ".." then p.up else p ++ [name]

/-- Where a path begins, and the names in it. -/
def split (path : String) : Place × List String :=
  match Path.segments path with
  | "" :: names => ([""], names)
  | names => ([], names)

/-- The place of a path. -/
def ofPath (path : String) : Place := (split path).2.foldl next (split path).1

/-- Whether a place is a directory in every tree: the working directory, those above it, and the root. -/
def isFixed (p : Place) : Bool := p == [""] || p.all (· == "..")

end Place

namespace Files

/-- What is at a place: an entry, or a directory on the way to one. -/
def at? (t : Files) (p : Place) : Option FileEntry :=
  if p.isFixed then some .directory
  else match t.entries.get? p.key with
    | some e => some e
    | none => if t.entries.keys.any (fun k => p.inside.isPrefixOf k.toList) then some .directory else none

/-- Whether there is a directory at a place. -/
def isDirectory (t : Files) (p : Place) : Bool := (t.at? p) matches some .directory

/-- The place that a path leads to; whether there is anything is another question. All that a further name
    follows has to be a directory. -/
def place? (t : Files) (path : String) : Option Place :=
  if path.isEmpty then none
  else (Place.split path).2.foldlM (fun p name => if t.isDirectory p then some (p.next name) else none)
    (Place.split path).1

/-- What a path leads to. -/
def entry? (t : Files) (path : String) : Option FileEntry := (t.place? path).bind t.at?

/-- Whether a path leads to something. -/
def contains (t : Files) (path : String) : Bool := (t.entry? path).isSome

/-- The files below a place, with what their keys have after that of the place. -/
def below (t : Files) (p : Place) : List String :=
  t.entries.entries.filterMap fun e =>
    match e.2 with
    | .file _ =>
      if p.inside.isPrefixOf e.1.toList then some (String.ofList (e.1.toList.drop p.inside.length)) else none
    | .directory => none

/-- The text of a file. What is no file, or holds no text, cannot be read. -/
def readText (t : Files) (path : String) : Except Error String :=
  match t.entry? path with
  | some (.file bytes) =>
    match String.fromUTF8? bytes with
    | some text => .ok text
    | none => .error .file
  | _ => .error .file

/-- Put something at the place of a path. -/
def add (t : Files) (path : String) (entry : FileEntry) : Files :=
  ⟨t.entries.insert (Place.ofPath path).key entry⟩

/-- Write a text to a file, which may be new, in a directory that is there. -/
def write (t : Files) (path text : String) : Except Error Files :=
  match t.place? path with
  | some p =>
    if t.isDirectory p || !t.isDirectory p.dropLast then .error .file
    else .ok ⟨t.entries.insert p.key (.file text.toUTF8)⟩
  | none => .error .file

/-- The files that are in one tree and not, or with other contents, in another one, under their keys. -/
def changes (before after : Files) : List (String × ByteArray) :=
  after.entries.entries.filterMap fun e =>
    match e.2, before.entries.get? e.1 with
    | .file bytes, some (.file old) => if bytes.data = old.data then none else some (e.1, bytes)
    | .file bytes, _ => some (e.1, bytes)
    | .directory, _ => none

end Files
end TableSpec
