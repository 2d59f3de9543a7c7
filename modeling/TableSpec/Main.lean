import TableSpec.CommandLine
import TableSpec.CommandLine.Elapsed
import TableSpec.Service

/-!
# `TableSpec.Main` — the program

Looks at the files that an invocation reads from, carries it out, and writes what comes of it. A database that
is ready is asked through standard input, one method and one target a line.
-/

namespace TableSpec
namespace CommandLine

/-- The contents of a file. A file that cannot be read has contents that are no text. -/
def readBytes (path : String) : IO ByteArray := do
  try IO.FS.readBinFile path catch _ => return ⟨#[0xff]⟩

/-- Add what is at a path to a tree of files; of a directory, also what is in it if `deep` is set. -/
partial def look (deep : Bool) (files : Files) (path : String) : IO Files := do
  let place := (← IO.currentDir) / path
  if ← place.isDir then
    let files := files.add path .directory
    if deep then (← place.readDir).foldlM (fun files e => look deep files (Path.join path e.fileName)) files
    else return files
  else if ← place.pathExists then return files.add path (.file (← readBytes path))
  else return files

/-- The operating system that the program runs on, told by the directories that it has. -/
def hostSystem : IO String := do
  let files ← ["/System/Library", "C:\\Windows", "/proc"].foldlM (look false) {}
  return if files.contains "/System/Library" then "darwin"
    else if files.contains "C:\\Windows" then "windows"
    else if files.contains "/proc" then "linux" else "freebsd"

/-- The environment variables that options are taken from. -/
def readVariables : IO (List (String × String)) := do
  let names := (commonOptions ++ Verb.all.flatMap Verb.options).filterMap OptionSpec.envVar
  names.filterMapM (fun name => return (← IO.getEnv name).map (fun value => (name, value)))

/-- The files that an invocation needs to look at. -/
def readFiles (i : Invocation) : IO Files := do
  let files ← look false {} i.configPath
  let config := ((Config.load files i.configPath).toOption.bind id).getD {}
  let targets := i.target?.elim [] (fun path => [Path.parent path, path])
  let files ← targets.foldlM (look false) files
  (i.sources config).foldlM (look true) files

/-- Write the files of an outcome, and what it has to tell. -/
def report (before : Files) (milliseconds : Nat) (outcome : Outcome) : IO Unit := do
  for (path, bytes) in before.changes outcome.transcript.files do
    IO.FS.writeBinFile path bytes
  for s in outcome.transcript.statuses do
    IO.eprintln (if s.timed then s.text ++ " (" ++ Elapsed.text milliseconds ++ ")" else s.text)
  IO.print outcome.transcript.output

/-- Answer requests until there are no more. -/
partial def serveLines (respond : Request → Response) : IO Unit := do
  let line ← (← IO.getStdin).getLine
  if line.isEmpty then return
  match (line.replace "\n" "").splitOn " " with
  | method :: target :: _ =>
    let response := respond { method := method, target := target }
    IO.println (toString response.status ++ " " ++ (response.body.map Json.compact).getD "")
  | _ => IO.println "400"
  serveLines respond

/-- Carry out the command line of the program. -/
def perform (words : List String) : IO UInt32 := do
  let env ← readVariables
  let files ← match Invocation.ofWords env words with
    | .ok i => readFiles i
    | .error _ => pure {}
  let begin ← IO.monoMsNow
  let outcome := run ⟨files, env, ← hostSystem⟩ words
  let code := outcome.ending.code
  report files ((← IO.monoMsNow) - begin) outcome
  match outcome.ending with
  | .serving _ db => serveLines (Service.respond db)
  | .done | .failed | .misuse => pure ()
  return code.toUInt32

end CommandLine
end TableSpec

/-- The program. -/
def main (words : List String) : IO UInt32 := TableSpec.CommandLine.perform words
