import TableSpec.CommandLine.Arguments

/-!
# `TableSpec.CommandLine.Help` — what can be asked for, as text

A help text tells what a command does, how it is written, and its commands and options in two columns. The
long form of the text about the whole program puts what an option does on a line of its own.

## Contents
- `Entry`, `Entry.ofOption`: an option as it is listed.
- `ofProgram`, `ofVerb`, `ofHelp`: the help texts.
- `Stop.helpText`: the text that is asked for.
-/

namespace TableSpec
namespace CommandLine
namespace Help

/-- What is listed: how it is written, what it does, and what else is to know about it. -/
structure Entry where
  left : String
  right : String
  details : String := ""
  deriving Repr, Inhabited

/-- The word for the value of an option. -/
def placeholder (o : OptionSpec) : String :=
  "<" ++ o.long.map (fun c => if c = '-' then '_' else c.toUpper) ++ ">"

/-- An option as it is listed, with the value of its environment variable. -/
def Entry.ofOption (env : List (String × String)) (o : OptionSpec) : Entry where
  left :=
    (o.short.elim "    " (fun c => String.ofList ['-', c] ++ ", ")) ++ "--" ++ o.long ++
      (if o.kind = .flag then "" else " " ++ placeholder o)
  right := o.help
  details :=
    let setting := o.envVar.map (fun v => "[env: " ++ v ++ "=" ++ (env.lookup v).getD "" ++ "]")
    let values := if o.kind = .format then some "[possible values: json, yaml]" else none
    " ".intercalate (setting.toList ++ values.toList)

/-- The option that asks for help. -/
def helpEntry (about : String) : Entry := ⟨"-h, --help", "Print help" ++ about, ""⟩

/-- The option that asks for the version. -/
def versionEntry : Entry := ⟨"-V, --version", "Print version", ""⟩

/-- Blanks. -/
def blanks (n : Nat) : String := String.ofList (List.replicate n ' ')

/-- Entries in two columns. -/
def columns (entries : List Entry) : List String :=
  let width := (entries.map (fun e => e.left.length)).foldl max 0
  entries.map (fun e =>
    let right := if e.details.isEmpty then e.right else e.right ++ " " ++ e.details
    blanks 2 ++ e.left ++ blanks (width - e.left.length + 2) ++ right)

/-- Entries with what they do below them. -/
def paragraphs (entries : List Entry) : List String :=
  let paragraph (e : Entry) : List String :=
    [blanks 2 ++ e.left, blanks 10 ++ e.right] ++
      (if e.details.isEmpty then [] else [blanks 10, blanks 10 ++ e.details])
  List.intercalate [""] (entries.map paragraph)

/-- Lines as a text. -/
def ofLines (lines : List String) : String := "\n".intercalate lines ++ "\n"

/-- The commands. -/
def commands : List Entry :=
  Verb.all.map (fun v => ⟨v.word, v.help, ""⟩) ++
    [⟨"help", "Print this message or the help of the given subcommand(s)", ""⟩]

/-- What the program is, in one line. -/
def summary : String := "osquery table toolkit - structured schema extraction from .table specs"

/-- What the program is for. -/
def purpose : List String :=
  ["osqt reads the osquery \x60.table\x60 specification tree and turns it into:",
   "  • A JSON or YAML document of every namespace, table and column",
   "  • An in-memory relational database with one empty table per spec",
   "  • A small HTTP front for listing tables and running queries",
   "",
   "Example usage:",
   "  osqt export --specs-dir ./osquery/specs --output-format yaml",
   "  osqt tables --specs-dir ./osquery/specs --namespace linux",
   "  osqt serve --schema schema.json --target-os linux",
   ""]

/-- The help on the whole program. -/
def ofProgram (env : List (String × String)) (long : Bool) : String :=
  let options := commonOptions.map (Entry.ofOption env)
  let help := if long then helpEntry " (see a summary with '-h')" else helpEntry " (see more with '--help')"
  let entries := options ++ [help, versionEntry]
  ofLines ((if long then purpose else [summary]) ++
    ["", "Usage: osqt [OPTIONS] <COMMAND>", "", "Commands:"] ++ columns commands ++
    ["", "Options:"] ++ (if long then paragraphs entries else columns entries))

/-- What options in the same position are ordered by: the letter, or the name of one without a letter. -/
def orderKey (o : OptionSpec) : String := o.short.elim o.long (fun c => String.ofList [c])

/-- Put the options of a verb and those of all verbs together, by their positions. -/
def merge : List OptionSpec → List OptionSpec → List OptionSpec
  | o :: own, c :: common => (if orderKey o < orderKey c then [o, c] else [c, o]) ++ merge own common
  | own, [] => own
  | [], common => common

/-- The help on a verb. -/
def ofVerb (env : List (String × String)) (v : Verb) : String :=
  let entries := (merge v.options commonOptions).map (Entry.ofOption env) ++ [helpEntry ""]
  ofLines ([v.help, "", "Usage: osqt " ++ v.word ++ " [OPTIONS]", "", "Options:"] ++ columns entries)

/-- The help on the help. -/
def ofHelp : String :=
  ofLines (["Print this message or the help of the given subcommand(s)", "",
    "Usage: osqt help [COMMAND]...", "", "Arguments:"] ++
    columns [⟨"[COMMAND]...", "Print help for the subcommand(s)", ""⟩])

end Help

/-- The help that is asked for. -/
def Stop.helpText (env : List (String × String)) : Stop → String
  | help none long => Help.ofProgram env long
  | help (some verb) _ => Help.ofVerb env verb
  | helpOnHelp => Help.ofHelp
  | misuse | version => ""

end CommandLine
end TableSpec
