import TableSpec.Format
import TableSpec.Text.Digits

/-!
# `TableSpec.CommandLine.Arguments` — what a command line asks for

A command line is a verb with options before and after it. An option is given by its long name, or by its
letter, or left to an environment variable. No option may be given twice, and some exclude others.

## Contents
- `OptionSpec`, `Verb`, `Verb.options`: what there is.
- `scan`: the options in a list of words.
- `Stop`: why nothing is to be done. `Action`, `Invocation`: what is to be done.
- `Invocation.ofWords`.
-/

namespace TableSpec
namespace CommandLine

/-! ## Options -/

/-- What an option takes. -/
inductive Kind where
  /-- Nothing. -/
  | flag
  /-- A path, which is not empty. -/
  | path
  | text
  | count
  | format
  deriving DecidableEq, Repr, Inhabited

/-- An option. -/
structure OptionSpec where
  long : String
  short : Option Char
  kind : Kind
  /-- The environment variable that is asked when the option is not given. -/
  envVar : Option String := none
  /-- The option that may not be given together with this one. -/
  excludes : Option String := none
  help : String
  deriving Repr, Inhabited

/-- What can be asked for. -/
inductive Verb where
  /-- Write the tables of a directory as a document. -/
  | document
  | serve
  | tables
  /-- Write a file with settings. -/
  | settings
  | version
  deriving DecidableEq, Repr, Inhabited

/-- The options of every verb, which may also be given before it. -/
def commonOptions : List OptionSpec :=
  [⟨"verbose", some 'v', .flag, none, none, "Enable verbose logging"⟩,
   ⟨"config", some 'c', .path, some "OSQT_CONFIG", none,
    "Config file (defaults to ./osqt.toml when present)"⟩]

/-- The directory of specifications. -/
def specsOption : OptionSpec :=
  ⟨"specs-dir", some 's', .path, some "OSQT_SPECS_DIR", none, "Root of the \x60.table\x60 spec tree"⟩

/-- The document that takes the place of a directory of specifications. -/
def schemaOption : OptionSpec :=
  ⟨"schema", none, .path, some "OSQT_SCHEMA", some "specs-dir",
   "Previously exported schema document (json/yaml)"⟩

namespace Verb

/-- All verbs, in order. -/
def all : List Verb := [document, serve, tables, settings, version]

/-- The word for a verb. -/
def word : Verb → String
  | document => "export"
  | serve => "serve"
  | tables => "tables"
  | settings => "init"
  | version => "version"

/-- The verb that a word stands for. -/
def ofWord? (w : String) : Option Verb := all.find? (fun v => v.word = w)

/-- What a verb does. -/
def help : Verb → String
  | document => "Extract every spec and write the schema document"
  | serve => "Serve the tables of one OS over HTTP"
  | tables => "List extracted tables"
  | settings => "Write a starter osqt.toml"
  | version => "Print version information"

/-- The options of a verb. -/
def options : Verb → List OptionSpec
  | document =>
    [specsOption,
     ⟨"output-file", some 'o', .path, none, none, "Output file (stdout when omitted)"⟩,
     ⟨"output-format", some 'f', .format, some "OSQT_OUTPUT_FORMAT", none, "Document format"⟩,
     ⟨"workers", some 'w', .count, some "OSQT_WORKERS", none, "Parse worker threads"⟩]
  | serve =>
    [⟨"listen-addr", some 'l', .text, some "OSQT_LISTEN_ADDR", none, "Address to listen on"⟩,
     schemaOption,
     specsOption,
     ⟨"target-os", some 't', .text, some "OSQT_TARGET_OS", none, "Target OS (defaults to the host OS)"⟩]
  | tables =>
    [schemaOption,
     specsOption,
     ⟨"namespace", some 'n', .text, none, some "target-os", "Only tables from this namespace"⟩,
     ⟨"target-os", some 't', .text, none, none, "Only tables that apply to this OS"⟩,
     ⟨"table", none, .text, none, none, "Show the columns of one table"⟩]
  | settings =>
    [⟨"specs-dir", some 's', .path, none, none, "Spec tree to record in the config"⟩,
     ⟨"force", none, .flag, none, none, "Overwrite an existing config"⟩]
  | version => []

end Verb

/-! ## Values -/

/-- Why nothing is to be done. -/
inductive Stop where
  /-- The words are no command line. -/
  | misuse
  /-- Help is asked for, with a verb or with all of them; the long form tells more. -/
  | help (verb : Option Verb) (long : Bool)
  /-- Help with the help is asked for. -/
  | helpOnHelp
  | version
  deriving DecidableEq, Repr, Inhabited

/-- The values of options under their long names. -/
abbrev Values := List (String × String)

/-- The count that a text is: a number of at most 64 bits, possibly with a plus sign. -/
def count? (s : String) : Option Nat :=
  let digits := match s.toList with
    | '+' :: rest => rest
    | cs => cs
  let n := Digits.toNat digits
  if digits ≠ [] && digits.all Char.isDigit && n < UInt64.size then some n else none

/-- Whether an option may have a value. -/
def Kind.accepts (kind : Kind) (value : String) : Bool :=
  match kind with
  | flag | text => true
  | path => !value.isEmpty
  | count => (count? value).isSome
  | format => (Format.ofWord? value).isSome

/-- Give an option a value, which it may not have yet. -/
def Values.put (values : Values) (option : OptionSpec) (value : String) : Except Stop Values :=
  if (values.lookup option.long).isNone && option.kind.accepts value then .ok ((option.long, value) :: values)
  else .error .misuse

/-! ## Words -/

/-- Whether a word is made of options. A single dash is a value. -/
def isOption (word : String) : Bool :=
  match word.toList with
  | '-' :: _ :: _ => true
  | _ => false

/-- The value of an option: what is attached to it, or else the next word, which may not be an option. -/
def takeValue (attached : Option String) (words : List String) : Except Stop (String × List String) :=
  match attached, words with
  | some value, words => .ok (value, words)
  | none, word :: words => if isOption word then .error .misuse else .ok (word, words)
  | none, [] => .error .misuse

/-- What there is to be understood in a place: options, and whether it is before the verb. -/
structure Scope where
  options : List OptionSpec
  verb : Option Verb

/-- The value attached to a letter: all that follows, without an equals sign in front. -/
def attachedTo (letters : List Char) : Option String :=
  match letters with
  | [] => none
  | '=' :: value => some (String.ofList value)
  | value => some (String.ofList value)

/-- The options in a word of letters. The last one may take its value from the words that follow. -/
def readLetters (scope : Scope) (values : Values) (words : List String) :
    List Char → Except Stop (Values × List String)
  | [] => .ok (values, words)
  | c :: letters =>
    match scope.options.find? (fun o => o.short = some c) with
    | some option =>
      if option.kind = .flag then do
        let values ← values.put option "true"
        readLetters scope values words letters
      else do
        let (value, words) ← takeValue (attachedTo letters) words
        return (← values.put option value, words)
    | none =>
      if c = 'h' then .error (.help scope.verb false)
      else if c = 'V' && scope.verb.isNone then .error .version
      else .error .misuse

/-- The option that a long name with or without a value gives. -/
def readLong (scope : Scope) (values : Values) (words : List String) (text : List Char) :
    Except Stop (Values × List String) :=
  let name := String.ofList (text.takeWhile (· ≠ '='))
  let attached := match text.dropWhile (· ≠ '=') with
    | _ :: value => some (String.ofList value)
    | [] => none
  match scope.options.find? (fun o => o.long = name) with
  | some option =>
    if option.kind = .flag then do
      if attached.isSome then throw .misuse
      return (← values.put option "true", words)
    else do
      let (value, words) ← takeValue attached words
      return (← values.put option value, words)
  | none =>
    if attached.isSome then .error .misuse
    else if name = "help" then .error (.help scope.verb true)
    else if name = "version" && scope.verb.isNone then .error .version
    else .error .misuse

/-- The options in words up to the verb, and the words from the verb on. After the verb all words are of
    options. Two dashes end the options; nothing may follow them. The number bounds how many words there
    may be. -/
def scan (scope : Scope) : Nat → Values → List String → Except Stop (Values × List String)
  | _, values, [] => .ok (values, [])
  | 0, values, words => .ok (values, words)
  | n + 1, values, word :: words =>
    match word.toList with
    | ['-', '-'] => if words.isEmpty then .ok (values, []) else .error .misuse
    | '-' :: '-' :: text => do
      let (values, words) ← readLong scope values words text
      scan scope n values words
    | '-' :: c :: letters => do
      let (values, words) ← readLetters scope values words (c :: letters)
      scan scope n values words
    | _ => if scope.verb.isNone then .ok (values, word :: words) else .error .misuse

/-- Take the values of options that are not given from the environment. -/
def complete (options : List OptionSpec) (env : List (String × String)) (values : Values) :
    Except Stop Values :=
  options.foldlM (fun values option =>
    match option.envVar.bind (fun name => env.lookup name) with
    | some value => if (values.lookup option.long).isSome then .ok values else values.put option value
    | none => .ok values) values

/-- Whether options are given of which one excludes the other. -/
def hasConflict (options : List OptionSpec) (values : Values) : Bool :=
  options.any (fun o => (values.lookup o.long).isSome && o.excludes.any (fun e => (values.lookup e).isSome))

/-! ## Actions -/

/-- What is to be done. -/
inductive Action where
  | document (specsDir outputFile : Option String) (format : Option Format) (workers : Option Nat)
  | serve (address schema specsDir system : Option String)
  | tables (schema specsDir directory system table : Option String)
  | settings (specsDir : Option String) (force : Bool)
  | version
  deriving DecidableEq, Repr, Inhabited

/-- What is to be done, and the file with the settings for it. -/
structure Invocation where
  config : Option String
  action : Action
  deriving DecidableEq, Repr, Inhabited

/-- What a verb with the values of its options asks for. -/
def Action.ofValues (verb : Verb) (values : Values) : Action :=
  let value (name : String) : Option String := values.lookup name
  match verb with
  | .document =>
    .document (value "specs-dir") (value "output-file") ((value "output-format").bind Format.ofWord?)
      ((value "workers").bind count?)
  | .serve => .serve (value "listen-addr") (value "schema") (value "specs-dir") (value "target-os")
  | .tables =>
    .tables (value "schema") (value "specs-dir") (value "namespace") (value "target-os") (value "table")
  | .settings => .settings (value "specs-dir") (value "force").isSome
  | .version => .version

/-- The help that is asked for by the words after the verb for it. -/
def helpFor : List String → Stop
  | [] => .help none true
  | ["help"] => .helpOnHelp
  | [word] => (Verb.ofWord? word).elim .misuse (fun v => .help (some v) true)
  | _ => .misuse

/-- What a list of words asks for. -/
def Invocation.ofWords (env : List (String × String)) (words : List String) :
    Except Stop Invocation := do
  let (first, rest) ← scan ⟨commonOptions, none⟩ (words.length + 1) [] words
  match rest with
  | [] => throw .misuse
  | "help" :: rest => throw (helpFor rest)
  | word :: rest =>
    match Verb.ofWord? word with
    | none => throw .misuse
    | some verb =>
      let options := verb.options ++ commonOptions
      let (given, _) ← scan ⟨options, some verb⟩ (rest.length + 1) [] rest
      let values ← complete options env given
      if hasConflict options values then throw .misuse
      let all ← complete commonOptions env first
      let config := (given.lookup "config").or (all.lookup "config")
      return ⟨config, .ofValues verb values⟩

end CommandLine
end TableSpec
