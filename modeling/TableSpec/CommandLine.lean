import TableSpec.CommandLine.Help
import TableSpec.Config
import TableSpec.Database
import TableSpec.Ingest
import TableSpec.Listing
import TableSpec.Service.Address

/-!
# `TableSpec.CommandLine` — carrying out a command line

What an invocation does is a value: the texts that it writes, the files that it leaves behind and the
outcome. Documents and listings go to the output; what is told about them goes beside it.

## Contents
- `Status`, `Transcript`, `Outcome`.
- `Step`: a step of an invocation, which adds to the transcript and may fail with a text.
- `Invocation.run`: carry out an invocation. `run`: carry out a command line.
-/

namespace TableSpec
namespace CommandLine

/-! ## Outcomes -/

/-- A line that is told beside the output. -/
structure Status where
  text : String
  /-- Whether the time that has passed is told after it. -/
  timed : Bool := false
  deriving DecidableEq, Repr, Inhabited

/-- What has been written so far, and the files. -/
structure Transcript where
  files : Files
  output : String := ""
  statuses : List Status := []
  deriving Inhabited

/-- How an invocation ends. -/
inductive Ending where
  | done
  /-- Something went wrong. -/
  | failed
  /-- The words were no command line. -/
  | misuse
  /-- A database is ready to be served at an address. -/
  | serving (address : String) (db : Database)
  deriving Inhabited

/-- The transcript of an invocation, and how it ends. -/
structure Outcome where
  transcript : Transcript
  ending : Ending
  deriving Inhabited

/-- The number that tells others how an invocation ended. -/
def Ending.code : Ending → Nat
  | done | serving _ _ => 0
  | failed => 1
  | misuse => 2

/-- What an invocation finds around it. -/
structure Surroundings where
  files : Files
  /-- The environment variables. -/
  env : List (String × String) := []
  /-- The operating system that the program runs on. -/
  system : String := "linux"
  deriving Inhabited

/-! ## Steps -/

/-- A step: it adds to the transcript, and fails with a text. -/
abbrev Step := ExceptT String (StateM Transcript)

/-- Write a line of output. -/
def printLine (text : String) : Step Unit :=
  modify (fun t => { t with output := t.output ++ text ++ "\n" })

/-- Tell something beside the output. -/
def tell (text : String) (timed : Bool) : Step Unit :=
  modify (fun t => { t with statuses := t.statuses ++ [⟨text, timed⟩] })

/-- Tell a value with its label. -/
def inform (label value : String) : Step Unit := tell ("ℹ️ " ++ label ++ ": " ++ value) false

/-- Go on with a result of the library. -/
def ofLibrary {α : Type} (r : Except Error α) : Step α :=
  match r with
  | .ok a => return a
  | .error e => throw (": ".intercalate e.chain)

/-- Why the file with the settings cannot be used. -/
def configMessage : ConfigError → String
  | .present path => "config already exists at " ++ path ++ " (use --force to overwrite)"
  | .malformed path => "invalid config " ++ path ++ ": malformed document"
  | .unwritable => "out-of-range value for u64 type"
  | .file => "IO error"

/-- Go on with a result about settings. -/
def ofConfig {α : Type} (r : Except ConfigError α) : Step α :=
  match r with
  | .ok a => return a
  | .error e => throw (configMessage e)

/-- Go on with a value that has to be there. -/
def required {α : Type} (o : Option α) (message : String) : Step α :=
  match o with
  | some a => return a
  | none => throw message

/-! ## Sources of tables -/

/-- The directory of specifications that is given or set. -/
def specsDirectory (given : Option String) (config : Config) : Step String :=
  required (given.or config.specsDir)
    "no spec directory given (use --specs-dir or set specs_dir in osqt.toml)"

/-- Take in a directory of specifications. -/
def takeIn (directory : String) (workers : Option Nat) : Step Catalog := do
  tell ("📁 " ++ directory) false
  let defaults : Ingest.Options := {}
  let options := { defaults with workers := workers.getD defaults.workers }
  let c ← ofLibrary (Ingest.directory options (← get).files directory)
  tell s!"📋 {c.tableCount} tables in {c.namespaces.keys.length} namespaces" true
  return c

/-- The catalog of the document that is given or set, or else of the directory of specifications. A directory
    that is given comes before a document that is set. -/
def obtain (schema specsDir : Option String) (config : Config) : Step Catalog := do
  match specsDir, schema.or config.schema with
  | none, some path =>
    let c ← ofLibrary (Catalog.load (← get).files path)
    inform "Schema" path
    return c
  | _, _ => takeIn (← specsDirectory specsDir config) config.workers

/-! ## Actions -/

/-- The format that is set. -/
def configuredFormat (word : String) : Step Format :=
  required (Format.ofWord? (word.map Char.toLower))
    ("unsupported output format " ++ Quoted.quote word ++ " (json, yaml)")

/-- Write the tables of a directory as a document. -/
def writeDocument (config : Config) (specsDir outputFile : Option String) (format : Option Format)
    (workers : Option Nat) : Step Unit := do
  let format ← match format, config.outputFormat with
    | some format, _ => pure format
    | none, some word => configuredFormat word
    | none, none => pure .json
  let directory ← specsDirectory specsDir config
  let c ← takeIn directory (workers.or config.workers)
  match outputFile with
  | some path =>
    match (← get).files.write path (c.print format) with
    | .ok files =>
      modify (fun t => { t with files := files })
      tell ("📄 " ++ path ++ " (" ++ format.word ++ ")") false
    | .error e => throw ("writing " ++ path ++ ": " ++ e.display)
  | none => printLine (c.print format)

/-- The tables that are asked for, by a directory or an operating system. -/
def selectTables (c : Catalog) (directory system : Option String) : Step (List OwnedTable) :=
  match directory, system with
  | some key, _ => do
    let ns ← required (c.namespace? key) ("namespace " ++ Quoted.quote key ++ " not found")
    return c.tables.filter (fun t => t.owner.key = ns.key)
  | none, some system => ofLibrary (c.tablesForSystem system)
  | none, none => return c.tables

/-- Whether the columns of a schema are shown: those of extensions only for systems that they apply to. -/
def isShown (system : Option String) (place : SchemaPlace) (schema : Schema) : Bool :=
  place = .base || system.all schema.appliesTo

/-- The heading of a schema. -/
def placeHeading : SchemaPlace → String
  | .base => "schema"
  | .extended platform => "extended_schema(" ++ platform ++ ")"

/-- Show the columns of a table. -/
def showTable (t : OwnedTable) (system : Option String) : Step Unit := do
  tell ("📋 " ++ t.table.name ++ " (" ++ t.owner.key ++ ")") false
  if !t.table.description.isEmpty then printLine t.table.description
  for (place, schema) in t.table.schemas do
    if isShown system place schema then
      printLine (placeHeading place)
      printLine (Listing.ofColumns schema.columns)

/-- Show tables, or the columns of one of them. -/
def showTables (config : Config) (schema specsDir directory system table : Option String) : Step Unit := do
  let c ← obtain schema specsDir config
  let tables ← selectTables c directory system
  match table with
  | some name =>
    let found ← required (tables.find? (fun t => t.table.name = name))
      ("table " ++ Quoted.quote name ++ " not found")
    showTable found system
  | none => if tables.isEmpty then tell "⚠️ No tables found" false else printLine (Listing.ofTables tables)

/-- Get a database ready to be served. -/
def prepare (config : Config) (host : String) (address schema specsDir system : Option String) :
    Step Ending := do
  let address := (address.or config.listenAddr).getD Config.defaultAddress
  if !Address.isValid address then
    throw ("invalid listen address " ++ Quoted.quote address ++ ": invalid socket address syntax")
  let system := (system.or config.targetOs).getD host
  let c ← obtain schema specsDir config
  let db ← ofLibrary (Database.ofCatalog c system)
  inform "Target OS" system
  tell s!"🌍 Serving {db.tableNames.length} tables from {db.name} at http://{address}" false
  return .serving address db

/-- The file with the settings when none is given. -/
def defaultConfigPath : String := "osqt.toml"

/-- Write the settings to begin with. -/
def writeSettings (path host : String) (specsDir : Option String) (force : Bool) : Step Unit := do
  let files ← ofConfig (Config.save (← get).files path (.starter specsDir (some host)) force)
  modify (fun t => { t with files := files })
  tell ("✅ Wrote " ++ path) false

/-- The name of the program and its version. -/
def versionLine : String := "osqt 0.1.0"

/-- Carry out an action. -/
def Action.perform (config : Config) (path host : String) : Action → Step Ending
  | document specsDir outputFile format workers => do
    writeDocument config specsDir outputFile format workers
    return .done
  | serve address schema specsDir system => prepare config host address schema specsDir system
  | tables schema specsDir directory system table => do
    showTables config schema specsDir directory system table
    return .done
  | settings specsDir force => do
    writeSettings path host specsDir force
    return .done
  | version => do
    printLine versionLine
    return .done

/-! ## Runs -/

/-- The file with the settings of an invocation. -/
def Invocation.configPath (i : Invocation) : String := i.config.getD defaultConfigPath

/-- The paths that an invocation with given settings reads from. -/
def Invocation.sources (i : Invocation) (config : Config) : List String :=
  let paths := match i.action with
    | .document specsDir _ _ _ => [specsDir.or config.specsDir]
    | .serve _ schema specsDir _ | .tables schema specsDir _ _ _ =>
      [if specsDir.isNone then schema.or config.schema else none, specsDir.or config.specsDir]
    | .settings _ _ | .version => []
  paths.filterMap id

/-- The path that an invocation writes to. -/
def Invocation.target? (i : Invocation) : Option String :=
  match i.action with
  | .document _ outputFile _ _ => outputFile
  | .settings _ _ => some i.configPath
  | .serve _ _ _ _ | .tables _ _ _ _ _ | .version => none

/-- Carry out an invocation: read the settings, then act. -/
def Invocation.run (i : Invocation) (s : Surroundings) : Outcome :=
  let step : Step Ending := do
    let config ← ofConfig (Config.load (← get).files i.configPath)
    i.action.perform (config.getD {}) i.configPath s.system
  match step.run.run ⟨s.files, "", []⟩ with
  | (.ok ending, transcript) => ⟨transcript, ending⟩
  | (.error message, transcript) =>
    ⟨{ transcript with statuses := transcript.statuses ++ [⟨"❌ " ++ message, false⟩] }, .failed⟩

/-- The outcome of words that ask for no action. -/
def Stop.outcome (s : Surroundings) (stop : Stop) : Outcome :=
  match stop with
  | misuse => ⟨⟨s.files, "", [⟨"error: the command line is not understood; try '--help'", false⟩]⟩, .misuse⟩
  | version => ⟨⟨s.files, versionLine ++ "\n", []⟩, .done⟩
  | help _ _ | helpOnHelp => ⟨⟨s.files, stop.helpText s.env, []⟩, .done⟩

/-- Carry out a command line. -/
def run (s : Surroundings) (words : List String) : Outcome :=
  match Invocation.ofWords s.env words with
  | .ok i => i.run s
  | .error stop => stop.outcome s

end CommandLine
end TableSpec
