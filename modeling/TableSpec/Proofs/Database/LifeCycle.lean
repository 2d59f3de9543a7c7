import TableSpec.Database
import TableSpec.Proofs.InPlace
import TableSpec.Proofs.Table.Columns

/-!
# `Proofs.Database.LifeCycle` — from registration to service

A database lives in two phases. First tables are registered and registered again, some of them wrongly; then,
once, the engine is made, and from then on nothing can be registered any more. `Database.Call` is what can be
asked of a database and `Database.after` what is left of it, whether or not the answer was an error.

What the manifest holds is said by looking back at a run alone (`get?_manifest_foldl`): for each name the last
table that was registered under it counts, and only if it has columns. No other call leaves a trace, and a call
that fails leaves none at all (`after_of_error`).

## Contents
- `Sql.Engine.query_eq_error`: the error of the engine.
- `Database.Call`, `Database.after`, `Database.events`, `Database.lastAddition`.
- The first phase: `get?_manifest_after`, `get?_manifest_foldl`. The lock: `after_of_initialized`,
  `isInitialized_foldl`.
- `Database.life_cycle`: all of it, for a run.
-/

namespace TableSpec

/-! ## Errors of the engine -/

namespace Sql

theorem orStorage_eq_error {α : Type} {o : Option α} {e : Error} (h : orStorage o = .error e) : e = .storage := by
  cases o with
  | none =>
    cases h
    rfl
  | some a => cases h

namespace Engine

/-- The engine has one error only. -/
theorem answer_eq_error {engine : Engine} {statement : Statement} {e : Error}
    (h : engine.answer statement = .error e) : e = .storage := by
  cases statement with
  | createTable name columns =>
    cases h
    rfl
  | columnInfo table => cases h
  | rowCount table =>
    rcases bind_eq_error.mp h with h | ⟨r, -, h⟩
    · exact orStorage_eq_error h
    · cases h
  | allColumns table =>
    rcases bind_eq_error.mp h with h | ⟨r, -, h⟩
    · exact orStorage_eq_error h
    · cases h
  | someColumns table asked =>
    rcases bind_eq_error.mp h with h | ⟨r, -, h⟩
    · exact orStorage_eq_error h
    rcases bind_eq_error.mp h with h | ⟨columns, -, h⟩
    · exact orStorage_eq_error h
    split at h
    · cases h
    · cases h
      rfl
  | rows first more =>
    rw [answer] at h
    split at h
    · cases h
    · cases h
      rfl

/-- So has a query, whether it cannot be read or cannot be answered. -/
theorem query_eq_error {engine : Engine} {sql : String} {e : Error} (h : engine.query sql = .error e) :
    e = .storage := by
  unfold query at h
  split at h
  · exact answer_eq_error h
  · cases h
    rfl

end Engine
end Sql

namespace Database

variable {db : Database} {t : Table} {platforms : List String} {name : String}

/-! ## Functions of a database -/

/-- Once the engine is made nothing is registered. -/
theorem addTable_of_initialized (h : db.isInitialized = true) (t : Table) (platforms : List String) :
    db.addTable t platforms = .error .databaseLocked := by
  unfold addTable
  rw [if_pos h]

/-- A table whose columns cannot be served is not registered, and the error says which column it is. -/
theorem addTable_of_error {e : Error} (h : db.isInitialized = false) (ht : t.servedColumns platforms = .error e) :
    db.addTable t platforms = .error e := by
  unfold addTable
  rw [if_neg (by simp [h]), ht]
  rfl

/-- The manifest after a table has been registered with these columns. -/
def enter (db : Database) (name : String) (columns : List ServedColumn) : Database :=
  { db with manifest := if columns.isEmpty then db.manifest.erase name else db.manifest.insert name columns }

/-- Before that, a table whose columns can be served is entered into the manifest. -/
theorem addTable_of_ok {columns : List ServedColumn} (h : db.isInitialized = false)
    (ht : t.servedColumns platforms = .ok columns) : db.addTable t platforms = .ok (db.enter t.name columns) := by
  unfold addTable enter
  rw [if_neg (by simp [h]), ht]
  show (if columns.isEmpty then _ else _) = _
  by_cases hempty : columns.isEmpty = true
  · rw [if_pos hempty, if_pos hempty]
    rfl
  · rw [if_neg hempty, if_neg hempty]
    rfl

/-- The engine is made once. -/
theorem start_of_initialized (h : db.isInitialized = true) : db.start = .error .databaseLocked := by
  unfold start
  rw [if_pos h]

/-- A start succeeds when the engine takes all tables of the manifest, and adds nothing but the engine. -/
theorem start_eq_ok {db' : Database} : db.start = .ok db' ↔ db.isInitialized = false ∧
    ∃ engine, createAll db.manifest = .ok engine ∧ db' = { db with engine := some engine } := by
  unfold start
  cases hdb : db.isInitialized with
  | true => simp
  | false =>
    rw [if_neg (by simp), map_eq_ok]
    simp [eq_comm]

/-- Queries are turned away before there is an engine, and only then. -/
theorem query_eq_notReady {sql : String} :
    db.query sql = .error .databaseNotReady ↔ db.isInitialized = false := by
  unfold query isInitialized
  cases db.engine with
  | none => simp
  | some engine =>
    simp only [Option.isSome_some, Bool.true_eq_false, iff_false]
    intro h
    exact absurd (Sql.Engine.query_eq_error h) (by simp)

/-! ## Calls -/

/-- What can be asked of a database. -/
inductive Call where
  | addTable (t : Table) (platforms : List String)
  | start
  | query (sql : String)
  | schema (table : String)
  | tableNames

/-- Register a table in place. -/
def addTableInPlace (t : Table) (platforms : List String) : InPlace Database Unit := do
  let db ← get
  if db.isInitialized then InPlace.ofResult (.error .databaseLocked)
  else do
    let columns ← InPlace.ofResult (t.servedColumns platforms)
    modify (fun db => db.enter t.name columns)

/-- Make the engine in place. It is put in when all of its tables are there. -/
def startInPlace : InPlace Database Unit := do
  let db ← get
  if db.isInitialized then InPlace.ofResult (.error .databaseLocked)
  else do
    let engine ← InPlace.ofResult (createAll db.manifest)
    modify (fun db => { db with engine := some engine })

/-- The call as a change in place. Questions change nothing. -/
def Call.act : Call → InPlace Database Unit
  | .addTable t platforms => addTableInPlace t platforms
  | .start => startInPlace
  | .query sql => do
    let db ← get
    InPlace.ofResult ((db.query sql).map (fun _ => ()))
  | .schema _ | .tableNames => pure ()

/-- Registering in place is registering: the columns are known before the manifest is touched. -/
theorem realizes_addTable (t : Table) (platforms : List String) :
    InPlace.Realizes (addTableInPlace t platforms) (fun db => db.addTable t platforms) := by
  intro db
  unfold addTableInPlace
  rw [InPlace.run_bind, InPlace.run_get]
  dsimp only
  cases hdb : db.isInitialized with
  | true =>
    rw [InPlace.outcome_of_error (addTable_of_initialized hdb t platforms)]
    rfl
  | false =>
    rw [if_neg (by simp), InPlace.run_bind, InPlace.run_ofResult]
    cases hcolumns : t.servedColumns platforms with
    | error e => rw [InPlace.outcome_of_error (addTable_of_error hdb hcolumns)]
    | ok columns =>
      rw [InPlace.outcome_of_ok (addTable_of_ok hdb hcolumns)]
      rfl

/-- Starting in place is starting: the engine is put in when all its tables are there. -/
theorem realizes_start : InPlace.Realizes startInPlace start := by
  intro db
  unfold startInPlace
  rw [InPlace.run_bind, InPlace.run_get]
  dsimp only
  cases hdb : db.isInitialized with
  | true =>
    rw [InPlace.outcome_of_error (start_of_initialized hdb)]
    rfl
  | false =>
    rw [if_neg (by simp), InPlace.run_bind, InPlace.run_ofResult]
    cases hengine : createAll db.manifest with
    | error e =>
      have hstart : db.start = .error e := by
        unfold start
        rw [if_neg (by simp [hdb]), hengine]
        rfl
      rw [InPlace.outcome_of_error hstart]
    | ok engine =>
      rw [InPlace.outcome_of_ok (start_eq_ok.mpr ⟨hdb, engine, hengine, rfl⟩)]
      rfl

/-! ## Runs -/

/-- The answer to a call, as far as it says whether the call succeeded. -/
def reply (db : Database) (call : Call) : Except Error Unit := (call.act.run db).1

/-- The database after a call, which may have failed. -/
def after (db : Database) (call : Call) : Database := (call.act.run db).2

/-- **A call that fails changes nothing.** -/
theorem after_of_error {call : Call} {e : Error} (h : db.reply call = .error e) : db.after call = db := by
  cases call with
  | addTable t platforms => exact (realizes_addTable t platforms).unchanged h
  | start => exact realizes_start.unchanged h
  | query sql => rfl
  | schema table => rfl
  | tableNames => rfl

/-- A call and whether it succeeded. -/
structure Event where
  call : Call
  reply : Except Error Unit

/-- The calls of a run with the answers to them. -/
def events (db : Database) : List Call → List Event
  | [] => []
  | call :: rest => ⟨call, db.reply call⟩ :: (db.after call).events rest

/-- A registration that succeeded, if it was for a table with this name. -/
def Event.addition? (name : String) : Event → Option (Table × List String)
  | ⟨.addTable t platforms, .ok ()⟩ => if t.name = name then some (t, platforms) else none
  | _ => none

/-- The last successful registration of a table with this name. -/
def lastAddition (name : String) (events : List Event) : Option (Table × List String) :=
  (events.filterMap (Event.addition? name)).getLast?

/-- Whether the engine has been made. -/
def Started (events : List Event) : Prop := ∃ e ∈ events, e.call = .start ∧ e.reply = .ok ()

/-! ## What the manifest holds -/

/-- What the manifest holds for a table with these columns: nothing when there are none. -/
def entry (columns : List ServedColumn) : Option (List ServedColumn) :=
  if columns.isEmpty then none else some columns

/-- What a registration leaves in the manifest under the name of its table. -/
def registered (addition : Table × List String) : Option (List ServedColumn) :=
  (addition.1.servedColumns addition.2).toOption.bind entry

/-- A registration leaves columns behind when they can be served and there are some. -/
theorem registered_eq_some {addition : Table × List String} {columns : List ServedColumn} :
    registered addition = some columns ↔
      addition.1.servedColumns addition.2 = .ok columns ∧ columns ≠ [] := by
  unfold registered
  cases addition.1.servedColumns addition.2 with
  | error e => simp [Except.toOption]
  | ok served =>
    show entry served = some columns ↔ _
    cases served with
    | nil => simp [entry, eq_comm]
    | cons c rest =>
      simp only [entry, List.isEmpty_cons, Bool.false_eq_true, if_false, Option.some.injEq, Except.ok.injEq]
      constructor
      · rintro rfl
        exact ⟨rfl, by simp⟩
      · exact fun h => h.1

/-- An entry is under its own name; all other names keep theirs. -/
theorem get?_enter (db : Database) (n name : String) (columns : List ServedColumn) :
    (db.enter n columns).manifest.get? name = if name = n then entry columns else db.manifest.get? name := by
  unfold enter entry
  by_cases hempty : columns.isEmpty = true
  · rw [if_pos hempty, if_pos hempty]
    exact KeyMap.get?_erase db.manifest n name
  · rw [if_neg hempty, if_neg hempty]
    exact KeyMap.get?_insert db.manifest n name columns

/-- A registration succeeds before the engine is made, when the columns can be served. -/
theorem addTable_eq_ok {db' : Database} : db.addTable t platforms = .ok db' ↔ db.isInitialized = false ∧
    ∃ columns, t.servedColumns platforms = .ok columns ∧ db' = db.enter t.name columns := by
  cases hdb : db.isInitialized with
  | true => simp [addTable_of_initialized hdb]
  | false =>
    cases hcolumns : t.servedColumns platforms with
    | error e => simp [addTable_of_error hdb hcolumns]
    | ok columns => simp [addTable_of_ok hdb hcolumns, eq_comm]

/-- **One call.** A registration that succeeds decides what the manifest holds for the name of its table;
    everything else stays. -/
theorem get?_manifest_after (db : Database) (call : Call) (name : String) :
    (db.after call).manifest.get? name =
      match Event.addition? name ⟨call, db.reply call⟩ with
      | some addition => registered addition
      | none => db.manifest.get? name := by
  cases hreply : db.reply call with
  | error e =>
    rw [after_of_error hreply]
    cases call <;> rfl
  | ok u =>
    cases call with
    | addTable t platforms =>
      obtain ⟨-, columns, hcolumns, hafter⟩ :=
        addTable_eq_ok.mp ((realizes_addTable t platforms).eq_ok_iff.mp hreply)
      show ((addTableInPlace t platforms).run db).2.manifest.get? name = _
      rw [hafter, get?_enter]
      by_cases hname : t.name = name
      · simp [Event.addition?, hname, registered, hcolumns, Except.toOption]
      · simp [Event.addition?, hname, Ne.symm hname]
    | start =>
      obtain ⟨-, engine, -, hafter⟩ := start_eq_ok.mp (realizes_start.eq_ok_iff.mp hreply)
      show (startInPlace.run db).2.manifest.get? name = _
      rw [hafter]
      rfl
    | query sql => rfl
    | schema table => rfl
    | tableNames => rfl

/-- What a run adds to the registrations before it. -/
theorem get?_manifest_foldl (calls : List Call) (db : Database) (name : String) :
    (calls.foldl after db).manifest.get? name =
      match lastAddition name (db.events calls) with
      | some addition => registered addition
      | none => db.manifest.get? name := by
  induction calls generalizing db with
  | nil => rfl
  | cons call rest ih =>
    rw [List.foldl_cons, ih, get?_manifest_after]
    -- the last registration is in the rest of the run, or it is this call
    have hlast : lastAddition name (db.events (call :: rest)) =
        (lastAddition name ((db.after call).events rest)).or (Event.addition? name ⟨call, db.reply call⟩) := by
      unfold lastAddition
      rw [events, List.filterMap_cons]
      cases Event.addition? name ⟨call, db.reply call⟩ with
      | none => simp
      | some addition =>
        cases hrest : ((db.after call).events rest).filterMap (Event.addition? name) with
        | nil => simp
        | cons a as => simp [List.getLast?_cons]
    rw [hlast]
    cases lastAddition name ((db.after call).events rest) <;> rfl

/-- The last table that was registered under a name has this name. -/
theorem name_of_lastAddition {n : String} {events : List Event}
    (h : lastAddition n events = some (t, platforms)) : t.name = n := by
  obtain ⟨e, -, he⟩ := List.mem_filterMap.mp (List.mem_of_getLast? h)
  unfold Event.addition? at he
  split at he
  · split at he
    · rename_i hname
      cases he
      exact hname
    · cases he
  · cases he

/-- Before the engine is made only a column of unknown type stands in the way of a registration. -/
theorem reply_addTable (h : db.isInitialized = false) (t : Table) (platforms : List String) :
    (db.reply (.addTable t platforms) = .ok () ↔ ∃ columns, t.servedColumns platforms = .ok columns) ∧
    ∀ e, db.reply (.addTable t platforms) = .error e → ∃ c ∈ t.columnsFor platforms,
      EngineType.ofWord? c.typeName = none ∧ e = .unknownColumnType c.name c.typeName := by
  have hrealizes := realizes_addTable t platforms
  cases hcolumns : t.servedColumns platforms with
  | ok columns =>
    have hreply : db.reply (.addTable t platforms) = .ok () :=
      ((hrealizes.answers db).1 _ (addTable_of_ok h hcolumns)).1
    rw [hreply]
    simp
  | error e =>
    have hreply : db.reply (.addTable t platforms) = .error e :=
      hrealizes.eq_error_iff.mpr (addTable_of_error h hcolumns)
    rw [hreply]
    constructor
    · simp
    · rintro e' ⟨⟩
      exact exists_of_served_error hcolumns

/-! ## The lock -/

/-- Once the engine is made every registration is turned away, whatever its table is. -/
theorem reply_addTable_of_initialized (h : db.isInitialized = true) (t : Table) (platforms : List String) :
    db.reply (.addTable t platforms) = .error .databaseLocked :=
  (realizes_addTable t platforms).eq_error_iff.mpr (addTable_of_initialized h t platforms)

/-- So is every further start. -/
theorem reply_start_of_initialized (h : db.isInitialized = true) :
    db.reply .start = .error .databaseLocked :=
  realizes_start.eq_error_iff.mpr (start_of_initialized h)

/-- Once the engine is made no call changes anything. -/
theorem after_of_initialized (h : db.isInitialized = true) (call : Call) : db.after call = db := by
  cases call with
  | addTable t platforms => exact after_of_error (reply_addTable_of_initialized h t platforms)
  | start => exact after_of_error (reply_start_of_initialized h)
  | query sql => rfl
  | schema table => rfl
  | tableNames => rfl

/-- Nor do any number of calls. -/
theorem foldl_after_of_initialized (h : db.isInitialized = true) (calls : List Call) :
    calls.foldl after db = db := by
  induction calls with
  | nil => rfl
  | cons call rest ih =>
    rw [List.foldl_cons, after_of_initialized h]
    exact ih

/-- Only a start that succeeds makes the engine. -/
theorem isInitialized_after (h : db.isInitialized = false) (call : Call) :
    (db.after call).isInitialized = true ↔ call = .start ∧ db.reply call = .ok () := by
  cases hreply : db.reply call with
  | error e =>
    rw [after_of_error hreply, h]
    simp
  | ok u =>
    cases call with
    | addTable t platforms =>
      obtain ⟨-, columns, -, hafter⟩ :=
        addTable_eq_ok.mp ((realizes_addTable t platforms).eq_ok_iff.mp hreply)
      have hsame : (db.after (.addTable t platforms)).isInitialized = db.isInitialized := by
        show ((addTableInPlace t platforms).run db).2.isInitialized = _
        rw [hafter]
        rfl
      rw [hsame, h]
      simp
    | start =>
      obtain ⟨-, engine, -, hafter⟩ := start_eq_ok.mp (realizes_start.eq_ok_iff.mp hreply)
      have hinit : (db.after .start).isInitialized = true := by
        show (startInPlace.run db).2.isInitialized = true
        rw [hafter]
        rfl
      simp [hinit]
    | query sql =>
      show db.isInitialized = true ↔ _
      simp [h]
    | schema table =>
      show db.isInitialized = true ↔ _
      simp [h]
    | tableNames =>
      show db.isInitialized = true ↔ _
      simp [h]

/-- The engine is there after a run just when a start has succeeded in it. -/
theorem isInitialized_foldl (calls : List Call) (h : db.isInitialized = false) :
    (calls.foldl after db).isInitialized = true ↔ Started (db.events calls) := by
  induction calls generalizing db with
  | nil => simp [h, Started, events]
  | cons call rest ih =>
    have hstep := isInitialized_after h call
    cases hafter : (db.after call).isInitialized with
    | true =>
      rw [List.foldl_cons, foldl_after_of_initialized hafter, hafter]
      simp only [true_iff]
      exact ⟨_, List.mem_cons_self, hstep.mp hafter⟩
    | false =>
      rw [List.foldl_cons, ih hafter]
      unfold Started
      rw [events]
      constructor
      · rintro ⟨e, he, hstart⟩
        exact ⟨e, List.mem_cons_of_mem _ he, hstart⟩
      · rintro ⟨e, he, hstart⟩
        rcases List.mem_cons.mp he with rfl | he
        · rw [hstep.mpr hstart] at hafter
          cases hafter
        · exact ⟨e, he, hstart⟩

/-! ## The life cycle -/

/-- A database of which nothing has been asked. -/
def new (name : String) : Database := { name := name }

/-- **The life cycle of a database.** After any calls whatever of a new database:

    the manifest holds a name just when the last table that was registered under it had columns, and then these
    columns; they belong to the table of that name and may be empty. Registering fails only for a column of
    unknown type and, like any call that fails, changes nothing. As long as no start has succeeded, and only
    then, queries are turned away. And from the first start that succeeds on nothing is registered or started
    any more, and nothing changes.

    Registering and starting in place come to what `addTable` and `start` give, and to the database as it was where
    they fail. -/
theorem life_cycle (name : String) (calls : List Call) :
    let db := calls.foldl after (new name)
    let past := (new name).events calls
    (∀ n columns, db.manifest.get? n = some columns ↔
      ∃ t platforms, lastAddition n past = some (t, platforms) ∧
        t.servedColumns platforms = .ok columns ∧ columns ≠ []) ∧
    (∀ n columns, db.manifest.get? n = some columns →
      columns ≠ [] ∧ ∀ c ∈ columns, c.source = n ∧ c.nullable = true) ∧
    (∀ call e, db.reply call = .error e → db.after call = db) ∧
    (¬Started past → ∀ t platforms,
      (db.reply (.addTable t platforms) = .ok () ↔ ∃ columns, t.servedColumns platforms = .ok columns) ∧
      ∀ e, db.reply (.addTable t platforms) = .error e → ∃ c ∈ t.columnsFor platforms,
        EngineType.ofWord? c.typeName = none ∧ e = .unknownColumnType c.name c.typeName) ∧
    (∀ sql, db.query sql = .error .databaseNotReady ↔ ¬Started past) ∧
    (Started past → ∀ more : List Call, more.foldl after db = db ∧
      (∀ t platforms, (more.foldl after db).reply (.addTable t platforms) = .error .databaseLocked) ∧
      (more.foldl after db).reply .start = .error .databaseLocked) ∧
    (∀ t platforms,
      (∀ db', db.addTable t platforms = .ok db' →
        db.reply (.addTable t platforms) = .ok () ∧ db.after (.addTable t platforms) = db') ∧
      ∀ e, db.addTable t platforms = .error e →
        db.reply (.addTable t platforms) = .error e ∧ db.after (.addTable t platforms) = db) ∧
    (∀ db', db.start = .ok db' → db.reply .start = .ok () ∧ db.after .start = db') ∧
    (∀ e, db.start = .error e → db.reply .start = .error e ∧ db.after .start = db) := by
  intro db past
  have hmanifest : ∀ n columns, db.manifest.get? n = some columns ↔
      ∃ t platforms, lastAddition n past = some (t, platforms) ∧
        t.servedColumns platforms = .ok columns ∧ columns ≠ [] := by
    intro n columns
    rw [get?_manifest_foldl]
    show (match lastAddition n past with | some addition => registered addition | none => none) = some columns ↔ _
    cases lastAddition n past with
    | none => simp
    | some addition =>
      rw [registered_eq_some]
      constructor
      · exact fun h => ⟨addition.1, addition.2, rfl, h⟩
      · rintro ⟨t, platforms, ⟨⟩, h⟩
        exact h
  have hstarted : db.isInitialized = true ↔ Started past := isInitialized_foldl calls rfl
  refine ⟨hmanifest, ?_, fun call e => after_of_error, ?_, ?_, ?_,
    fun t platforms => (realizes_addTable t platforms).answers db, realizes_start.answers db⟩
  · intro n columns hget
    obtain ⟨t, platforms, hlast, hcolumns, hne⟩ := (hmanifest n columns).mp hget
    obtain rfl : t.name = n := name_of_lastAddition hlast
    exact ⟨hne, served_of_mem hcolumns⟩
  · intro hnot t platforms
    have hinit : db.isInitialized = false := by
      cases hdb : db.isInitialized with
      | true => exact absurd (hstarted.mp hdb) hnot
      | false => rfl
    exact reply_addTable hinit t platforms
  · intro sql
    rw [query_eq_notReady, ← hstarted]
    simp
  · intro hstart more
    have hinit := hstarted.mpr hstart
    rw [foldl_after_of_initialized hinit]
    exact ⟨rfl, reply_addTable_of_initialized hinit, reply_start_of_initialized hinit⟩

/-- A table that is registered, once more with a column of unknown type, and another one that loses its columns
    before the engine is made. -/
def registrations : List Call :=
  [.addTable { name := "a", schema := some { columns := [{ name := "x", typeName := "TEXT" }] } } [],
   .addTable { name := "b", schema := some { columns := [{ name := "y", typeName := "BLOB" }] } } [],
   .addTable { name := "a", schema := some { columns := [{ name := "z", typeName := "WORD" }] } } [],
   .addTable { name := "b" } ["linux"],
   .start]

theorem life_cycle_registrations :
    Started ((new "osquery").events registrations) ∧
      (registrations.foldl after (new "osquery")).tableNames = ["a"] ∧
      (registrations.foldl after (new "osquery")).reply .start = .error .databaseLocked := by
  have hinit : (registrations.foldl after (new "osquery")).isInitialized = true := by decide +kernel
  have hstarted := (isInitialized_foldl registrations rfl).mp hinit
  obtain ⟨-, -, -, -, -, hlocked, -⟩ := life_cycle "osquery" registrations
  exact ⟨hstarted, by decide +kernel, (hlocked hstarted []).2.2⟩

end Database
end TableSpec
