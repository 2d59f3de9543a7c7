import TableSpec.Proofs.Database.LifeCycle
import TableSpec.Proofs.Text.Hex
import TableSpec.Service
import TableSpec.Text.Utf8

/-!
# `Proofs.Service.Session` — requests one after another

A service holds one database for all requests, and a query may do to its engine whatever the engine lets it.
So here a request is an action on the database that is held, and the engine is any: it answers a query as it
likes and may be another one afterwards. What a client is told about the tables comes from the manifest, which
no request reaches.

## Contents
- `Percent.escaped`, `route?_segment`, `exists_segment`: every name but the empty one has a path.
- `Runner`, `handle`: a request as an action. `handle_readOnly`: with an engine that no query changes it is `respond`.
- `SameTables`, `sameTables_after`, `sameTables_foldl`: the name and the manifest stay.
- `Registered`, `mem_tableNames_iff`: the names that are listed.
- `answers_registered`: **what is told about the tables is what was registered, whatever is asked before.**
-/

namespace TableSpec

/-! ## Names in paths -/

namespace Percent

/-- A byte behind a percent sign. -/
def escapedByte (b : UInt8) : List Char :=
  ['%', hexDigitChar (b.toNat / 16), hexDigitChar (b.toNat % 16)]

/-- A text with every byte behind a percent sign. -/
def escaped (s : String) : String := String.ofList (s.toUTF8.data.toList.flatMap escapedByte)

/-- Two digits behind a percent sign are read as the byte that they were made from. -/
theorem bytes_escapedByte (b : UInt8) (rest : List Char) : bytes (escapedByte b ++ rest) = b :: bytes rest := by
  have hb : b.toNat < 256 := b.toNat_lt
  have hhigh := hexDigit?_hexDigitChar (b.toNat / 16) (by omega)
  have hlow := hexDigit?_hexDigitChar (b.toNat % 16) (by omega)
  have hbyte : UInt8.ofNat (16 * (b.toNat / 16) + b.toNat % 16) = b := by
    rw [Nat.div_add_mod, UInt8.ofNat_toNat]
  rw [escapedByte, List.cons_append, List.cons_append, List.cons_append, List.nil_append, bytes, hhigh, hlow]
  dsimp only
  rw [hbyte]

/-- Bytes are read back one after the other. -/
theorem bytes_escaped (bs : List UInt8) : bytes (bs.flatMap escapedByte) = bs := by
  induction bs with
  | nil => rfl
  | cons b rest ih => rw [List.flatMap_cons, bytes_escapedByte, ih]

/-- A text whose bytes are escaped stands for itself. -/
theorem decode?_escaped (s : String) : decode? (escaped s) = some s := by
  rw [decode?, escaped, String.toList_ofList, bytes_escaped]
  exact fromUTF8?_toUTF8 s

/-- Nothing in a written name ends a segment of a path. -/
theorem ne_of_mem_escaped {s : String} {c : Char} (h : c ∈ (escaped s).toList) : c ≠ '/' ∧ c ≠ '?' ∧ c ≠ '#' := by
  have hdigit : ∀ n, n < 16 → hexDigitChar n ≠ '/' ∧ hexDigitChar n ≠ '?' ∧ hexDigitChar n ≠ '#' := by
    decide
  rw [escaped, String.toList_ofList] at h
  obtain ⟨b, -, hc⟩ := List.mem_flatMap.mp h
  have hb : b.toNat < 256 := b.toNat_lt
  simp only [escapedByte, List.mem_cons, List.not_mem_nil, or_false] at hc
  rcases hc with rfl | rfl | rfl
  · decide
  · exact hdigit _ (by omega)
  · exact hdigit _ (by omega)

theorem escaped_ne_nil {s : String} (h : s ≠ "") : (escaped s).toList ≠ [] := by
  intro hnil
  have hempty : escaped s = escaped "" := String.toList_inj.mp hnil
  have hread := decode?_escaped s
  rw [hempty, decode?_escaped] at hread
  exact h (Option.some.inj hread).symm

end Percent

namespace Service

variable {db db' : Database} {r : Request} {segment : String} {n : String}

/-- What may stand between slashes is the name of a table in a path. -/
theorem route?_segment (hne : segment.toList ≠ []) (h : ∀ c ∈ segment.toList, c ≠ '/' ∧ c ≠ '?' ∧ c ≠ '#') :
    route? (path ("/tables/" ++ segment)) = some (.table segment) := by
  have hstart : ∀ c ∈ "/tables/".toList, (decide (c ≠ '?') && decide (c ≠ '#')) = true :=
    List.all_eq_true.mp (by decide)
  have hsegment : ∀ c ∈ segment.toList, (decide (c ≠ '?') && decide (c ≠ '#')) = true :=
    fun c hc => by simp [(h c hc).2]
  have hpath : path ("/tables/" ++ segment) = "/tables/".toList ++ segment.toList := by
    rw [path, String.toList_append, List.takeWhile_append_of_pos hstart]
    have hall := @List.takeWhile_append_of_pos _ _ segment.toList [] hsegment
    simpa using hall
  have htables : "/tables/".toList ++ segment.toList ≠ "/tables".toList :=
    fun heq => absurd (congrArg List.length heq) (by simp)
  have hquery : "/tables/".toList ++ segment.toList ≠ "/query".toList :=
    fun heq => absurd (congrArg List.length heq) (by simp)
  have hprefix : "/tables/".toList.isPrefixOf ("/tables/".toList ++ segment.toList) = true :=
    List.isPrefixOf_iff_prefix.mpr (List.prefix_append _ _)
  have hempty : segment.toList.isEmpty = false := List.isEmpty_eq_false_iff.mpr hne
  have hslash : segment.toList.contains '/' = false := by
    rw [List.contains_eq_mem, decide_eq_false_iff_not]
    exact fun hmem => (h '/' hmem).1 rfl
  rw [hpath, route?, if_neg htables, if_neg hquery]
  dsimp only
  rw [List.drop_left, hprefix, hempty, hslash, String.ofList_toList]
  rfl

/-- Every name but the empty one can be asked for. -/
theorem exists_segment (hn : n ≠ "") : ∃ segment,
    route? (path ("/tables/" ++ segment)) = some (.table segment) ∧ Percent.decode? segment = some n :=
  ⟨Percent.escaped n, route?_segment (Percent.escaped_ne_nil hn) (fun _ => Percent.ne_of_mem_escaped),
    Percent.decode?_escaped n⟩

/-! ## Requests as actions -/

/-- What an engine makes of a query: an answer or an error, and the engine that there is afterwards. -/
abbrev Runner := Sql.Engine → String → Except Error Sql.Answer × Sql.Engine

/-- An engine that no query changes. -/
def readOnly : Runner := fun engine sql => (engine.query sql, engine)

/-- Ask the engine of the database that is held. -/
def ask (run : Runner) (sql : String) : StateM Database (Except Error Sql.Answer) := do
  let db ← get
  match db.engine with
  | none => return .error .databaseNotReady
  | some engine =>
    set { db with engine := some (run engine sql).2 }
    return (run engine sql).1

/-- The response with the result of a query. -/
def told : Except Error Sql.Answer → Response
  | .ok result => ⟨200, some result.json⟩
  | .error e => failure 400 e.display

/-- The answer of a query, from the database that is held. -/
def handleQuery (run : Runner) (r : Request) : StateM Database Response :=
  if !hasJson r then return ⟨415, none⟩
  else match readQuery r.body with
    | .error (.json .mistyped) => return ⟨422, none⟩
    | .error _ => return ⟨400, none⟩
    | .ok sql => told <$> ask run sql

/-- The response of a route, from the database that is held. -/
def handleRoute (run : Runner) (r : Request) : Route → StateM Database Response
  | .tables => return tables (← get)
  | .table segment => return table (← get) segment
  | .query => handleQuery run r

/-- A response as it is sent: to `HEAD` there is no body. -/
def sent (r : Request) (response : Response) : Response :=
  if r.method = "HEAD" then { response with body := none } else response

/-- The response to a request, from the database that is held. -/
def handle (run : Runner) (r : Request) : StateM Database Response :=
  if r.method = "OPTIONS" then return ⟨200, none⟩
  else match route? (path r.target) with
    | none => return ⟨404, none⟩
    | some route => if !route.allows r.method then return ⟨405, none⟩ else sent r <$> handleRoute run r route

/-- The response to a request. -/
def reply (run : Runner) (db : Database) (r : Request) : Response := ((handle run r).run db).1

/-- The database after a request. -/
def after (run : Runner) (db : Database) (r : Request) : Database := ((handle run r).run db).2

/-! ## What an engine can reach -/

/-- A query runs in the engine that is there, and what the engine becomes is put back. -/
theorem run_ask (run : Runner) (db : Database) (sql : String) :
    (ask run sql).run db = match db.engine with
      | none => (.error .databaseNotReady, db)
      | some engine => ((run engine sql).1, { db with engine := some (run engine sql).2 }) := by
  unfold ask
  show StateT.run (match db.engine with | none => _ | some _ => _) db = _
  cases db.engine <;> rfl

/-- With an engine that no query changes, a response is that of the service, and the database stays. -/
theorem handle_readOnly (db : Database) (r : Request) : (handle readOnly r).run db = (respond db r, db) := by
  have hask : ∀ sql, (ask readOnly sql).run db = (db.query sql, db) := by
    intro sql
    rw [run_ask, Database.query]
    cases hengine : db.engine with
    | none => rfl
    | some engine =>
      -- the engine that is put back is the one that was there
      show (engine.query sql, { db with engine := some engine }) = (engine.query sql, db)
      rw [← hengine]
  have hquery : (handleQuery readOnly r).run db = (query db r, db) := by
    unfold handleQuery query
    split
    · rfl
    cases readQuery r.body with
    | ok sql =>
      show (told ((ask readOnly sql).run db).1, ((ask readOnly sql).run db).2) = _
      rw [hask]
      dsimp only
      cases db.query sql <;> rfl
    | error e =>
      cases e with
      | json fault => cases fault <;> rfl
      | _ => rfl
  have hroute : ∀ route, (handleRoute readOnly r route).run db = (answer db r route, db) := by
    intro route
    cases route with
    | tables | table => rfl
    | query => exact hquery
  unfold handle respond
  split
  · rfl
  cases route? (path r.target) with
  | none => rfl
  | some route =>
    dsimp only
    split
    · rfl
    · show (sent r ((handleRoute readOnly r route).run db).1, ((handleRoute readOnly r route).run db).2) = _
      rw [hroute]
      rfl

/-- Databases with the same name and the same registered tables. -/
def SameTables (db db' : Database) : Prop := db'.name = db.name ∧ db'.manifest = db.manifest

/-- Whatever the engine does to itself, name and manifest stay. -/
theorem sameTables_ask (run : Runner) (db : Database) (sql : String) : SameTables db ((ask run sql).run db).2 := by
  rw [run_ask]
  cases db.engine <;> exact ⟨rfl, rfl⟩

/-- **One request** changes nothing but the engine. -/
theorem sameTables_after (run : Runner) (db : Database) (r : Request) : SameTables db (after run db r) := by
  have hsame : SameTables db db := ⟨rfl, rfl⟩
  unfold after handle
  split
  · exact hsame
  cases route? (path r.target) with
  | none => exact hsame
  | some route =>
    dsimp only
    split
    · exact hsame
    show SameTables db ((handleRoute run r route).run db).2
    cases route with
    | tables | table => exact hsame
    | query =>
      show SameTables db ((handleQuery run r).run db).2
      unfold handleQuery
      split
      · exact hsame
      split
      · exact hsame
      · exact hsame
      · exact sameTables_ask run db _

/-- So do any requests. -/
theorem sameTables_foldl (run : Runner) (db : Database) (requests : List Request) :
    SameTables db (requests.foldl (after run) db) := by
  induction requests generalizing db with
  | nil => exact ⟨rfl, rfl⟩
  | cons r rest ih =>
    obtain ⟨hname, hmanifest⟩ := sameTables_after run db r
    obtain ⟨hname', hmanifest'⟩ := ih (after run db r)
    exact ⟨hname'.trans hname, hmanifest'.trans hmanifest⟩

/-! ## What is told about the tables -/

/-- The answers that are no query's depend on the name and the registered tables only. -/
theorem run_handleRoute (h : SameTables db db') (run : Runner) {route : Route} (hroute : route ≠ .query) :
    ((handleRoute run r route).run db').1 = answer db r route := by
  cases route with
  | tables =>
    show tables db' = tables db
    rw [tables, tables, Database.tableNames, Database.tableNames, h.1, h.2]
  | table segment =>
    show table db' segment = table db segment
    simp only [table, Database.schema?, h.2]
  | query => contradiction

/-- **What is asked with `GET` is answered as ever**, while the name and the registered tables are the same. -/
theorem reply_of_get (h : SameTables db db') (run : Runner) (hget : r.method = "GET") :
    reply run db' r = respond db r := by
  have hoptions : ¬r.method = "OPTIONS" := by
    rw [hget]
    decide
  rw [reply, handle, respond, if_neg hoptions, if_neg hoptions]
  cases route? (path r.target) with
  | none => rfl
  | some route =>
    dsimp only
    by_cases hallows : (!route.allows r.method) = true
    · rw [if_pos hallows, if_pos hallows]
      rfl
    · -- a query is never asked with `GET`
      have hroute : route ≠ .query := by
        rintro rfl
        exact hallows (by rw [hget]; decide)
      rw [if_neg hallows, if_neg hallows]
      show sent r ((handleRoute run r route).run db').1 = _
      rw [run_handleRoute h run hroute]
      rfl

/-- A request for the tables is answered with their list. -/
theorem respond_tables (hget : r.method = "GET") (hroute : route? (path r.target) = some .tables) :
    respond db r = tables db := by
  simp [respond, hget, hroute, Route.allows, answer]

/-- A request for a table is answered with what there is under its name. -/
theorem respond_table (hget : r.method = "GET") (hroute : route? (path r.target) = some (.table segment)) :
    respond db r = table db segment := by
  simp [respond, hget, hroute, Route.allows, answer]

/-! ## What was registered -/

/-- No call changes the name of a database. -/
theorem name_after (db : Database) (call : Database.Call) : (db.after call).name = db.name := by
  cases call with
  | addTable t platforms =>
    show ((Database.addTableInPlace t platforms).run db).2.name = db.name
    rcases (Database.realizes_addTable t platforms).after db with hok | ⟨-, hsame⟩
    · obtain ⟨-, columns, -, hafter⟩ := Database.addTable_eq_ok.mp hok
      rw [hafter]
      rfl
    · rw [hsame]
  | start =>
    show (Database.startInPlace.run db).2.name = db.name
    rcases Database.realizes_start.after db with hok | ⟨-, hsame⟩
    · obtain ⟨-, engine, -, hafter⟩ := Database.start_eq_ok.mp hok
      rw [hafter]
    · rw [hsame]
  | query sql => rfl
  | schema table => rfl
  | tableNames => rfl

theorem name_foldl_after (calls : List Database.Call) (db : Database) :
    (calls.foldl Database.after db).name = db.name := by
  induction calls generalizing db with
  | nil => rfl
  | cons call rest ih => rw [List.foldl_cons, ih, name_after]

/-- The columns that are registered under a name: those of the last table of that name, if it has any. -/
def Registered (past : List Database.Event) (n : String) (columns : List ServedColumn) : Prop :=
  ∃ t platforms, Database.lastAddition n past = some (t, platforms) ∧
    t.servedColumns platforms = .ok columns ∧ columns ≠ []

/-- Columns are told of a name when its last registration had them. -/
theorem schema?_eq_some_iff {name : String} {calls : List Database.Call} {columns : List ServedColumn} :
    (calls.foldl Database.after (Database.new name)).schema? n = some columns ↔
      Registered ((Database.new name).events calls) n columns := by
  rw [Database.schema?, Database.get?_manifest_foldl, Registered]
  cases Database.lastAddition n ((Database.new name).events calls) with
  | none => simp [Database.new]
  | some addition =>
    simp only [Database.registered_eq_some, Option.some.injEq]
    constructor
    · exact fun h => ⟨addition.1, addition.2, rfl, h⟩
    · rintro ⟨t, platforms, rfl, h⟩
      exact h

/-- The response that tells the columns of a table. -/
def columnsTold (n : String) (columns : List ServedColumn) : Response :=
  ⟨200, some (.object [("name", .string n), ("columns", .array (columns.map ServedColumn.json))])⟩

/-- A table that is registered is told with all its columns. -/
theorem table_of_schema? {columns : List ServedColumn} (hn : Percent.decode? segment = some n)
    (h : db.schema? n = some columns) : table db segment = columnsTold n columns := by
  rw [table, hn]
  dsimp only
  rw [h]
  rfl

/-- A name under which nothing is registered is answered with an error that repeats it. -/
theorem table_of_not_mem (hn : Percent.decode? segment = some n) (h : n ∉ db.tableNames) :
    table db segment = failure 404 ("no such table: " ++ n) := by
  have hnone : db.schema? n = none := by
    rw [Option.eq_none_iff_forall_ne_some]
    exact fun columns hcolumns => h (KeyMap.mem_keys_iff.mpr ⟨columns, hcolumns⟩)
  rw [table, hn]
  dsimp only
  rw [hnone]

/-- **What is told about the tables is what was registered, whatever is asked before.** Let a service be started
    on a database after any calls, and let the engine do anything at all with queries. The names that are listed
    increase; they are those under which the last registration had columns, and each of them but the empty one
    can be asked for. After any requests a request with `GET` is answered as it was from the start: for the
    names with all of them; for the columns of a name with status 200 just when it is listed, and then with all
    columns of its last registration, those with the same name as others included; and otherwise with 404. -/
theorem answers_registered {name : String} {calls : List Database.Call} {serve : Request → Response}
    (hstart : start (calls.foldl Database.after (Database.new name)) = .ok serve) (run : Runner) :
    let db := calls.foldl Database.after (Database.new name)
    let past := (Database.new name).events calls
    db.tableNames.Pairwise (· < ·) ∧
    (∀ n, n ∈ db.tableNames ↔ ∃ columns, Registered past n columns) ∧
    (∀ n ∈ db.tableNames, n ≠ "" → ∃ segment,
      route? (path ("/tables/" ++ segment)) = some (.table segment) ∧ Percent.decode? segment = some n) ∧
    ∀ (before : List Request) (r : Request), r.method = "GET" →
      let response := reply run (before.foldl (after run) db) r
      response = serve r ∧
      (route? (path r.target) = some .tables → response =
        ⟨200, some (.object [("database", .string name), ("tables", .array (db.tableNames.map .string))])⟩) ∧
      ∀ segment n, route? (path r.target) = some (.table segment) → Percent.decode? segment = some n →
        (response.status = 200 ↔ n ∈ db.tableNames) ∧ (response.status = 404 ↔ n ∉ db.tableNames) ∧
        (∀ columns, Registered past n columns → response = columnsTold n columns) ∧
        (n ∉ db.tableNames → response = failure 404 ("no such table: " ++ n)) := by
  intro db past
  have hlisted : ∀ n, n ∈ db.tableNames ↔ ∃ columns, Registered past n columns := by
    intro n
    rw [Database.tableNames, KeyMap.mem_keys_iff]
    exact exists_congr fun columns => schema?_eq_some_iff
  refine ⟨db.manifest.pairwise_keys, hlisted, fun n _ hn => exists_segment hn, fun before r hget => ?_⟩
  intro response
  have hresponse : response = respond db r := reply_of_get (sameTables_foldl run db before) run hget
  have hserve : serve = respond db := by
    rw [start] at hstart
    split at hstart
    · exact (Except.ok.inj hstart).symm
    · cases hstart
  refine ⟨by rw [hresponse, hserve], fun hroute => ?_, fun segment n hroute hn => ?_⟩
  · rw [hresponse, respond_tables hget hroute, tables, show db.name = name from name_foldl_after calls _]
  · rw [hresponse, respond_table hget hroute]
    have hfound : ∀ columns, Registered past n columns → table db segment = columnsTold n columns :=
      fun columns h => table_of_schema? hn (schema?_eq_some_iff.mpr h)
    have hmissing : n ∉ db.tableNames → table db segment = failure 404 ("no such table: " ++ n) :=
      table_of_not_mem hn
    refine ⟨?_, ?_, hfound, hmissing⟩ <;>
    · by_cases hmem : n ∈ db.tableNames
      · obtain ⟨columns, hcolumns⟩ := (hlisted n).mp hmem
        simp [hfound columns hcolumns, columnsTold, hmem]
      · simp [hmissing hmem, failure, hmem]

/-- Tables that are registered before a start: one twice, the second time with two columns of one name, and a
    third time with a column of unknown type; one whose name has a slash; and one that loses its columns. -/
def entered : List Database.Call :=
  [.addTable { name := "b", schema := some { columns := [{ name := "x", typeName := "TEXT" }] } } [],
   .addTable { name := "b", schema := some { columns := [{ name := "y", typeName := "TEXT" },
     { name := "y", typeName := "BIGINT" }] } } [],
   .addTable { name := "b", schema := some { columns := [{ name := "z", typeName := "WORD" }] } } [],
   .addTable { name := "a/é", schema := some { columns := [{ name := "x", typeName := "TEXT" }] } } [],
   .addTable { name := "c", schema := some { columns := [{ name := "x", typeName := "TEXT" }] } } [],
   .addTable { name := "c" } [],
   .start]

/-- An engine that fails at every query and forgets its tables. -/
def forgetful : Runner := fun _ _ => (.error .storage, {})

/-- Requests of which one is for a query, and one for a table that is not there. -/
def asked : List Request :=
  [⟨"POST", "/query", some "application/json", "\x7b\"sql\": \"SELECT * FROM b\"\x7d"⟩, ⟨"GET", "/tables/d", none, ""⟩]

theorem answers_registered_entered :
    let db := entered.foldl Database.after (Database.new "osquery")
    let response := reply forgetful (asked.foldl (after forgetful) db)
    response ⟨"GET", "/tables", none, ""⟩ = ⟨200, some (.object [("database", .string "osquery"),
      ("tables", .array [.string "a/é", .string "b"])])⟩ ∧
    response ⟨"GET", "/tables/b", none, ""⟩ =
      columnsTold "b" [⟨"y", "b", .text, true⟩, ⟨"y", "b", .int64, true⟩] ∧
    (response ⟨"GET", "/tables/a%2F%C3%A9", none, ""⟩).status = 200 ∧
    response ⟨"GET", "/tables/c", none, ""⟩ = failure 404 "no such table: c" := by
  intro db response
  have hready : db.isInitialized = true := by decide +kernel
  have hstart : start db = .ok (respond db) := by rw [start, if_pos hready]
  obtain ⟨-, -, -, hanswers⟩ := answers_registered hstart forgetful
  have hnames : db.tableNames = ["a/é", "b"] := by decide +kernel
  have hfull : Registered ((Database.new "osquery").events entered) "b"
      [⟨"y", "b", .text, true⟩, ⟨"y", "b", .int64, true⟩] := ⟨_, _, rfl, rfl, by simp⟩
  have hlist := (hanswers asked ⟨"GET", "/tables", none, ""⟩ rfl).2.1 (by decide)
  have hfound := (hanswers asked ⟨"GET", "/tables/b", none, ""⟩ rfl).2.2 "b" "b" (by decide) (by decide +kernel)
  have hodd := (hanswers asked ⟨"GET", "/tables/a%2F%C3%A9", none, ""⟩ rfl).2.2 "a%2F%C3%A9" "a/é" (by decide)
    (by decide +kernel)
  have hmissing := (hanswers asked ⟨"GET", "/tables/c", none, ""⟩ rfl).2.2 "c" "c" (by decide) (by decide +kernel)
  refine ⟨hlist.trans (by rw [hnames]; rfl), hfound.2.2.1 _ hfull, hodd.1.mpr ?_, hmissing.2.2.2 ?_⟩
  · rw [hnames]
    simp
  · rw [hnames]
    simp

end Service
end TableSpec
