import TableSpec.Database
import TableSpec.Json.Printer
import TableSpec.Json.Reader
import TableSpec.MediaType
import TableSpec.Text.Percent

/-!
# `TableSpec.Service` — a database behind HTTP

Requests ask for the names of the tables, for the columns of a table, or for the answer of a query. No
request changes the database, so a response depends on nothing but the database and the request.

## Contents
- `Request`, `Response`.
- `Service.Route`, `Service.route?`: what the path of a request asks for.
- `Service.respond`: the response to a request.
- `Service.start`: only a database that is ready can be served.
-/

namespace TableSpec

/-- A request. -/
structure Request where
  method : String
  /-- The path, with what may follow it after a question mark. -/
  target : String
  contentType : Option String := none
  body : String := ""
  deriving DecidableEq, Repr, Inhabited

/-- A response; a body is a JSON document. -/
structure Response where
  status : Nat
  body : Option Json := none
  deriving Inhabited

/-- A column as JSON. -/
def ServedColumn.json (c : ServedColumn) : Json :=
  .object [("name", .string c.name), ("source", .string c.source), ("type", .string c.engineType.name),
    ("nullable", .bool c.nullable)]

namespace Service

/-! ## Paths -/

/-- What a path asks for. -/
inductive Route where
  | tables
  /-- The columns of a table, whose name is still as it is written in the path. -/
  | table (segment : String)
  | query
  deriving DecidableEq, Repr, Inhabited

/-- The path of a request target. -/
def path (target : String) : List Char := target.toList.takeWhile (fun c => c ≠ '?' && c ≠ '#')

/-- What a path asks for, if there is anything at it. -/
def route? (path : List Char) : Option Route :=
  if path = "/tables".toList then some .tables
  else if path = "/query".toList then some .query
  else
    let start := "/tables/".toList
    let segment := path.drop start.length
    if start.isPrefixOf path && !segment.isEmpty && !segment.contains '/' then
      some (.table (String.ofList segment))
    else none

/-- Whether a path may be asked with a method. -/
def Route.allows (r : Route) (method : String) : Bool :=
  match r with
  | tables | table _ => method = "GET" || method = "HEAD"
  | query => method = "POST"

/-! ## Responses -/

/-- A response whose body tells an error. -/
def failure (status : Nat) (text : String) : Response := ⟨status, some (.object [("error", .string text)])⟩

/-- The names of the tables. -/
def tables (db : Database) : Response :=
  ⟨200, some (.object [("database", .string db.name), ("tables", .array (db.tableNames.map .string))])⟩

/-- The columns of a table. -/
def table (db : Database) (segment : String) : Response :=
  match Percent.decode? segment with
  | none => ⟨400, none⟩
  | some name =>
    match db.schema? name with
    | some columns =>
      ⟨200, some (.object [("name", .string name), ("columns", .array (columns.map ServedColumn.json))])⟩
    | none => failure 404 ("no such table: " ++ name)

/-- The query in the body of a request: a record with the one field `sql`. -/
def readQuery (body : String) : Except Error String :=
  Json.decode (readRecord [.text "sql" id (fun sql _ => sql)] ["sql"] "") body

/-- Whether a request says that its body is JSON. -/
def hasJson (r : Request) : Bool :=
  ((r.contentType.bind MediaType.ofText?).map MediaType.isJson).getD false

/-- The answer of a query. -/
def query (db : Database) (r : Request) : Response :=
  if !hasJson r then ⟨415, none⟩
  else match readQuery r.body with
    | .error (.json .mistyped) => ⟨422, none⟩
    | .error _ => ⟨400, none⟩
    | .ok sql =>
      match db.query sql with
      | .ok result => ⟨200, some result.json⟩
      | .error e => failure 400 e.display

/-- The response of a route. -/
def answer (db : Database) (r : Request) : Route → Response
  | .tables => tables db
  | .table segment => table db segment
  | .query => query db r

/-- The response to a request. What may be asked from other places is told for every path; to `HEAD` there
    is no body. -/
def respond (db : Database) (r : Request) : Response :=
  if r.method = "OPTIONS" then ⟨200, none⟩
  else match route? (path r.target) with
    | none => ⟨404, none⟩
    | some route =>
      if !route.allows r.method then ⟨405, none⟩
      else
        let response := answer db r route
        if r.method = "HEAD" then { response with body := none } else response

/-- The responses of a database that is ready. -/
def start (db : Database) : Except Error (Request → Response) :=
  if db.isInitialized then .ok (respond db) else .error .databaseNotReady

end Service
end TableSpec
