import Mathlib.Data.Finmap
import SeastarStarter.MongoInterface

/-!
# `crud_handler::handle` (main.cc:55-117, 165-497)

| here | main.cc |
|---|---|
| `getOperationType`, `getMongoClass` | `get_operation_type`, `get_mongo_class` (71-117) |
| `create`, `read`, `update`, `delete` | the four groups of arms (197-475) |
| `guarded` | the `TRY; ... CATCH { ... }` inside an arm |
| `handle` | the prologue, the reply and the outer catch (167-196, 477-497) |

The arguments of a call are read from left to right (C++ leaves the order open; it only decides
which of two errors is reported). The log lines are left out, except where they can throw.
-/

namespace SeastarStarter

/-- `mongo_class` (`:55`). -/
inductive MongoClass where
  | db | collection | document | index
deriving DecidableEq

/-- `crud_operation` (`:63`). -/
inductive CrudOperation where
  | CREATE | READ | UPDATE | DELETE
deriving DecidableEq

/-- `get_operation_type` (`:71`). -/
def getOperationType (operationStr : Bytes) : Except Exn CrudOperation :=
  if operationStr = text "create" then .ok .CREATE
  else if operationStr = text "read" then .ok .READ
  else if operationStr = text "update" then .ok .UPDATE
  else if operationStr = text "delete" then .ok .DELETE
  else .error (.runtimeError (text "Invalid operation type: " ++ operationStr))

/-- `get_mongo_class` (`:95`). -/
def getMongoClass (mongoClassStr : Bytes) : Except Exn MongoClass :=
  if mongoClassStr = text "db" then .ok .db
  else if mongoClassStr = text "collection" then .ok .collection
  else if mongoClassStr = text "document" then .ok .document
  else if mongoClassStr = text "index" then .ok .index
  else .error (.runtimeError (text "Invalid mongo class type: " ++ mongoClassStr))

structure Request where
  method : Bytes
  /-- The url-decoded query parameters. -/
  query : Finmap fun _ : Bytes => Bytes
  content : Bytes

/-- `req->get_query_param(name)`: empty when it is not there. -/
def Request.getQueryParam (req : Request) (name : String) : Bytes :=
  (req.query.lookup (text name)).getD []

inductive Status where
  | ok | badRequest
deriving DecidableEq

structure Reply where
  status : Status
  content : Bytes
  headers : Finmap fun _ : Bytes => Bytes
  /-- The content type `done` was called with. -/
  done : Option Bytes

/-- The reply with a JSON body (`:477-480`, `:491-493`). -/
def Reply.json (rep : Reply) (content : Bytes) : Reply :=
  { rep with
    content := content
    headers := rep.headers.insert (text "Content-Type") (text "application/json")
    done := some (text "json") }

/-- `result_doc` before any arm has run (`:170`). -/
def noResult : Document := errorDoc (text "No result")

/-! ## The arms -/

section
variable {S : Type} (lib : Bsoncxx) (drv : Driver S)

/-- `TRY; arm CATCH { result_doc = make_document(kvp("error", ...)); }` -/
def guarded (arm : Fut Exn (World S) Document) : Fut Exn (World S) Document :=
  tryCatch arm fun e => return errorDoc (lib.format e)

/-- The end of a reading arm: the result goes into `result_doc`, and `to_json` prints it to the
log, which may throw. -/
def readReply (res : Option Document) : Except Exn Document :=
  match res with
  | some res => do
    let _ ← lib.toJson res
    return okData res
  | none => return noResult

/-- `e ? e.get_document().view() : view({})` -/
def optionalDocument (e : Element) : Except Exn Document :=
  if e.isSome then getDocument e else return []

/-- The lambda that computes `json_data` (`:233-252`). -/
def jsonData (doc : Document) : Except Exn Document := do
  if (← getType (elem doc "json_data")) = .document then
    getDocument (elem doc "json_data")
  else if (← getType (elem doc "json_data")) = .array then
    return [(text "json_data", .array (← getArray (elem doc "json_data")))]
  else if (← getType (elem doc "json_data")) = .string then
    lib.fromJson (← getString (elem doc "json_data"))
  else
    throw (.runtimeError (text "Invalid json_data type"))

/-- `crud_operation::CREATE` (`:199-285`). The payload of `document` is computed outside the
arm's own `TRY`. -/
def create (mongoClass : MongoClass) (doc : Document) : Fut Exn (World S) Document :=
  match mongoClass with
  | .db => guarded lib do
    let name ← Fut.ofExcept (getString (elem doc "name"))
    MongoDBInterface.createDB drv name
    return okDoc
  | .collection => guarded lib do
    let dbname ← Fut.ofExcept (getString (elem doc "dbname"))
    let collectionname ← Fut.ofExcept (getString (elem doc "collectionname"))
    let options ← Fut.ofExcept (optionalDocument (elem doc "collection_options"))
    MongoDBInterface.createCollection drv dbname collectionname options
    return okDoc
  | .document => do
    let payload ← Fut.ofExcept (jsonData lib doc)
    guarded lib do
      let dbname ← Fut.ofExcept (getString (elem doc "dbname"))
      let collectionname ← Fut.ofExcept (getString (elem doc "collectionname"))
      MongoDBInterface.createDocument drv dbname collectionname payload
      return okDoc
  | .index => guarded lib do
    let dbname ← Fut.ofExcept (getString (elem doc "dbname"))
    let collectionname ← Fut.ofExcept (getString (elem doc "collectionname"))
    let keys ← Fut.ofExcept (getDocument (elem doc "keys"))
    let indexOptions ← Fut.ofExcept (getDocument (elem doc "index_options"))
    MongoDBInterface.createIndex drv dbname collectionname keys indexOptions
    return okDoc

/-- `crud_operation::READ` (`:286-357`). -/
def read (mongoClass : MongoClass) (doc : Document) : Fut Exn (World S) Document :=
  match mongoClass with
  | .db => guarded lib do
    let name ← Fut.ofExcept (getString (elem doc "name"))
    let listAll ← Fut.ofExcept (getBool (elem doc "list_all"))
    let res ← MongoDBInterface.readDB drv name listAll
    Fut.ofExcept (readReply lib res)
  | .collection => guarded lib do
    let dbname ← Fut.ofExcept (getString (elem doc "dbname"))
    let collectionname ← Fut.ofExcept (getString (elem doc "collectionname"))
    let listAll ← Fut.ofExcept (getBool (elem doc "list_all"))
    let res ← MongoDBInterface.readCollection drv dbname collectionname listAll
    Fut.ofExcept (readReply lib res)
  | .document => guarded lib do
    let dbname ← Fut.ofExcept (getString (elem doc "dbname"))
    let collectionname ← Fut.ofExcept (getString (elem doc "collectionname"))
    let filter ← Fut.ofExcept (optionalDocument (elem doc "filter"))
    let options ← Fut.ofExcept (optionalDocument (elem doc "options"))
    let res ← MongoDBInterface.readDocument drv dbname collectionname filter options
    Fut.ofExcept (readReply lib res)
  | .index => guarded lib do
    let dbname ← Fut.ofExcept (getString (elem doc "dbname"))
    let collectionname ← Fut.ofExcept (getString (elem doc "collectionname"))
    let indexname ← Fut.ofExcept (getString (elem doc "indexname"))
    let res ← MongoDBInterface.readIndex drv lib dbname collectionname indexname
    Fut.ofExcept (readReply lib res)

/-- `crud_operation::UPDATE` (`:358-408`). Two of the arms only throw, to the outer catch. -/
def update (mongoClass : MongoClass) (doc : Document) : Fut Exn (World S) Document :=
  match mongoClass with
  | .db => throw (.runtimeError (text "Cannot update a database"))
  | .collection => guarded lib do
    let dbname ← Fut.ofExcept (getString (elem doc "dbname"))
    let oldname ← Fut.ofExcept (getString (elem doc "oldname"))
    let newname ← Fut.ofExcept (getString (elem doc "newname"))
    MongoDBInterface.updateCollection drv dbname oldname newname
    return okDoc
  | .document => guarded lib do
    let dbname ← Fut.ofExcept (getString (elem doc "dbname"))
    let collectionname ← Fut.ofExcept (getString (elem doc "collectionname"))
    let updmany ← Fut.ofExcept (getBool (elem doc "updmany"))
    let filter ← Fut.ofExcept (getDocument (elem doc "filter"))
    let fieldsToupd ← Fut.ofExcept (getDocument (elem doc "fields_toupd"))
    MongoDBInterface.updateDocument drv dbname collectionname updmany filter fieldsToupd
    return okDoc
  | .index => throw (.runtimeError (text "Cannot update an index"))

/-- `crud_operation::DELETE` (`:409-475`). -/
def delete (mongoClass : MongoClass) (doc : Document) : Fut Exn (World S) Document :=
  match mongoClass with
  | .db => guarded lib do
    let dbname ← Fut.ofExcept (getString (elem doc "dbname"))
    MongoDBInterface.deleteDB drv dbname
    return okDoc
  | .collection => guarded lib do
    let dbname ← Fut.ofExcept (getString (elem doc "dbname"))
    let collectionname ← Fut.ofExcept (getString (elem doc "collectionname"))
    MongoDBInterface.deleteCollection drv dbname collectionname
    return okDoc
  | .document => guarded lib do
    let dbname ← Fut.ofExcept (getString (elem doc "dbname"))
    let collectionname ← Fut.ofExcept (getString (elem doc "collectionname"))
    let delmany ← Fut.ofExcept (getBool (elem doc "delmany"))
    let filter ← Fut.ofExcept (getDocument (elem doc "filter"))
    MongoDBInterface.deleteDocument drv dbname collectionname delmany filter
    return okDoc
  | .index => guarded lib do
    let dbname ← Fut.ofExcept (getString (elem doc "dbname"))
    let collectionname ← Fut.ofExcept (getString (elem doc "collectionname"))
    let indexname ← Fut.ofExcept (getString (elem doc "indexname"))
    MongoDBInterface.deleteIndex drv dbname collectionname indexname
    return okDoc

/-- The two nested `switch`es (`:197-476`). -/
def dispatch (operation : CrudOperation) (mongoClass : MongoClass) (doc : Document) :
    Fut Exn (World S) Document :=
  match operation with
  | .CREATE => create lib drv mongoClass doc
  | .READ => read lib drv mongoClass doc
  | .UPDATE => update lib drv mongoClass doc
  | .DELETE => delete lib drv mongoClass doc

/-- `doc` after `TRY; doc = from_json(content); CATCH` (`:189-195`): text that does not parse
leaves the empty document. -/
def parseBody (content : Bytes) : Document :=
  match lib.fromJson content with
  | .ok doc => doc
  | .error _ => []

/-- `crud_handler::handle` (`:167`). -/
def handle (req : Request) (rep : Reply) : Fut Exn (World S) Reply :=
  tryCatch (do
    if req.method ≠ text "POST" then
      return { rep with status := .badRequest, done := some (text "json") }
    let operation ← Fut.ofExcept (getOperationType (req.getQueryParam "operation"))
    let mongoClass ← Fut.ofExcept (getMongoClass (req.getQueryParam "class"))
    let doc := parseBody lib req.content
    let resultDoc ← dispatch lib drv operation mongoClass doc
    let content ← Fut.ofExcept (lib.toJson resultDoc)
    return rep.json content)
  fun e => do
    let content ← Fut.ofExcept (lib.toJson (errorDoc (lib.format e)))
    return rep.json content

end
end SeastarStarter
