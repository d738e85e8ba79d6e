import SeastarStarter.Bson
import SeastarStarter.Lib.Fut

/-!
# `MongoDBInterface` (INCLUDE/DB/MongoInterface.h)

The driver is a parameter: what a command does to the database `S`, and whether it returns or
throws. `World.issued` records every command issued and how it ended. `co_await db_clients()`
is the shard's client and has no effect; `client[name]` may throw (`Driver.database`: the client
of a shard whose construction failed is not valid).
-/

namespace SeastarStarter

/-- `mongocxx::options::find`, as far as it is set. -/
structure FindOptions where
  allowDiskUse : Option Bool
  batchSize : Option Int32
  limit : Option Int64
  skip : Option Int64
  sort : Option Document
  projection : Option Document

/-- A driver command, with the names it addresses. -/
inductive Command where
  | createCollection (db coll : Bytes) (options : Document)
  | insertOne (db coll : Bytes) (document : Document)
  | listDatabases
  | listCollections (db : Bytes)
  | find (db coll : Bytes) (filter : Document) (opts : FindOptions)
  | rename (db coll newName : Bytes)
  | updateMany (db coll : Bytes) (filter update : Document)
  | updateOne (db coll : Bytes) (filter update : Document)
  | dropDatabase (db : Bytes)
  | dropCollection (db coll : Bytes)
  | deleteMany (db coll : Bytes) (filter : Document)
  | deleteOne (db coll : Bytes) (filter : Document)
  | createIndex (db coll : Bytes) (keys options : Document)
  | listIndexes (db coll : Bytes)
  | dropOne (db coll name : Bytes)

structure Driver (S : Type) where
  /-- `client[name]`. -/
  database : S → Bytes → Except Exn Unit
  /-- A command: the documents it returns, or what it throws, and the database after it. -/
  run : Command → S → Except Exn (List Document) × S

structure World (S : Type) where
  db : S
  /-- The commands issued, in order, and whether each returned. -/
  issued : List (Command × Bool)

namespace MongoDBInterface

variable {S : Type} (drv : Driver S)

def database (name : Bytes) : Fut Exn (World S) Unit := fun w => (drv.database w.db name, w)

def issue (c : Command) : Fut Exn (World S) (List Document) := fun w =>
  ((drv.run c w.db).1, ⟨(drv.run c w.db).2, w.issued ++ [(c, (drv.run c w.db).1.isOk)]⟩)

/-- `createDB` (`:22`). -/
def createDB (dbName : Bytes) : Fut Exn (World S) Unit := do
  database drv dbName
  let _ ← issue drv (.createCollection dbName (text "DummyCollection") [])

/-- `createCollection` (`:32`). -/
def createCollection (dbName collName : Bytes) (options : Document) : Fut Exn (World S) Unit := do
  database drv dbName
  let _ ← issue drv (.createCollection dbName collName options)

/-- `createDocument` (`:42`). -/
def createDocument (dbName collName : Bytes) (document : Document) : Fut Exn (World S) Unit := do
  database drv dbName
  let _ ← issue drv (.insertOne dbName collName document)

/-! ### The loops of the three listings -/

/-- `for (auto&& x : listed) { builder.append(project(x)); }` -/
def appendAll (project : Document → Except Exn Document) (listed : List Document) :
    Except Exn (List Document) := listed.mapM project

/-- `for (auto&& x : listed) { if (name == x["name"]) { builder.append(project(x)); break; } }` -/
def appendFirst (name : Bytes) (project : Document → Except Exn Document) :
    List Document → Except Exn (List Document)
  | [] => return []
  | x :: listed => do
    if name = (← getString (elem x "name")) then return [← project x]
    else appendFirst name project listed

/-- The array when the search found nothing: one document with an `"error"`. -/
def orError (message : String) (found : List Document) : List Document :=
  if found.isEmpty then [errorDoc (text message)] else found

/-- `{ key : [docs] }` -/
def arrayDoc (key : String) (docs : List Document) : Document :=
  [(text key, .array (docs.map .document))]

/-- The array `readDB` builds from a listing (`:59-87`). -/
def databasesArray (dbName : Bytes) (listAll : Bool) (listed : List Document) :
    Except Exn (List Document) :=
  if listAll then appendAll pure listed
  else return orError "Database not found" (← appendFirst dbName pure listed)

/-- `readDB` (`:53`). -/
def readDB (dbName : Bytes) (listAll : Bool) : Fut Exn (World S) (Option Document) := do
  let listed ← issue drv .listDatabases
  let array ← Fut.ofExcept (databasesArray dbName listAll listed)
  return some (arrayDoc "databases" array)

/-- The two fields of a listed collection that are copied (`:111-113`, `:127-129`). -/
def nameAndType (collection : Document) : Except Exn Document := do
  let name ← getValue (elem collection "name")
  let type ← getValue (elem collection "type")
  return [(text "name", name), (text "type", type)]

/-- The array `readCollection` builds from a listing (`:105-143`). -/
def collectionsArray (collectionName : Bytes) (listAll : Bool) (listed : List Document) :
    Except Exn (List Document) :=
  if listAll then appendAll nameAndType listed
  else return orError "Collection not found" (← appendFirst collectionName nameAndType listed)

/-- `readCollection` (`:98`). -/
def readCollection (dbName collectionName : Bytes) (listAll : Bool) :
    Fut Exn (World S) (Option Document) := do
  database drv dbName
  let listed ← issue drv (.listCollections dbName)
  let array ← Fut.ofExcept (collectionsArray collectionName listAll listed)
  return some (arrayDoc "collections" array)

/-- The `options` of `readDocument` (`:160-172`). -/
def findOptions (options : Document) : Except Exn FindOptions := do
  let allowDiskUse ← whenSet (elem options "allow_disk_use") getInt32
  let batchSize ← whenSet (elem options "batch_size") getInt32
  let limit ← whenSet (elem options "limit") getInt32
  let skip ← whenSet (elem options "skip") getInt32
  let sort ← whenSet (elem options "sort") getDocument
  let projection ← whenSet (elem options "projection") getDocument
  return ⟨allowDiskUse.map (· == 1), batchSize, limit.map Int32.toInt64, skip.map Int32.toInt64,
    sort, projection⟩

/-- `readDocument` (`:154`). -/
def readDocument (dbName collectionName : Bytes) (filter options : Document) :
    Fut Exn (World S) (Option Document) := do
  database drv dbName
  let opts ← Fut.ofExcept (findOptions options)
  let docs ← issue drv (.find dbName collectionName filter opts)
  return some (arrayDoc "documents" docs)

/-- `updateCollection` (`:191`). -/
def updateCollection (dbName oldName newName : Bytes) : Fut Exn (World S) Unit := do
  database drv dbName
  let _ ← issue drv (.rename dbName oldName newName)

/-- `updateDocument` (`:202`): an empty update issues nothing. -/
def updateDocument (dbName collectionName : Bytes) (updmany : Bool) (filter update : Document) :
    Fut Exn (World S) Unit := do
  database drv dbName
  if !update.isEmpty then
    if updmany then
      let _ ← issue drv (.updateMany dbName collectionName filter update)
    else
      let _ ← issue drv (.updateOne dbName collectionName filter update)

/-- `deleteDB` (`:230`). -/
def deleteDB (dbName : Bytes) : Fut Exn (World S) Unit := do
  database drv dbName
  let _ ← issue drv (.dropDatabase dbName)

/-- `deleteCollection` (`:239`). -/
def deleteCollection (dbName collectionName : Bytes) : Fut Exn (World S) Unit := do
  database drv dbName
  let _ ← issue drv (.dropCollection dbName collectionName)

/-- `deleteDocument` (`:248`): an empty filter issues nothing. -/
def deleteDocument (dbName collectionName : Bytes) (delmany : Bool) (filter : Document) :
    Fut Exn (World S) Unit := do
  database drv dbName
  if !filter.isEmpty then
    if delmany then
      let _ ← issue drv (.deleteMany dbName collectionName filter)
    else
      let _ ← issue drv (.deleteOne dbName collectionName filter)

/-- `createIndex` (`:270`): empty keys issue nothing. -/
def createIndex (dbName collectionName : Bytes) (keys indexOptions : Document) :
    Fut Exn (World S) Unit := do
  database drv dbName
  if !keys.isEmpty then
    let _ ← issue drv (.createIndex dbName collectionName keys indexOptions)

/-- `LG.info("Index json: {}", to_json(index))` goes before the append, and may throw. -/
def loggedIndex (lib : Bsoncxx) (index : Document) : Except Exn Document := do
  let _ ← lib.toJson index
  return index

/-- The array `readIndex` builds from a listing (`:293-314`). Nothing says that no index has the
name. -/
def indexesArray (lib : Bsoncxx) (indexName : Bytes) (listed : List Document) :
    Except Exn (List Document) :=
  if indexName = text "" then appendAll (loggedIndex lib) listed
  else appendFirst indexName (loggedIndex lib) listed

/-- `readIndex` (`:285`). -/
def readIndex (lib : Bsoncxx) (dbName collectionName indexName : Bytes) :
    Fut Exn (World S) (Option Document) := do
  database drv dbName
  let listed ← issue drv (.listIndexes dbName collectionName)
  let array ← Fut.ofExcept (indexesArray lib indexName listed)
  return some (arrayDoc "indexes" array)

/-- `deleteIndex` (`:325`). -/
def deleteIndex (dbName collectionName indexName : Bytes) : Fut Exn (World S) Unit := do
  database drv dbName
  let _ ← issue drv (.dropOne dbName collectionName indexName)

end MongoDBInterface
end SeastarStarter
