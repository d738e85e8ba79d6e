import SeastarStarter.CrudHandler

/-!
# What a request asks for

Behind its reads, every arm of `crud_handler` is a `Plan`: at most one database looked up, one
command, and one way to turn what it returns into the reply. `armPlan` is an arm's plan, with
two layers of errors (outside and inside of the arm's own `TRY`), and `dispatch_eq_plan` says
that the arms of main.cc run these plans. `handle_run` says what a request does. The results
about replies and commands read these two, and no arm again.
-/

namespace SeastarStarter

/-- The guards of `updateDocument`, `deleteDocument` and `createIndex`: nothing is issued for an
empty update, an empty filter, empty keys. -/
def Command.skipped : Command → Bool
  | .updateMany _ _ _ update | .updateOne _ _ _ update => update.isEmpty
  | .deleteMany _ _ filter | .deleteOne _ _ filter => filter.isEmpty
  | .createIndex _ _ keys _ => keys.isEmpty
  | _ => false

/-- The database a command addresses. -/
def Command.database : Command → Option Bytes
  | .listDatabases => none
  | .createCollection db .. | .insertOne db .. | .listCollections db | .find db .. | .rename db ..
  | .updateMany db .. | .updateOne db .. | .dropDatabase db | .dropCollection db ..
  | .deleteMany db .. | .deleteOne db .. | .createIndex db .. | .listIndexes db ..
  | .dropOne db .. => some db

structure Plan where
  /-- The database looked up first. -/
  database : Option Bytes
  command : Except Exn Command
  /-- The reply, from the documents the command returned. -/
  post : List Document → Except Exn Document

namespace Plan

/-- A writing arm says ok once its call is over. -/
def write (dbname : Bytes) (c : Command) : Plan := ⟨some dbname, .ok c, fun _ => return okDoc⟩

/-- A reading arm answers with an array of documents under `key`. -/
def answer (lib : Bsoncxx) (database : Option Bytes) (c : Except Exn Command) (key : String)
    (array : List Document → Except Exn (List Document)) : Plan :=
  ⟨database, c, fun listed => do
    let docs ← array listed
    readReply lib (some (MongoDBInterface.arrayDoc key docs))⟩

section
variable {S : Type} (drv : Driver S)

def lookup (name : Option Bytes) : Fut Exn (World S) Unit :=
  match name with
  | some name => MongoDBInterface.database drv name
  | none => return

def perform (p : Plan) : Fut Exn (World S) Document := do
  lookup drv p.database
  let c ← Fut.ofExcept p.command
  let docs ← if c.skipped then pure [] else MongoDBInterface.issue drv c
  Fut.ofExcept (p.post docs)

theorem perform_write {dbname : Bytes} {c : Command} (h : c.skipped = false) :
    (write dbname c).perform drv = do
      MongoDBInterface.database drv dbname
      let _ ← MongoDBInterface.issue drv c
      return okDoc := by
  simp only [perform, write, lookup, Fut.ofExcept_ok, Fut.ofExcept_pure, pure_bind, h,
    Bool.false_eq_true, if_false]

theorem perform_write_skipped {dbname : Bytes} {c : Command} (h : c.skipped = true) :
    (write dbname c).perform drv = do
      MongoDBInterface.database drv dbname
      return okDoc := by
  simp only [perform, write, lookup, Fut.ofExcept_ok, Fut.ofExcept_pure, pure_bind, h, if_true]

theorem perform_answer (lib : Bsoncxx) (database : Option Bytes) {c : Command} (key : String)
    (array : List Document → Except Exn (List Document)) (h : c.skipped = false) :
    (answer lib database (.ok c) key array).perform drv = (do
      lookup drv database
      let listed ← MongoDBInterface.issue drv c
      let docs ← Fut.ofExcept (array listed)
      Fut.ofExcept (readReply lib (some (MongoDBInterface.arrayDoc key docs)))) := by
  simp only [perform, answer, Fut.ofExcept_ok, pure_bind, h, Bool.false_eq_true, if_false,
    Fut.ofExcept_bind]

end
end Plan

/-! ## The calls of `MongoDBInterface` are plans -/

section
variable {S : Type} (lib : Bsoncxx) (drv : Driver S)

open MongoDBInterface

theorem createDB_ok (dbname : Bytes) :
    (createDB drv dbname >>= fun _ => pure okDoc) =
      (Plan.write dbname (.createCollection dbname (text "DummyCollection") [])).perform drv := by
  rw [Plan.perform_write drv rfl]
  simp only [createDB, bind_assoc, pure_bind]

theorem createCollection_ok (dbname coll : Bytes) (options : Document) :
    (createCollection drv dbname coll options >>= fun _ => pure okDoc) =
      (Plan.write dbname (.createCollection dbname coll options)).perform drv := by
  rw [Plan.perform_write drv rfl]
  simp only [createCollection, bind_assoc, pure_bind]

theorem createDocument_ok (dbname coll : Bytes) (document : Document) :
    (createDocument drv dbname coll document >>= fun _ => pure okDoc) =
      (Plan.write dbname (.insertOne dbname coll document)).perform drv := by
  rw [Plan.perform_write drv rfl]
  simp only [createDocument, bind_assoc, pure_bind]

theorem createIndex_ok (dbname coll : Bytes) (keys options : Document) :
    (createIndex drv dbname coll keys options >>= fun _ => pure okDoc) =
      (Plan.write dbname (.createIndex dbname coll keys options)).perform drv := by
  cases h : keys.isEmpty
  · rw [Plan.perform_write drv (by exact h)]
    simp [createIndex, h]
  · rw [Plan.perform_write_skipped drv (by exact h)]
    simp [createIndex, h]

theorem updateCollection_ok (dbname oldName newName : Bytes) :
    (updateCollection drv dbname oldName newName >>= fun _ => pure okDoc) =
      (Plan.write dbname (.rename dbname oldName newName)).perform drv := by
  rw [Plan.perform_write drv rfl]
  simp only [updateCollection, bind_assoc, pure_bind]

/-- `update_many` or `update_one`. -/
def updateCommand (dbname coll : Bytes) (updmany : Bool) (filter update : Document) : Command :=
  if updmany then .updateMany dbname coll filter update else .updateOne dbname coll filter update

@[simp] theorem skipped_updateCommand (dbname coll : Bytes) (updmany : Bool)
    (filter update : Document) :
    (updateCommand dbname coll updmany filter update).skipped = update.isEmpty := by
  cases updmany <;> rfl

theorem updateDocument_ok (dbname coll : Bytes) (updmany : Bool) (filter update : Document) :
    (updateDocument drv dbname coll updmany filter update >>= fun _ => pure okDoc) =
      (Plan.write dbname (updateCommand dbname coll updmany filter update)).perform drv := by
  cases h : update.isEmpty
  · rw [Plan.perform_write drv (by simpa using h)]
    cases updmany <;> simp [updateDocument, updateCommand, h]
  · rw [Plan.perform_write_skipped drv (by simpa using h)]
    simp [updateDocument, h]

theorem deleteDB_ok (dbname : Bytes) :
    (deleteDB drv dbname >>= fun _ => pure okDoc) =
      (Plan.write dbname (.dropDatabase dbname)).perform drv := by
  rw [Plan.perform_write drv rfl]
  simp only [deleteDB, bind_assoc, pure_bind]

theorem deleteCollection_ok (dbname coll : Bytes) :
    (deleteCollection drv dbname coll >>= fun _ => pure okDoc) =
      (Plan.write dbname (.dropCollection dbname coll)).perform drv := by
  rw [Plan.perform_write drv rfl]
  simp only [deleteCollection, bind_assoc, pure_bind]

/-- `delete_many` or `delete_one`. -/
def deleteCommand (dbname coll : Bytes) (delmany : Bool) (filter : Document) : Command :=
  if delmany then .deleteMany dbname coll filter else .deleteOne dbname coll filter

@[simp] theorem skipped_deleteCommand (dbname coll : Bytes) (delmany : Bool) (filter : Document) :
    (deleteCommand dbname coll delmany filter).skipped = filter.isEmpty := by
  cases delmany <;> rfl

theorem deleteDocument_ok (dbname coll : Bytes) (delmany : Bool) (filter : Document) :
    (deleteDocument drv dbname coll delmany filter >>= fun _ => pure okDoc) =
      (Plan.write dbname (deleteCommand dbname coll delmany filter)).perform drv := by
  cases h : filter.isEmpty
  · rw [Plan.perform_write drv (by simpa using h)]
    cases delmany <;> simp [deleteDocument, deleteCommand, h]
  · rw [Plan.perform_write_skipped drv (by simpa using h)]
    simp [deleteDocument, h]

theorem deleteIndex_ok (dbname coll name : Bytes) :
    (deleteIndex drv dbname coll name >>= fun _ => pure okDoc) =
      (Plan.write dbname (.dropOne dbname coll name)).perform drv := by
  rw [Plan.perform_write drv rfl]
  simp only [deleteIndex, bind_assoc, pure_bind]

theorem readDB_reply (name : Bytes) (listAll : Bool) :
    (readDB drv name listAll >>= fun res => Fut.ofExcept (readReply lib res)) =
      (Plan.answer lib none (.ok .listDatabases) "databases"
        (databasesArray name listAll)).perform drv := by
  rw [Plan.perform_answer drv lib none _ _ rfl]
  simp only [readDB, Plan.lookup, bind_assoc, pure_bind]

theorem readCollection_reply (dbname coll : Bytes) (listAll : Bool) :
    (readCollection drv dbname coll listAll >>= fun res => Fut.ofExcept (readReply lib res)) =
      (Plan.answer lib (some dbname) (.ok (.listCollections dbname)) "collections"
        (collectionsArray coll listAll)).perform drv := by
  rw [Plan.perform_answer drv lib (some dbname) _ _ rfl]
  simp only [readCollection, Plan.lookup, bind_assoc, pure_bind]

/-- `find`, once the options are decoded. -/
def findCommand (dbname coll : Bytes) (filter options : Document) : Except Exn Command := do
  let opts ← findOptions options
  return .find dbname coll filter opts

theorem readDocument_reply (dbname coll : Bytes) (filter options : Document) :
    (readDocument drv dbname coll filter options >>=
        fun res => Fut.ofExcept (readReply lib res)) =
      (Plan.answer lib (some dbname) (findCommand dbname coll filter options) "documents"
        pure).perform drv := by
  simp only [readDocument, findCommand, Plan.perform, Plan.answer, Plan.lookup, bind_assoc,
    pure_bind, Fut.ofExcept_bind, Fut.ofExcept_pure, Command.skipped, Bool.false_eq_true,
    if_false]

theorem readIndex_reply (dbname coll name : Bytes) :
    (readIndex drv lib dbname coll name >>= fun res => Fut.ofExcept (readReply lib res)) =
      (Plan.answer lib (some dbname) (.ok (.listIndexes dbname coll)) "indexes"
        (indexesArray lib name)).perform drv := by
  rw [Plan.perform_answer drv lib (some dbname) _ _ rfl]
  simp only [readIndex, Plan.lookup, bind_assoc, pure_bind]

end

/-! ## The arms are plans -/

section
variable (lib : Bsoncxx)

/-- The plan of an arm. An error outside goes to the outer catch of `handle`, one inside to the
arm's own. -/
def armPlan (operation : CrudOperation) (mongoClass : MongoClass) (doc : Document) :
    Except Exn (Except Exn Plan) :=
  match operation, mongoClass with
  | .CREATE, .db => return do
    let name ← getString (elem doc "name")
    return .write name (.createCollection name (text "DummyCollection") [])
  | .CREATE, .collection => return do
    let dbname ← getString (elem doc "dbname")
    let collectionname ← getString (elem doc "collectionname")
    let options ← optionalDocument (elem doc "collection_options")
    return .write dbname (.createCollection dbname collectionname options)
  | .CREATE, .document => do
    let payload ← jsonData lib doc
    return do
      let dbname ← getString (elem doc "dbname")
      let collectionname ← getString (elem doc "collectionname")
      return .write dbname (.insertOne dbname collectionname payload)
  | .CREATE, .index => return do
    let dbname ← getString (elem doc "dbname")
    let collectionname ← getString (elem doc "collectionname")
    let keys ← getDocument (elem doc "keys")
    let indexOptions ← getDocument (elem doc "index_options")
    return .write dbname (.createIndex dbname collectionname keys indexOptions)
  | .READ, .db => return do
    let name ← getString (elem doc "name")
    let listAll ← getBool (elem doc "list_all")
    return .answer lib none (.ok .listDatabases) "databases"
      (MongoDBInterface.databasesArray name listAll)
  | .READ, .collection => return do
    let dbname ← getString (elem doc "dbname")
    let collectionname ← getString (elem doc "collectionname")
    let listAll ← getBool (elem doc "list_all")
    return .answer lib (some dbname) (.ok (.listCollections dbname)) "collections"
      (MongoDBInterface.collectionsArray collectionname listAll)
  | .READ, .document => return do
    let dbname ← getString (elem doc "dbname")
    let collectionname ← getString (elem doc "collectionname")
    let filter ← optionalDocument (elem doc "filter")
    let options ← optionalDocument (elem doc "options")
    return .answer lib (some dbname) (findCommand dbname collectionname filter options)
      "documents" pure
  | .READ, .index => return do
    let dbname ← getString (elem doc "dbname")
    let collectionname ← getString (elem doc "collectionname")
    let indexname ← getString (elem doc "indexname")
    return .answer lib (some dbname) (.ok (.listIndexes dbname collectionname)) "indexes"
      (MongoDBInterface.indexesArray lib indexname)
  | .UPDATE, .db => .error (.runtimeError (text "Cannot update a database"))
  | .UPDATE, .collection => return do
    let dbname ← getString (elem doc "dbname")
    let oldname ← getString (elem doc "oldname")
    let newname ← getString (elem doc "newname")
    return .write dbname (.rename dbname oldname newname)
  | .UPDATE, .document => return do
    let dbname ← getString (elem doc "dbname")
    let collectionname ← getString (elem doc "collectionname")
    let updmany ← getBool (elem doc "updmany")
    let filter ← getDocument (elem doc "filter")
    let fieldsToupd ← getDocument (elem doc "fields_toupd")
    return .write dbname (updateCommand dbname collectionname updmany filter fieldsToupd)
  | .UPDATE, .index => .error (.runtimeError (text "Cannot update an index"))
  | .DELETE, .db => return do
    let dbname ← getString (elem doc "dbname")
    return .write dbname (.dropDatabase dbname)
  | .DELETE, .collection => return do
    let dbname ← getString (elem doc "dbname")
    let collectionname ← getString (elem doc "collectionname")
    return .write dbname (.dropCollection dbname collectionname)
  | .DELETE, .document => return do
    let dbname ← getString (elem doc "dbname")
    let collectionname ← getString (elem doc "collectionname")
    let delmany ← getBool (elem doc "delmany")
    let filter ← getDocument (elem doc "filter")
    return .write dbname (deleteCommand dbname collectionname delmany filter)
  | .DELETE, .index => return do
    let dbname ← getString (elem doc "dbname")
    let collectionname ← getString (elem doc "collectionname")
    let indexname ← getString (elem doc "indexname")
    return .write dbname (.dropOne dbname collectionname indexname)

variable {S : Type} (drv : Driver S)

/-- An arm run through its plan. -/
def runArm (plan : Except Exn (Except Exn Plan)) : Fut Exn (World S) Document :=
  Fut.ofExcept plan >>= fun inner => guarded lib (Fut.ofExcept inner >>= Plan.perform drv)

theorem create_eq_plan (mongoClass : MongoClass) (doc : Document) :
    create lib drv mongoClass doc = runArm lib drv (armPlan lib .CREATE mongoClass doc) := by
  cases mongoClass <;>
    simp only [create, armPlan, runArm, Fut.ofExcept_bind, bind_assoc, Fut.ofExcept_pure,
      pure_bind, createDB_ok, createCollection_ok, createDocument_ok, createIndex_ok]

theorem read_eq_plan (mongoClass : MongoClass) (doc : Document) :
    read lib drv mongoClass doc = runArm lib drv (armPlan lib .READ mongoClass doc) := by
  cases mongoClass <;>
    simp only [read, armPlan, runArm, Fut.ofExcept_bind, bind_assoc, Fut.ofExcept_pure,
      pure_bind, readDB_reply, readCollection_reply, readDocument_reply, readIndex_reply]

theorem update_eq_plan (mongoClass : MongoClass) (doc : Document) :
    update lib drv mongoClass doc = runArm lib drv (armPlan lib .UPDATE mongoClass doc) := by
  cases mongoClass with
  | db | index => rfl
  | collection | document =>
    simp only [update, armPlan, runArm, Fut.ofExcept_bind, bind_assoc, Fut.ofExcept_pure,
      pure_bind, updateCollection_ok, updateDocument_ok]

theorem delete_eq_plan (mongoClass : MongoClass) (doc : Document) :
    delete lib drv mongoClass doc = runArm lib drv (armPlan lib .DELETE mongoClass doc) := by
  cases mongoClass <;>
    simp only [delete, armPlan, runArm, Fut.ofExcept_bind, bind_assoc, Fut.ofExcept_pure,
      pure_bind, deleteDB_ok, deleteCollection_ok, deleteDocument_ok, deleteIndex_ok]

/-- **The sixteen arms of `handle` are their plans.** -/
theorem dispatch_eq_plan (operation : CrudOperation) (mongoClass : MongoClass) (doc : Document) :
    dispatch lib drv operation mongoClass doc =
      runArm lib drv (armPlan lib operation mongoClass doc) := by
  cases operation with
  | CREATE => exact create_eq_plan lib drv mongoClass doc
  | READ => exact read_eq_plan lib drv mongoClass doc
  | UPDATE => exact update_eq_plan lib drv mongoClass doc
  | DELETE => exact delete_eq_plan lib drv mongoClass doc

end

/-- A plan of a writing arm is one command, in the database it looks up. -/
theorem armPlan_write {lib : Bsoncxx} {o : CrudOperation} {cls : MongoClass} {doc : Document}
    {p : Plan} (ho : o ≠ .READ) (h : armPlan lib o cls doc = .ok (.ok p)) :
    ∃ dbname c, p = .write dbname c ∧ c.database = some dbname := by
  cases o <;> cases cls <;>
    simp only [armPlan, Except.bind_eq_ok, pure, Except.pure, Except.ok.injEq, reduceCtorEq] at h
  all_goals grind [Command.database, updateCommand, deleteCommand]

theorem armPlan_read {lib : Bsoncxx} {cls : MongoClass} {doc : Document} {p : Plan}
    (h : armPlan lib .READ cls doc = .ok (.ok p)) :
    ∃ database c key array, p = .answer lib database c key array := by
  cases cls <;> simp only [armPlan, Except.bind_eq_ok, pure, Except.pure, Except.ok.injEq] at h
  all_goals grind

/-- What an arm throws outside of its own `TRY`. -/
theorem armPlan_error {lib : Bsoncxx} {o : CrudOperation} {cls : MongoClass} {doc : Document}
    {e : Exn} (h : armPlan lib o cls doc = .error e) :
    e = .runtimeError (text "Cannot update a database") ∨
      e = .runtimeError (text "Cannot update an index") ∨
      (o = .CREATE ∧ cls = .document ∧ jsonData lib doc = .error e) := by
  cases o <;> cases cls <;> simp only [armPlan, pure, Except.pure, reduceCtorEq] at h
  · rcases Except.bind_eq_error.1 h with h | ⟨payload, -, h⟩
    · exact Or.inr (Or.inr ⟨rfl, rfl, h⟩)
    · cases h
  · exact Or.inl (Except.error.inj h).symm
  · exact Or.inr (Or.inl (Except.error.inj h).symm)

/-! ## What a request does -/

section
variable {S : Type} (lib : Bsoncxx) (drv : Driver S)

/-- `client[name]`, for a plan that has a database. -/
def Plan.lookedUp (p : Plan) (s : S) : Except Exn Unit :=
  match p.database with
  | some name => drv.database s name
  | none => .ok ()

/-- The command a plan comes to, where the lookup and the options do not throw before. -/
def Plan.reached (p : Plan) (s : S) : Except Exn Command := do
  p.lookedUp drv s
  p.command

/-- Running a plan: what is reached is issued unless it is skipped, and the reply is made of
what the command returned. -/
theorem Plan.run_perform (p : Plan) (w : World S) :
    (p.perform drv).run w =
      match p.reached drv w.db with
      | .error e => (.error e, w)
      | .ok c =>
        if c.skipped then (p.post [], w)
        else
          (((MongoDBInterface.issue drv c).run w).1 >>= p.post,
            ((MongoDBInterface.issue drv c).run w).2) := by
  have hl : (Plan.lookup drv p.database).run w = (p.lookedUp drv w.db, w) := by
    unfold Plan.lookup Plan.lookedUp
    cases p.database <;> rfl
  unfold Plan.perform Plan.reached
  rw [Fut.run_bind, hl]
  cases p.lookedUp drv w.db with
  | error e => rfl
  | ok u =>
    cases hc : p.command with
    | error e => rfl
    | ok c =>
      simp only [Fut.ofExcept_ok, pure_bind]
      show _ = if c.skipped then _ else _
      cases c.skipped
      · rw [if_neg Bool.false_ne_true, if_neg Bool.false_ne_true, Fut.run_bind]
        rcases (MongoDBInterface.issue drv c).run w with ⟨e | docs, w'⟩ <;> rfl
      · rfl

/-- An exception that the arm's own `CATCH` takes becomes a document. -/
def caught (outcome : Except Exn Document) : Document :=
  match outcome with
  | .ok resultDoc => resultDoc
  | .error e => errorDoc (lib.format e)

theorem run_guarded (arm : Fut Exn (World S) Document) (w : World S) :
    (guarded lib arm).run w = (.ok (caught lib (arm.run w).1), (arm.run w).2) := by
  unfold guarded
  rw [Fut.run_tryCatch]
  rcases arm.run w with ⟨e | d, w'⟩ <;> rfl

theorem run_runArm (plan : Except Exn (Except Exn Plan)) (w : World S) :
    (runArm lib drv plan).run w =
      match plan with
      | .error e => (.error e, w)
      | .ok (.error e) => (.ok (errorDoc (lib.format e)), w)
      | .ok (.ok p) => (.ok (caught lib ((p.perform drv).run w).1), ((p.perform drv).run w).2) := by
  unfold runArm
  cases plan with
  | error e => rfl
  | ok inner =>
    rw [Fut.ofExcept_ok, pure_bind, run_guarded]
    cases inner <;> rfl

/-- The plan of a request: the strings are recognised, the body is parsed, the arm reads it. -/
def requestPlan (req : Request) : Except Exn (Except Exn Plan) := do
  let operation ← getOperationType (req.getQueryParam "operation")
  let mongoClass ← getMongoClass (req.getQueryParam "class")
  armPlan lib operation mongoClass (parseBody lib req.content)

/-- The end of `handle`: the result document, or else what went wrong, is the reply's body. -/
def finish (rep : Reply) (outcome : Except Exn Document) : Except Exn Reply := do
  let content ← tryCatch (outcome >>= lib.toJson) fun e => lib.toJson (errorDoc (lib.format e))
  return rep.json content

/-- The last steps of `handle`, in either branch. -/
def reply (rep : Reply) (content : Except Exn Bytes) : Fut Exn (World S) Reply := do
  let content ← Fut.ofExcept content
  return rep.json content

theorem run_reply (rep : Reply) (content : Except Exn Bytes) (w : World S) :
    (reply rep content).run w = (do let content ← content; return rep.json content, w) := by
  cases content <;> rfl

variable {req : Request} {rep : Reply}

theorem handle_notPost (h : req.method ≠ text "POST") (w : World S) :
    (handle lib drv req rep).run w =
      (.ok { rep with status := .badRequest, done := some (text "json") }, w) := by
  unfold handle
  rw [if_pos h]
  rfl

/-- **A POST request runs its plan and finishes with what came of it.** -/
theorem handle_run (h : req.method = text "POST") (w : World S) :
    (handle lib drv req rep).run w =
      (finish lib rep ((runArm lib drv (requestPlan lib req)).run w).1,
        ((runArm lib drv (requestPlan lib req)).run w).2) := by
  have hplan : (do
      let operation ← Fut.ofExcept (getOperationType (req.getQueryParam "operation"))
      let mongoClass ← Fut.ofExcept (getMongoClass (req.getQueryParam "class"))
      dispatch lib drv operation mongoClass (parseBody lib req.content)) =
        runArm lib drv (requestPlan lib req) := by
    simp only [dispatch_eq_plan, requestPlan, runArm, Fut.ofExcept_bind, bind_assoc]
  have hhandle : handle lib drv req rep = tryCatch
      (runArm lib drv (requestPlan lib req) >>= fun resultDoc => reply rep (lib.toJson resultDoc))
      fun e => reply rep (lib.toJson (errorDoc (lib.format e))) := by
    unfold handle reply
    rw [if_neg (not_not.2 h), ← hplan]
    simp only [bind_assoc]
  rw [hhandle, Fut.run_tryCatch, Fut.run_bind]
  unfold finish
  rcases (runArm lib drv (requestPlan lib req)).run w with ⟨e | d, w'⟩
  · exact run_reply rep _ w'
  · show _ = (tryCatch (lib.toJson d) _ >>= _, w')
    dsimp only
    rw [run_reply]
    cases lib.toJson d with
    | ok content => rfl
    | error e => exact run_reply rep _ w'

end
end SeastarStarter
