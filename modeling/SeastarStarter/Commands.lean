import SeastarStarter.Plan

/-!
# Which commands a request issues

`askedCommand` states what a request asks for, by lookups in its body; `askedCommand_eq` says
that this is the command of the arm's plan, so `handle` issues that command or none. A request
that is not valid (`InvalidRequest`) asks for nothing.
-/

namespace SeastarStarter

/-! ## The command a body asks for -/

def stringAt (doc : Document) (key : String) : Option Bytes := (elem doc key).bind Value.string?

def documentAt (doc : Document) (key : String) : Option Document :=
  (elem doc key).bind Value.document?

def boolAt (doc : Document) (key : String) : Option Bool := (elem doc key).bind Value.bool?

/-- A field that may be left out: `none` inside when it is, `none` outside when it is there with
another type. -/
def optionalAt {α : Type} (read : Value → Option α) (doc : Document) (key : String) :
    Option (Option α) :=
  match elem doc key with
  | none => some none
  | some v => (read v).map some

/-- A document that is empty when it is left out. -/
def documentOrEmptyAt (doc : Document) (key : String) : Option Document :=
  (optionalAt Value.document? doc key).map (·.getD [])

/-- What `json_data` stands for. -/
def payloadAt (lib : Bsoncxx) (doc : Document) : Option Document :=
  match elem doc "json_data" with
  | some (.document d) => some d
  | some (.array elems) => some [(text "json_data", .array elems)]
  | some (.string s) => (lib.fromJson s).toOption
  | _ => none

def findOptionsAt (options : Document) : Option FindOptions := do
  let allowDiskUse ← optionalAt Value.int32? options "allow_disk_use"
  let batchSize ← optionalAt Value.int32? options "batch_size"
  let limit ← optionalAt Value.int32? options "limit"
  let skip ← optionalAt Value.int32? options "skip"
  let sort ← optionalAt Value.document? options "sort"
  let projection ← optionalAt Value.document? options "projection"
  return ⟨allowDiskUse.map (· == 1), batchSize, limit.map Int32.toInt64, skip.map Int32.toInt64,
    sort, projection⟩

/-- The driver command that an operation on a class asks for with this body. -/
def askedCommand (lib : Bsoncxx) (operation : CrudOperation) (mongoClass : MongoClass)
    (doc : Document) : Option Command :=
  match operation, mongoClass with
  | .CREATE, .db => do
    return .createCollection (← stringAt doc "name") (text "DummyCollection") []
  | .CREATE, .collection => do
    return .createCollection (← stringAt doc "dbname") (← stringAt doc "collectionname")
      (← documentOrEmptyAt doc "collection_options")
  | .CREATE, .document => do
    let payload ← payloadAt lib doc
    return .insertOne (← stringAt doc "dbname") (← stringAt doc "collectionname") payload
  | .CREATE, .index => do
    return .createIndex (← stringAt doc "dbname") (← stringAt doc "collectionname")
      (← documentAt doc "keys") (← documentAt doc "index_options")
  | .READ, .db => do
    let _ ← stringAt doc "name"
    let _ ← boolAt doc "list_all"
    return .listDatabases
  | .READ, .collection => do
    let dbname ← stringAt doc "dbname"
    let _ ← stringAt doc "collectionname"
    let _ ← boolAt doc "list_all"
    return .listCollections dbname
  | .READ, .document => do
    return .find (← stringAt doc "dbname") (← stringAt doc "collectionname")
      (← documentOrEmptyAt doc "filter") (← findOptionsAt (← documentOrEmptyAt doc "options"))
  | .READ, .index => do
    let dbname ← stringAt doc "dbname"
    let collectionname ← stringAt doc "collectionname"
    let _ ← stringAt doc "indexname"
    return .listIndexes dbname collectionname
  | .UPDATE, .collection => do
    return .rename (← stringAt doc "dbname") (← stringAt doc "oldname") (← stringAt doc "newname")
  | .UPDATE, .document => do
    return updateCommand (← stringAt doc "dbname") (← stringAt doc "collectionname")
      (← boolAt doc "updmany") (← documentAt doc "filter") (← documentAt doc "fields_toupd")
  | .DELETE, .db => do
    return .dropDatabase (← stringAt doc "dbname")
  | .DELETE, .collection => do
    return .dropCollection (← stringAt doc "dbname") (← stringAt doc "collectionname")
  | .DELETE, .document => do
    return deleteCommand (← stringAt doc "dbname") (← stringAt doc "collectionname")
      (← boolAt doc "delmany") (← documentAt doc "filter")
  | .DELETE, .index => do
    return .dropOne (← stringAt doc "dbname") (← stringAt doc "collectionname")
      (← stringAt doc "indexname")
  | .UPDATE, .db | .UPDATE, .index => none

/-! ## It is the command of the arm's plan -/

section
variable (doc : Document) (key : String)

@[simp] theorem toOption_getString : (getString (elem doc key)).toOption = stringAt doc key :=
  toOption_typedGetter _

@[simp] theorem toOption_getDocument :
    (getDocument (elem doc key)).toOption = documentAt doc key :=
  toOption_typedGetter _

@[simp] theorem toOption_getBool : (getBool (elem doc key)).toOption = boolAt doc key :=
  toOption_typedGetter _

theorem toOption_whenSet {α : Type} {t : BsonType} {read : Value → Option α} :
    (whenSet (elem doc key) (typedGetter t read)).toOption = optionalAt read doc key := by
  unfold whenSet optionalAt
  cases elem doc key with
  | none => rfl
  | some v => cases hv : read v <;> simp [typedGetter, hv]

@[simp] theorem toOption_optionalDocument :
    (optionalDocument (elem doc key)).toOption = documentOrEmptyAt doc key := by
  unfold optionalDocument documentOrEmptyAt optionalAt
  cases elem doc key with
  | none => rfl
  | some v => cases v <;> rfl

@[simp] theorem toOption_jsonData (lib : Bsoncxx) :
    (jsonData lib doc).toOption = payloadAt lib doc := by
  unfold jsonData payloadAt
  cases elem doc "json_data" with
  | none => rfl
  | some v => cases v <;> rfl

@[simp] theorem toOption_findOptions :
    (MongoDBInterface.findOptions doc).toOption = findOptionsAt doc := by
  simp only [MongoDBInterface.findOptions, findOptionsAt, Except.toOption_bind, getInt32,
    getDocument, toOption_whenSet]
  rfl

end

/-- The command of a plan, where there is one. -/
def commandOf (plan : Except Exn (Except Exn Plan)) : Option Command := do
  let inner ← plan.toOption
  let p ← inner.toOption
  p.command.toOption

theorem commandOf_eq_some {plan : Except Exn (Except Exn Plan)} {c : Command} :
    commandOf plan = some c ↔ ∃ p, plan = .ok (.ok p) ∧ p.command = .ok c := by
  constructor
  · intro h
    obtain ⟨inner, hplan, h⟩ := Option.bind_eq_some_iff.1 h
    obtain ⟨p, hinner, hc⟩ := Option.bind_eq_some_iff.1 h
    rw [Except.toOption_eq_some] at hplan hinner hc
    exact ⟨p, by rw [hplan, hinner], hc⟩
  · rintro ⟨p, rfl, hc⟩
    exact Except.toOption_eq_some.2 hc

theorem askedCommand_eq (lib : Bsoncxx) (operation : CrudOperation) (mongoClass : MongoClass)
    (doc : Document) :
    askedCommand lib operation mongoClass doc = commandOf (armPlan lib operation mongoClass doc) := by
  cases operation <;> cases mongoClass <;>
    simp only [askedCommand, commandOf, armPlan, Plan.write, Plan.answer, findCommand,
      Except.toOption_bind, Except.toOption_pure, Except.toOption_ok, Except.toOption_error,
      toOption_getString, toOption_getDocument, toOption_getBool, toOption_optionalDocument,
      toOption_jsonData, toOption_findOptions, Option.bind_eq_bind, Option.pure_def,
      Option.bind_assoc, Option.bind_some, Option.bind_none]

/-! ## Requests that are not valid -/

/-- The fields an arm reads whatever the body holds, and their types. `json_data` of
create/document, which may have three types, is not among them. -/
def requiredFields : CrudOperation → MongoClass → List (String × BsonType)
  | .CREATE, .db => [("name", .string)]
  | .CREATE, .collection | .CREATE, .document =>
    [("dbname", .string), ("collectionname", .string)]
  | .CREATE, .index =>
    [("dbname", .string), ("collectionname", .string), ("keys", .document),
      ("index_options", .document)]
  | .READ, .db => [("name", .string), ("list_all", .bool)]
  | .READ, .collection =>
    [("dbname", .string), ("collectionname", .string), ("list_all", .bool)]
  | .READ, .document => [("dbname", .string), ("collectionname", .string)]
  | .READ, .index =>
    [("dbname", .string), ("collectionname", .string), ("indexname", .string)]
  | .UPDATE, .db | .UPDATE, .index => []
  | .UPDATE, .collection => [("dbname", .string), ("oldname", .string), ("newname", .string)]
  | .UPDATE, .document =>
    [("dbname", .string), ("collectionname", .string), ("updmany", .bool),
      ("filter", .document), ("fields_toupd", .document)]
  | .DELETE, .db => [("dbname", .string)]
  | .DELETE, .collection => [("dbname", .string), ("collectionname", .string)]
  | .DELETE, .document =>
    [("dbname", .string), ("collectionname", .string), ("delmany", .bool), ("filter", .document)]
  | .DELETE, .index =>
    [("dbname", .string), ("collectionname", .string), ("indexname", .string)]

/-- The fields an arm reads when they are there. -/
def optionalFields : CrudOperation → MongoClass → List (String × BsonType)
  | .CREATE, .collection => [("collection_options", .document)]
  | .READ, .document => [("filter", .document), ("options", .document)]
  | _, _ => []

/-- The keys of `options` that `readDocument` reads when they are there. -/
def findOptionFields : List (String × BsonType) :=
  [("allow_disk_use", .int32), ("batch_size", .int32), ("limit", .int32), ("skip", .int32),
    ("sort", .document), ("projection", .document)]

/-- The field is missing or of another type. -/
def Unusable (doc : Document) (field : String × BsonType) : Prop :=
  ∀ v, elem doc field.1 = some v → v.type ≠ field.2

/-- The field is there, with another type. -/
def Mistyped (doc : Document) (field : String × BsonType) : Prop :=
  ∃ v, elem doc field.1 = some v ∧ v.type ≠ field.2

/-- `json_data` is a document, an array or a string of valid JSON. -/
inductive UsableJsonData (lib : Bsoncxx) (doc : Document) : Prop where
  | document (d : Document) (h : elem doc "json_data" = some (.document d))
  | array (elems : List Value) (h : elem doc "json_data" = some (.array elems))
  | string (s : Bytes) (d : Document) (h : elem doc "json_data" = some (.string s))
      (hs : lib.fromJson s = .ok d)

/-- The string that names an operation. -/
def CrudOperation.name : CrudOperation → Bytes
  | .CREATE => text "create"
  | .READ => text "read"
  | .UPDATE => text "update"
  | .DELETE => text "delete"

/-- The string that names a class. -/
def MongoClass.name : MongoClass → Bytes
  | .db => text "db"
  | .collection => text "collection"
  | .document => text "document"
  | .index => text "index"

theorem getOperationType_eq_ok {s : Bytes} {o : CrudOperation} :
    getOperationType s = .ok o ↔ s = o.name := by
  constructor
  · intro h
    unfold getOperationType at h
    split_ifs at h with h1 h2 h3 h4 <;> cases h <;> assumption
  · rintro rfl
    cases o <;> rfl

theorem getMongoClass_eq_ok {s : Bytes} {c : MongoClass} :
    getMongoClass s = .ok c ↔ s = c.name := by
  constructor
  · intro h
    unfold getMongoClass at h
    split_ifs at h with h1 h2 h3 h4 <;> cases h <;> assumption
  · rintro rfl
    cases c <;> rfl

/-- A request that must not reach the database. -/
inductive InvalidRequest (lib : Bsoncxx) (req : Request) : Prop where
  | method (h : req.method ≠ text "POST")
  | operation (h : ∀ o : CrudOperation, req.getQueryParam "operation" ≠ o.name)
  | mongoClass (h : ∀ c : MongoClass, req.getQueryParam "class" ≠ c.name)
  | updateDb (ho : req.getQueryParam "operation" = CrudOperation.UPDATE.name)
      (hc : req.getQueryParam "class" = MongoClass.db.name)
  | updateIndex (ho : req.getQueryParam "operation" = CrudOperation.UPDATE.name)
      (hc : req.getQueryParam "class" = MongoClass.index.name)
  | body (e : Exn) (h : lib.fromJson req.content = .error e)
  | required (o : CrudOperation) (c : MongoClass) (field : String × BsonType)
      (ho : req.getQueryParam "operation" = o.name) (hc : req.getQueryParam "class" = c.name)
      (hfield : field ∈ requiredFields o c)
      (h : Unusable (parseBody lib req.content) field)
  | optional (o : CrudOperation) (c : MongoClass) (field : String × BsonType)
      (ho : req.getQueryParam "operation" = o.name) (hc : req.getQueryParam "class" = c.name)
      (hfield : field ∈ optionalFields o c)
      (h : Mistyped (parseBody lib req.content) field)
  | jsonData (ho : req.getQueryParam "operation" = CrudOperation.CREATE.name)
      (hc : req.getQueryParam "class" = MongoClass.document.name)
      (h : ¬ UsableJsonData lib (parseBody lib req.content))
  | findOption (options : Document) (field : String × BsonType)
      (ho : req.getQueryParam "operation" = CrudOperation.READ.name)
      (hc : req.getQueryParam "class" = MongoClass.document.name)
      (hoptions : elem (parseBody lib req.content) "options" = some (.document options))
      (hfield : field ∈ findOptionFields)
      (h : Mistyped options field)

section
variable {doc : Document} {key : String}

theorem stringAt_eq_some {s : Bytes} :
    stringAt doc key = some s ↔ elem doc key = some (.string s) := by
  unfold stringAt
  cases elem doc key with
  | none => simp
  | some v => cases v <;> simp [Value.string?]

theorem documentAt_eq_some {d : Document} :
    documentAt doc key = some d ↔ elem doc key = some (.document d) := by
  unfold documentAt
  cases elem doc key with
  | none => simp
  | some v => cases v <;> simp [Value.document?]

theorem boolAt_eq_some {b : Bool} : boolAt doc key = some b ↔ elem doc key = some (.bool b) := by
  unfold boolAt
  cases elem doc key with
  | none => simp
  | some v => cases v <;> simp [Value.bool?]

/-- What a body asks for has every required field, with its type. -/
theorem required_of_asked {lib : Bsoncxx} {o : CrudOperation} {cls : MongoClass} {c : Command}
    (h : askedCommand lib o cls doc = some c) :
    ∀ field ∈ requiredFields o cls, ∃ v, elem doc field.1 = some v ∧ v.type = field.2 := by
  cases o <;> cases cls <;>
    simp only [askedCommand, Option.bind_eq_bind, Option.bind_eq_some_iff, stringAt_eq_some,
      documentAt_eq_some, boolAt_eq_some] at h
  all_goals simp only [requiredFields, List.forall_mem_cons, List.not_mem_nil]
  all_goals grind [Value.type]

theorem optionalAt_not_mistyped {α : Type} {read : Value → Option α} {t : BsonType}
    (hread : ∀ v a, read v = some a → v.type = t) {x : Option α}
    (h : optionalAt read doc key = some x) : ¬ Mistyped doc (key, t) := by
  rintro ⟨v, hv, hne⟩
  have hv : elem doc key = some v := hv
  unfold optionalAt at h
  rw [hv] at h
  obtain ⟨a, ha, -⟩ := Option.map_eq_some_iff.1 h
  exact hne (hread v a ha)

theorem type_of_document? (v : Value) (d : Document) (h : v.document? = some d) :
    v.type = .document := by
  cases v <;> first | rfl | cases h

theorem type_of_int32? (v : Value) (n : Int32) (h : v.int32? = some n) : v.type = .int32 := by
  cases v <;> first | rfl | cases h

theorem documentOrEmptyAt_not_mistyped {d : Document}
    (h : documentOrEmptyAt doc key = some d) : ¬ Mistyped doc (key, .document) := by
  obtain ⟨x, hx, -⟩ := Option.map_eq_some_iff.1 h
  exact optionalAt_not_mistyped type_of_document? hx

/-- What a body asks for has no optional field of another type. -/
theorem optional_of_asked {lib : Bsoncxx} {o : CrudOperation} {cls : MongoClass} {c : Command}
    (h : askedCommand lib o cls doc = some c) :
    ∀ field ∈ optionalFields o cls, ¬ Mistyped doc field := by
  cases o <;> cases cls <;>
    simp only [optionalFields, List.forall_mem_cons, List.not_mem_nil, false_imp_iff,
      implies_true, and_true]
  · simp only [askedCommand, Option.bind_eq_bind, Option.bind_eq_some_iff] at h
    obtain ⟨_, -, _, -, options, hoptions, -⟩ := h
    exact documentOrEmptyAt_not_mistyped hoptions
  · simp only [askedCommand, Option.bind_eq_bind, Option.bind_eq_some_iff] at h
    obtain ⟨_, -, _, -, filter, hfilter, options, hoptions, -⟩ := h
    exact ⟨documentOrEmptyAt_not_mistyped hfilter, documentOrEmptyAt_not_mistyped hoptions⟩

theorem findOptionsAt_not_mistyped {options : Document} {opts : FindOptions}
    (h : findOptionsAt options = some opts) :
    ∀ field ∈ findOptionFields, ¬ Mistyped options field := by
  simp only [findOptionsAt, Option.bind_eq_bind, Option.bind_eq_some_iff] at h
  obtain ⟨_, hallow, _, hbatch, _, hlimit, _, hskip, _, hsort, _, hprojection, -⟩ := h
  simp only [findOptionFields, List.forall_mem_cons, List.not_mem_nil, false_imp_iff,
    implies_true, and_true]
  exact ⟨optionalAt_not_mistyped type_of_int32? hallow,
    optionalAt_not_mistyped type_of_int32? hbatch,
    optionalAt_not_mistyped type_of_int32? hlimit, optionalAt_not_mistyped type_of_int32? hskip,
    optionalAt_not_mistyped type_of_document? hsort,
    optionalAt_not_mistyped type_of_document? hprojection⟩

theorem usable_of_payload {lib : Bsoncxx} {d : Document} (h : payloadAt lib doc = some d) :
    UsableJsonData lib doc := by
  unfold payloadAt at h
  split at h
  · next d' hd => exact .document d' hd
  · next elems ha => exact .array elems ha
  · next s hs => exact .string s d hs (Except.toOption_eq_some.1 h)
  · cases h

end

/-- An empty body asks for nothing. -/
theorem askedCommand_empty (lib : Bsoncxx) (o : CrudOperation) (cls : MongoClass) :
    askedCommand lib o cls [] = none := by
  cases o <;> cases cls <;> rfl

/-- A request that is not valid asks for nothing. -/
theorem InvalidRequest.not_asked {lib : Bsoncxx} {req : Request} (h : InvalidRequest lib req)
    {o : CrudOperation} {cls : MongoClass} (hpost : req.method = text "POST")
    (ho : req.getQueryParam "operation" = o.name) (hcls : req.getQueryParam "class" = cls.name)
    (c : Command) : askedCommand lib o cls (parseBody lib req.content) ≠ some c := by
  intro hc
  have hop : ∀ {o' : CrudOperation}, req.getQueryParam "operation" = o'.name → o = o' := by
    intro o' h'
    exact Except.ok.inj ((getOperationType_eq_ok.2 ho).symm.trans (getOperationType_eq_ok.2 h'))
  have hcl : ∀ {c' : MongoClass}, req.getQueryParam "class" = c'.name → cls = c' := by
    intro c' h'
    exact Except.ok.inj ((getMongoClass_eq_ok.2 hcls).symm.trans (getMongoClass_eq_ok.2 h'))
  cases h with
  | method h => exact h hpost
  | operation h => exact h o ho
  | mongoClass h => exact h cls hcls
  | updateDb ho' hc' =>
    obtain rfl := hop ho'
    obtain rfl := hcl hc'
    cases hc
  | updateIndex ho' hc' =>
    obtain rfl := hop ho'
    obtain rfl := hcl hc'
    cases hc
  | body e h =>
    have hempty : parseBody lib req.content = [] := by
      unfold parseBody
      rw [h]
    rw [hempty, askedCommand_empty] at hc
    cases hc
  | required o' c' field ho' hc' hfield h =>
    obtain rfl := hop ho'
    obtain rfl := hcl hc'
    obtain ⟨v, hv, ht⟩ := required_of_asked hc field hfield
    exact h v hv ht
  | optional o' c' field ho' hc' hfield h =>
    obtain rfl := hop ho'
    obtain rfl := hcl hc'
    exact optional_of_asked hc field hfield h
  | jsonData ho' hc' h =>
    obtain rfl := hop ho'
    obtain rfl := hcl hc'
    obtain ⟨payload, hpayload, -⟩ := Option.bind_eq_some_iff.1 hc
    exact h (usable_of_payload hpayload)
  | findOption options field ho' hc' hoptions hfield h =>
    obtain rfl := hop ho'
    obtain rfl := hcl hc'
    simp only [askedCommand, Option.bind_eq_bind, Option.bind_eq_some_iff] at hc
    obtain ⟨_, -, _, -, _, -, options', hoptions', opts, hopts, -⟩ := hc
    have : options' = options := by
      simpa [documentOrEmptyAt, optionalAt, hoptions, Value.document?] using hoptions'.symm
    subst this
    exact findOptionsAt_not_mistyped hopts field hfield h

/-! ## The commands of a request -/

/-- The plan of a request whose strings are recognised is the arm's. -/
theorem requestPlan_eq {lib : Bsoncxx} {req : Request} {o : CrudOperation} {cls : MongoClass}
    (ho : getOperationType (req.getQueryParam "operation") = .ok o)
    (hcls : getMongoClass (req.getQueryParam "class") = .ok cls) :
    requestPlan lib req = armPlan lib o cls (parseBody lib req.content) := by
  unfold requestPlan
  rw [ho, hcls]
  rfl

/-- What a request with a recognised operation asks for is the command of its plan. -/
theorem asked_iff_plan {lib : Bsoncxx} {req : Request} {o : CrudOperation} {c : Command}
    (ho : req.getQueryParam "operation" = o.name) :
    (∃ cls, req.getQueryParam "class" = MongoClass.name cls ∧
        askedCommand lib o cls (parseBody lib req.content) = some c) ↔
      commandOf (requestPlan lib req) = some c := by
  constructor
  · rintro ⟨cls, hcls, hc⟩
    rwa [requestPlan_eq (getOperationType_eq_ok.2 ho) (getMongoClass_eq_ok.2 hcls),
      ← askedCommand_eq]
  · intro hc
    obtain ⟨p, hplan, -⟩ := commandOf_eq_some.1 hc
    obtain ⟨o', ho', hplan⟩ := Except.bind_eq_ok.1 hplan
    obtain ⟨cls, hcls, -⟩ := Except.bind_eq_ok.1 hplan
    refine ⟨cls, getMongoClass_eq_ok.1 hcls, ?_⟩
    rwa [askedCommand_eq, ← requestPlan_eq (getOperationType_eq_ok.2 ho) hcls]

section
variable {S : Type} (lib : Bsoncxx) (drv : Driver S) (req : Request) (rep : Reply)

/-- A plan issues its command or nothing. -/
theorem Plan.perform_world (p : Plan) (w : World S) :
    ((p.perform drv).run w).2 = w ∨ ∃ c, p.command = .ok c ∧ c.skipped = false ∧
      ((p.perform drv).run w).2 = ((MongoDBInterface.issue drv c).run w).2 := by
  rw [Plan.run_perform]
  cases hc : p.reached drv w.db with
  | error e => exact Or.inl rfl
  | ok c =>
    cases hskip : c.skipped with
    | true => exact Or.inl (by simp [hskip])
    | false =>
      refine Or.inr ⟨c, ?_, hskip, by simp [hskip]⟩
      unfold Plan.reached at hc
      cases hl : p.lookedUp drv w.db with
      | error e => rw [hl] at hc; cases hc
      | ok u => rw [hl] at hc; exact hc

/-- `handle` issues the command that the request asks for, or nothing. -/
theorem handle_world (w : World S) :
    ((handle lib drv req rep).run w).2 = w ∨ ∃ o cls c,
      req.method = text "POST" ∧ req.getQueryParam "operation" = CrudOperation.name o ∧
      req.getQueryParam "class" = MongoClass.name cls ∧
      askedCommand lib o cls (parseBody lib req.content) = some c ∧ c.skipped = false ∧
      ((handle lib drv req rep).run w).2 = ((MongoDBInterface.issue drv c).run w).2 := by
  by_cases hpost : req.method = text "POST"
  · rw [handle_run lib drv hpost, run_runArm]
    cases hplan : requestPlan lib req with
    | error e => exact Or.inl rfl
    | ok inner =>
      cases inner with
      | error e => exact Or.inl rfl
      | ok p =>
        refine (p.perform_world drv w).imp_right ?_
        rintro ⟨c, hc, hskip, hw⟩
        obtain ⟨o, ho, hplan⟩ := Except.bind_eq_ok.1 hplan
        obtain ⟨cls, hcls, hplan⟩ := Except.bind_eq_ok.1 hplan
        refine ⟨o, cls, c, hpost, getOperationType_eq_ok.1 ho, getMongoClass_eq_ok.1 hcls, ?_,
          hskip, hw⟩
        rw [askedCommand_eq]
        exact commandOf_eq_some.2 ⟨p, hplan, hc⟩
  · rw [handle_notPost lib drv hpost]
    exact Or.inl rfl

/-- **A request issues one driver command at most, and an invalid one none: it leaves the
database as it is.** -/
theorem handle_commands (w : World S) :
    (∃ issued, ((handle lib drv req rep).run w).2.issued = w.issued ++ issued ∧
      issued.length ≤ 1) ∧
      (InvalidRequest lib req → ((handle lib drv req rep).run w).2 = w) := by
  rcases handle_world lib drv req rep w with hw | ⟨o, cls, c, hpost, ho, hcls, hc, -, hw⟩
  · exact ⟨⟨[], by rw [hw, List.append_nil], Nat.zero_le 1⟩, fun _ => hw⟩
  · refine ⟨⟨[(c, (drv.run c w.db).1.isOk)], by rw [hw]; rfl, Nat.le_refl 1⟩, fun hinvalid => ?_⟩
    exact absurd hc (hinvalid.not_asked hpost ho hcls c)

end

/-- A request with these two query parameters. -/
def postRequest (operation mongoClass content : Bytes) : Request where
  method := text "POST"
  query := ((∅ : Finmap fun _ : Bytes => Bytes).insert (text "operation") operation).insert
    (text "class") mongoClass
  content := content

def newReply : Reply := ⟨.ok, [], ∅, none⟩

/-- A database server that accepts everything and returns nothing. -/
def willing : Driver Unit := ⟨fun _ _ => .ok (), fun _ _ => (.ok [], ())⟩

theorem handle_commands_unknown :
    (∃ issued, ((handle (.plain [] []) willing (postRequest (text "drop") [] []) newReply).run
        ⟨(), []⟩).2.issued = [] ++ issued ∧ issued.length ≤ 1) ∧
      ((handle (.plain [] []) willing (postRequest (text "drop") [] []) newReply).run
        ⟨(), []⟩).2 = ⟨(), []⟩ :=
  have hunknown : InvalidRequest (.plain [] []) (postRequest (text "drop") [] []) :=
    .operation fun o => by cases o <;> decide
  (handle_commands (.plain [] []) willing (postRequest (text "drop") [] []) newReply ⟨(), []⟩).imp_right
    fun h => h hunknown

end SeastarStarter
