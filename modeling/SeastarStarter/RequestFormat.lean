import SeastarStarter.Reads
import SeastarStarter.TwoRequests

/-!
# The format of a request

`Command.form` is a request for a command: the operation, the class, and a body with the fields
that the arm reads. Reading it back gives the command (`askedCommand_form`), for every command
that requests can express at all (`Expressible`): the guards leave out the empty update, filter
and keys, and the options of a find are read with 32-bit getters. `request_format` is the two
directions for `handle`.
-/

namespace SeastarStarter

/-! ## The fields of a body -/

/-- The keys that the arm of an operation and a class looks up. -/
def fieldsRead (operation : CrudOperation) (mongoClass : MongoClass) : List String :=
  (requiredFields operation mongoClass ++ optionalFields operation mongoClass).map Prod.fst ++
    if operation = .CREATE ∧ mongoClass = .document then ["json_data"] else []

/-- Bodies that agree on these keys ask for the same: the order of the fields, other fields, and
a second field of the same name make no difference. -/
theorem armPlan_congr (lib : Bsoncxx) {o : CrudOperation} {cls : MongoClass} {doc doc' : Document}
    (h : ∀ key ∈ fieldsRead o cls, elem doc key = elem doc' key) :
    armPlan lib o cls doc = armPlan lib o cls doc' := by
  cases o <;> cases cls <;>
    simp only [fieldsRead, requiredFields, optionalFields, List.map_cons, List.map_nil, List.cons_append, List.nil_append, List.append_nil, reduceCtorEq, and_self,
      and_false, false_and, if_true, if_false, List.forall_mem_cons] at h
  all_goals simp only [armPlan, jsonData, h]

@[simp] theorem elem_nil (key : String) : elem [] key = none := rfl

theorem elem_cons (k : Bytes) (v : Value) (doc : Document) (key : String) :
    elem ((k, v) :: doc) key = if k = text key then some v else elem doc key := by
  unfold elem
  by_cases h : k = text key <;> simp [h]

theorem elem_append (doc doc' : Document) (key : String) :
    elem (doc ++ doc') key = (elem doc key).or (elem doc' key) := by
  unfold elem
  rw [List.find?_append, Option.map_or]

/-- A field that is left out when there is no value. -/
def fieldWhenSet (key : String) (v : Option Value) : Document :=
  match v with
  | some v => [(text key, v)]
  | none => []

theorem elem_fieldWhenSet (k key : String) (v : Option Value) :
    elem (fieldWhenSet k v) key = if text k = text key then v else none := by
  cases v with
  | none => simp [fieldWhenSet]
  | some v => simp [fieldWhenSet, elem_cons]

/-! ## The options of a find -/

/-- The options document for these options. -/
def FindOptions.form (opts : FindOptions) : Document :=
  fieldWhenSet "allow_disk_use" (opts.allowDiskUse.map fun b => .int32 (if b then 1 else 0)) ++
  (fieldWhenSet "batch_size" (opts.batchSize.map .int32) ++
  (fieldWhenSet "limit" (opts.limit.map fun n => .int32 n.toInt32) ++
  (fieldWhenSet "skip" (opts.skip.map fun n => .int32 n.toInt32) ++
  (fieldWhenSet "sort" (opts.sort.map .document) ++
  fieldWhenSet "projection" (opts.projection.map .document)))))

/-- The number is one that a 32-bit getter can have returned. -/
def FitsInt32 (n : Option Int64) : Prop := ∀ x, n = some x → x.toInt32.toInt64 = x

theorem fitsInt32_map (n : Option Int32) : FitsInt32 (n.map Int32.toInt64) := by
  rintro x hx
  obtain ⟨m, -, rfl⟩ := Option.map_eq_some_iff.1 hx
  rw [Int32.toInt32_toInt64]

theorem FitsInt32.map_toInt32 {n : Option Int64} (h : FitsInt32 n) :
    n.map (fun x => x.toInt32.toInt64) = n := by
  cases n with
  | none => rfl
  | some x => exact congrArg some (h x rfl)

/-- The value of one field of an options document. -/
theorem elem_optionsForm (opts : FindOptions) :
    elem opts.form "allow_disk_use" =
        (opts.allowDiskUse.map fun b => .int32 (if b then 1 else 0)) ∧
      elem opts.form "batch_size" = opts.batchSize.map .int32 ∧
      elem opts.form "limit" = (opts.limit.map fun n => .int32 n.toInt32) ∧
      elem opts.form "skip" = (opts.skip.map fun n => .int32 n.toInt32) ∧
      elem opts.form "sort" = opts.sort.map .document ∧
      elem opts.form "projection" = opts.projection.map .document := by
  refine ⟨?_, ?_, ?_, ?_, ?_, ?_⟩ <;>
    simp +decide [FindOptions.form, elem_append, elem_fieldWhenSet]

/-- A field that was written with the getter's type is read back. -/
theorem optionalAt_map {α β : Type} {read : Value → Option α} {write : β → Value} {value : β → α}
    (hread : ∀ b, read (write b) = some (value b)) {doc : Document} {key : String} {x : Option β}
    (h : elem doc key = x.map write) : optionalAt read doc key = some (x.map value) := by
  unfold optionalAt
  rw [h]
  cases x with
  | none => rfl
  | some b => simp [hread]

/-- **The options round trip.** -/
theorem findOptionsAt_form {opts : FindOptions} (hlimit : FitsInt32 opts.limit)
    (hskip : FitsInt32 opts.skip) : findOptionsAt opts.form = some opts := by
  obtain ⟨hallow, hbatch, hlim, hsk, hsort, hprojection⟩ := elem_optionsForm opts
  have hnumber : ∀ n : Int64, Value.int32? (.int32 n.toInt32) = some n.toInt32 := fun _ => rfl
  have hdocument : ∀ d : Document, Value.document? (.document d) = some (id d) := fun _ => rfl
  have hcond : ∀ b : Bool, Value.int32? (.int32 (if b then 1 else 0)) = some (if b then 1 else 0) :=
    fun _ => rfl
  have hint : ∀ n : Int32, Value.int32? (.int32 n) = some (id n) := fun _ => rfl
  have hflag : ∀ b : Bool, ((if b then 1 else 0 : Int32) == 1) = b := by decide
  unfold findOptionsAt
  rw [optionalAt_map hcond hallow, optionalAt_map hint hbatch, optionalAt_map hnumber hlim,
    optionalAt_map hnumber hsk, optionalAt_map hdocument hsort, optionalAt_map hdocument hprojection]
  simp only [Option.bind_eq_bind, Option.bind_some, Option.map_map, Function.comp_def, hflag,
    Option.map_id, id, Option.map_id', hlimit.map_toInt32, hskip.map_toInt32]
  rfl

/-! ## The request for a command -/

structure RequestForm where
  operation : CrudOperation
  mongoClass : MongoClass
  body : Document

/-- A request for the command. -/
def Command.form : Command → RequestForm
  | .createCollection db coll options =>
    ⟨.CREATE, .collection, [(text "dbname", .string db), (text "collectionname", .string coll),
      (text "collection_options", .document options)]⟩
  | .insertOne db coll document =>
    ⟨.CREATE, .document, [(text "dbname", .string db), (text "collectionname", .string coll),
      (text "json_data", .document document)]⟩
  | .listDatabases =>
    ⟨.READ, .db, [(text "name", .string []), (text "list_all", .bool true)]⟩
  | .listCollections db =>
    ⟨.READ, .collection, [(text "dbname", .string db), (text "collectionname", .string []),
      (text "list_all", .bool true)]⟩
  | .find db coll filter opts =>
    ⟨.READ, .document, [(text "dbname", .string db), (text "collectionname", .string coll),
      (text "filter", .document filter), (text "options", .document opts.form)]⟩
  | .rename db coll newName =>
    ⟨.UPDATE, .collection, [(text "dbname", .string db), (text "oldname", .string coll),
      (text "newname", .string newName)]⟩
  | .updateMany db coll filter update => updateForm db coll true filter update
  | .updateOne db coll filter update => updateForm db coll false filter update
  | .dropDatabase db => ⟨.DELETE, .db, [(text "dbname", .string db)]⟩
  | .dropCollection db coll =>
    ⟨.DELETE, .collection, [(text "dbname", .string db), (text "collectionname", .string coll)]⟩
  | .deleteMany db coll filter => deleteForm db coll true filter
  | .deleteOne db coll filter => deleteForm db coll false filter
  | .createIndex db coll keys options =>
    ⟨.CREATE, .index, [(text "dbname", .string db), (text "collectionname", .string coll),
      (text "keys", .document keys), (text "index_options", .document options)]⟩
  | .listIndexes db coll =>
    ⟨.READ, .index, [(text "dbname", .string db), (text "collectionname", .string coll),
      (text "indexname", .string [])]⟩
  | .dropOne db coll name =>
    ⟨.DELETE, .index, [(text "dbname", .string db), (text "collectionname", .string coll),
      (text "indexname", .string name)]⟩
where
  updateForm (db coll : Bytes) (updmany : Bool) (filter update : Document) : RequestForm :=
    ⟨.UPDATE, .document, [(text "dbname", .string db), (text "collectionname", .string coll),
      (text "updmany", .bool updmany), (text "filter", .document filter),
      (text "fields_toupd", .document update)]⟩
  deleteForm (db coll : Bytes) (delmany : Bool) (filter : Document) : RequestForm :=
    ⟨.DELETE, .document, [(text "dbname", .string db), (text "collectionname", .string coll),
      (text "delmany", .bool delmany), (text "filter", .document filter)]⟩

/-- The commands that requests can express. -/
def Expressible : Command → Prop
  | .find _ _ _ opts => FitsInt32 opts.limit ∧ FitsInt32 opts.skip
  | c => c.skipped = false

theorem Expressible.skipped {c : Command} (h : Expressible c) : c.skipped = false := by
  cases c <;> first | rfl | exact h

/-- **The round trip**: the request for a command asks for it. -/
theorem askedCommand_form (lib : Bsoncxx) {c : Command} (h : Expressible c) :
    askedCommand lib c.form.operation c.form.mongoClass c.form.body = some c := by
  cases c with
  | find db coll filter opts =>
    have hopts := findOptionsAt_form h.1 h.2
    simp +decide [Command.form, askedCommand, stringAt, documentOrEmptyAt, optionalAt, elem_cons,
      Value.string?, Value.document?, hopts]
  | _ =>
    simp +decide [Command.form, Command.form.updateForm, Command.form.deleteForm, askedCommand,
      stringAt, documentAt, boolAt, documentOrEmptyAt, optionalAt, payloadAt, elem_cons,
      Value.string?, Value.document?, Value.bool?, updateCommand, deleteCommand]

/-- What a body asks for, and no guard leaves out, can be expressed. -/
theorem expressible_of_asked {lib : Bsoncxx} {o : CrudOperation} {cls : MongoClass} {doc : Document}
    {c : Command} (h : askedCommand lib o cls doc = some c) (hskip : c.skipped = false) :
    Expressible c := by
  cases c with
  | find db coll filter opts =>
    have harm : o = .READ ∧ cls = .document := by
      cases o <;> cases cls <;>
        simp only [askedCommand, Option.bind_eq_bind, Option.bind_eq_some_iff, updateCommand,
          deleteCommand] at h ⊢
      all_goals grind
    obtain ⟨rfl, rfl⟩ := harm
    simp only [askedCommand, Option.bind_eq_bind, Option.bind_eq_some_iff] at h
    obtain ⟨_, -, _, -, _, -, _, -, opts', hopts, heq⟩ := h
    cases heq
    obtain ⟨-, rfl⟩ := findOptionsAt_eq_some.1 hopts
    exact ⟨fitsInt32_map _, fitsInt32_map _⟩
  | _ => exact hskip

/-- A body that asks for the command, whatever else it holds. -/
theorem asked_of_agrees (lib : Bsoncxx) {c : Command} (h : Expressible c) {doc : Document}
    (hdoc : ∀ key ∈ fieldsRead c.form.operation c.form.mongoClass,
      elem doc key = elem c.form.body key) :
    askedCommand lib c.form.operation c.form.mongoClass doc = some c := by
  rw [askedCommand_eq, armPlan_congr lib hdoc, ← askedCommand_eq]
  exact askedCommand_form lib h

/-- **The request format.** Every expressible command is issued by the request for it, written in
any JSON text whose object has the fields of `Command.form` (in any order, among any others),
where the shard's client is usable; and whatever request comes, what it issues is one expressible
command or nothing. -/
theorem request_format {S : Type} (lib : Bsoncxx) (drv : Driver S) (rep : Reply) :
    (∀ (c : Command) (content : Bytes) (doc : Document) (w : World S), Expressible c →
      lib.fromJson content = .ok doc →
      (∀ key ∈ fieldsRead c.form.operation c.form.mongoClass,
        elem doc key = elem c.form.body key) →
      (∀ name, c.database = some name → drv.database w.db name = .ok ()) →
      ((handle lib drv (postRequest c.form.operation.name c.form.mongoClass.name content) rep).run w).2 =
        ((MongoDBInterface.issue drv c).run w).2) ∧
    ∀ (req : Request) (w : World S), ((handle lib drv req rep).run w).2 = w ∨
      ∃ c, Expressible c ∧
        ((handle lib drv req rep).run w).2 = ((MongoDBInterface.issue drv c).run w).2 := by
  constructor
  · intro c content doc w hc hparse hdoc hdb
    refine handle_issues (postRequest_asks _ _ _) ?_ hc.skipped hdb
    have hbody : parseBody lib content = doc := by
      unfold parseBody
      rw [hparse]
    show askedCommand lib _ _ (parseBody lib content) = some c
    rw [hbody]
    exact asked_of_agrees lib hc hdoc
  · intro req w
    rcases handle_world lib drv req rep w with hw | ⟨o, cls, c, -, -, -, hasked, hskip, hw⟩
    · exact Or.inl hw
    · exact Or.inr ⟨c, expressible_of_asked hasked hskip, hw⟩

/-- A find with a limit. -/
def limitedFind : Command :=
  .find (text "db") (text "coll") [] ⟨none, none, some 7, none, none, none⟩

/-- A body for it, with a field more and the others the other way round. -/
def limitedBody : Document :=
  [(text "comment", .null), (text "options", .document [(text "limit", .int32 7)]),
    (text "filter", .document []), (text "collectionname", .string (text "coll")),
    (text "dbname", .string (text "db"))]

theorem request_format_find :
    ((handle (.plain [] limitedBody) willing (postRequest (text "read") (text "document") [])
      newReply).run ⟨(), []⟩).2 = ((MongoDBInterface.issue willing limitedFind).run ⟨(), []⟩).2 := by
  have hexpressible : Expressible limitedFind := by
    refine ⟨fun x hx => ?_, nofun⟩
    cases hx
    rfl
  refine (request_format _ willing newReply).1 limitedFind [] limitedBody ⟨(), []⟩ hexpressible rfl
    (fun key hkey => ?_) fun _ _ => rfl
  have hkey : key ∈ ["dbname", "collectionname", "filter", "options"] := hkey
  simp only [List.mem_cons, List.not_mem_nil, or_false] at hkey
  rcases hkey with rfl | rfl | rfl | rfl <;> rfl

end SeastarStarter
