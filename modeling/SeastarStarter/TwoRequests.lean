import SeastarStarter.Replies

/-!
# Two requests compared

`handle_issues` and `handle_nothing_asked` say what a request does once it is known what its body
asks for. Two laws compare requests through them. Filling in the arguments that a body leaves out
(`filled`) is a law of the declared defaults of MongoInterface.h, and holds of the fields that the
arm tests for (`sameOutcome_iff`). Create, read and delete of one class addressing the same object
is a law of the field names, and fails for databases (`sameObjects_iff`): create and read take
`name`, delete takes `dbname`.
-/

namespace SeastarStarter

/-- A POST request for an operation on a class. -/
structure Request.Asks (req : Request) (o : CrudOperation) (cls : MongoClass) : Prop where
  method : req.method = text "POST"
  operation : req.getQueryParam "operation" = o.name
  mongoClass : req.getQueryParam "class" = cls.name

theorem postRequest_asks (o : CrudOperation) (cls : MongoClass) (content : Bytes) :
    (postRequest o.name cls.name content).Asks o cls := by
  refine ⟨rfl, ?_, ?_⟩
  · have hne : text "operation" ≠ text "class" := by decide
    simp [Request.getQueryParam, postRequest, Finmap.lookup_insert_of_ne, hne]
  · simp [Request.getQueryParam, postRequest]

/-! ## What a request does, from what it asks for -/

section
variable {S : Type} {lib : Bsoncxx} {drv : Driver S} {req : Request} {rep : Reply} {w : World S}
  {o : CrudOperation} {cls : MongoClass} {c : Command}

theorem Request.Asks.handle_run (hreq : req.Asks o cls) :
    (handle lib drv req rep).run w =
      (finish lib rep ((runArm lib drv (armPlan lib o cls (parseBody lib req.content))).run w).1,
        ((runArm lib drv (armPlan lib o cls (parseBody lib req.content))).run w).2) := by
  rw [SeastarStarter.handle_run lib drv hreq.method,
    requestPlan_eq (getOperationType_eq_ok.2 hreq.operation) (getMongoClass_eq_ok.2 hreq.mongoClass)]

/-- An arm looks up the database that its command addresses. -/
theorem armPlan_database {doc : Document} {p : Plan} (hp : armPlan lib o cls doc = .ok (.ok p))
    (hc : p.command = .ok c) : p.database = c.database := by
  by_cases ho : o = .READ
  · subst ho
    cases cls <;>
      simp only [armPlan, Except.bind_eq_ok, pure, Except.pure, Except.ok.injEq] at hp
    · obtain ⟨_, -, _, -, rfl⟩ := hp
      cases hc
      rfl
    · obtain ⟨_, -, _, -, _, -, rfl⟩ := hp
      cases hc
      rfl
    · obtain ⟨_, -, _, -, _, -, _, -, rfl⟩ := hp
      obtain ⟨_, -, hc⟩ := Except.bind_eq_ok.1 hc
      cases hc
      rfl
    · obtain ⟨_, -, _, -, _, -, rfl⟩ := hp
      cases hc
      rfl
  · obtain ⟨dbname, c', rfl, hdb⟩ := armPlan_write ho hp
    cases hc
    exact hdb.symm

/-- What the body asks for is what the request issues, where its database can be looked up. -/
theorem handle_issues (hreq : req.Asks o cls)
    (hc : askedCommand lib o cls (parseBody lib req.content) = some c) (hskip : c.skipped = false)
    (hdb : ∀ name, c.database = some name → drv.database w.db name = .ok ()) :
    ((handle lib drv req rep).run w).2 = ((MongoDBInterface.issue drv c).run w).2 := by
  rw [askedCommand_eq] at hc
  obtain ⟨p, hplan, hcommand⟩ := commandOf_eq_some.1 hc
  have hreached : p.reached drv w.db = .ok c := by
    unfold Plan.reached Plan.lookedUp
    rw [armPlan_database hplan hcommand]
    cases hname : c.database with
    | none => exact hcommand
    | some name =>
      dsimp only
      rw [hdb name hname]
      exact hcommand
  rw [hreq.handle_run, hplan, run_runArm]
  dsimp only
  rw [Plan.run_perform, hreached]
  dsimp only
  rw [if_neg (by simp [hskip])]

/-- A write whose guard leaves its command out is answered "ok". -/
theorem handle_skips (hlib : lib.Prints) (hreq : req.Asks o cls) (ho : o ≠ .READ)
    (hc : askedCommand lib o cls (parseBody lib req.content) = some c) (hskip : c.skipped = true)
    (hdb : ∀ name, c.database = some name → drv.database w.db name = .ok ()) :
    SaysOk lib ((handle lib drv req rep).run w).1 := by
  rw [askedCommand_eq] at hc
  obtain ⟨p, hplan, hcommand⟩ := commandOf_eq_some.1 hc
  obtain ⟨dbname, c', rfl, hdb'⟩ := armPlan_write ho hplan
  cases hcommand
  rw [hreq.handle_run, hplan]
  apply (saysOk_write_iff drv rep hlib hdb' w).2
  unfold Acknowledgeable
  rw [if_pos hskip, run_runArm]
  refine ⟨hdb, ?_⟩
  dsimp only
  rw [Plan.run_perform, write_reached, hdb dbname hdb']
  simp [Except.map, hskip]

/-- A body that asks for nothing changes nothing, and is not answered "ok". -/
theorem handle_nothing_asked (hlib : lib.Prints) (hreq : req.Asks o cls)
    (hnone : askedCommand lib o cls (parseBody lib req.content) = none) :
    ((handle lib drv req rep).run w).2 = w ∧ ¬ SaysOk lib ((handle lib drv req rep).run w).1 := by
  rw [hreq.handle_run, run_runArm]
  rw [askedCommand_eq] at hnone
  cases hplan : armPlan lib o cls (parseBody lib req.content) with
  | error e => exact ⟨rfl, not_saysOk_finish rep hlib nofun⟩
  | ok inner =>
    cases inner with
    | error e =>
      exact ⟨rfl, not_saysOk_finish rep hlib fun d hd => ⟨_, (Except.ok.inj hd).symm⟩⟩
    | ok p =>
      -- the command of the plan is itself an error
      have hreached : ∃ e, p.reached drv w.db = .error e := by
        cases hr : p.reached drv w.db with
        | error e => exact ⟨e, rfl⟩
        | ok c =>
          obtain ⟨u, -, hcommand⟩ := Except.bind_eq_ok.1 hr
          rw [hplan, commandOf_eq_some.2 ⟨p, rfl, hcommand⟩] at hnone
          cases hnone
      obtain ⟨e, he⟩ := hreached
      dsimp only
      rw [Plan.run_perform, he]
      exact ⟨rfl, not_saysOk_finish rep hlib fun d hd => ⟨_, (Except.ok.inj hd).symm⟩⟩

/-- Only what the body asks for is issued. -/
theorem asked_of_issued (hreq : req.Asks o cls) {returned : Bool}
    (h : ((handle lib drv req rep).run w).2.issued = w.issued ++ [(c, returned)]) :
    askedCommand lib o cls (parseBody lib req.content) = some c := by
  rcases handle_world lib drv req rep w with hw | ⟨o', cls', c', -, ho, hcls, hc, -, hw⟩
  · rw [hw] at h
    simp at h
  · obtain rfl : o = o' := Except.ok.inj
      ((getOperationType_eq_ok.2 hreq.operation).symm.trans (getOperationType_eq_ok.2 ho))
    obtain rfl : cls = cls' := Except.ok.inj
      ((getMongoClass_eq_ok.2 hreq.mongoClass).symm.trans (getMongoClass_eq_ok.2 hcls))
    rw [hw] at h
    have hlast := (List.cons.inj (List.append_cancel_left h)).1
    obtain rfl := (Prod.mk.inj hlast).1
    exact hc

end

/-! ## Create, read and delete of one class -/

/-- The collection a command addresses. -/
def Command.collection : Command → Option Bytes
  | .listDatabases | .listCollections _ | .dropDatabase _ => none
  | .createCollection _ coll _ | .insertOne _ coll _ | .find _ coll .. | .rename _ coll _
  | .updateMany _ coll .. | .updateOne _ coll .. | .dropCollection _ coll
  | .deleteMany _ coll _ | .deleteOne _ coll _ | .createIndex _ coll .. | .listIndexes _ coll
  | .dropOne _ coll _ => some coll

/-- Where two commands both name a database it is the same one, and likewise for the collection,
unless the class is that of the databases themselves. -/
structure SameObject (cls : MongoClass) (c c' : Command) : Prop where
  database : ∀ d d', c.database = some d → c'.database = some d' → d = d'
  collection : cls ≠ .db → ∀ k k', c.collection = some k → c'.collection = some k' → k = k'

/-- The operations other than update, on one body. -/
structure SameObjects (lib : Bsoncxx) (content : Bytes) : Prop where
  agree : ∀ (cls : MongoClass) (o o' : CrudOperation), o ≠ .UPDATE → o' ≠ .UPDATE →
    ∀ (req req' : Request), req.Asks o cls → req'.Asks o' cls →
      req.content = content → req'.content = content →
    ∀ (S : Type) (drv : Driver S) (w w' : World S) (rep : Reply) (c c' : Command) (r r' : Bool),
      ((handle lib drv req rep).run w).2.issued = w.issued ++ [(c, r)] →
      ((handle lib drv req' rep).run w').2.issued = w'.issued ++ [(c', r')] →
      SameObject cls c c'
  dropped : ∀ (req req' : Request), req.Asks .CREATE .db → req'.Asks .DELETE .db →
      req.content = content → req'.content = content →
    ∀ (S : Type) (drv : Driver S) (w w' : World S) (rep : Reply) (d : Bytes) (r : Bool),
      ((handle lib drv req rep).run w).2.issued =
        w.issued ++ [(.createCollection d (text "DummyCollection") [], r)] →
      drv.database w'.db d = .ok () →
      ∃ r', ((handle lib drv req' rep).run w').2.issued = w'.issued ++ [(.dropDatabase d, r')]

/-- Outside of the databases the names are the body's `dbname` and `collectionname`. -/
theorem asked_names {lib : Bsoncxx} {o : CrudOperation} {cls : MongoClass} {doc : Document}
    {c : Command} (ho : o ≠ .UPDATE) (hcls : cls ≠ .db) (h : askedCommand lib o cls doc = some c) :
    c.database = stringAt doc "dbname" ∧
      ∀ k, c.collection = some k → stringAt doc "collectionname" = some k := by
  cases o <;> cases cls <;>
    simp only [askedCommand, Option.bind_eq_bind, Option.bind_eq_some_iff, Option.pure_def,
      Option.some.injEq, ne_eq, not_true_eq_false, reduceCtorEq] at h ho hcls
  all_goals grind [Command.database, Command.collection, deleteCommand]

/-- Databases have two names: create takes `name` and delete takes `dbname`; read lists all. -/
theorem asked_database {lib : Bsoncxx} {o : CrudOperation} {doc : Document} {c : Command}
    {d : Bytes} (ho : o ≠ .UPDATE) (h : askedCommand lib o .db doc = some c)
    (hd : c.database = some d) :
    (o = .CREATE ∧ stringAt doc "name" = some d) ∨ (o = .DELETE ∧ stringAt doc "dbname" = some d) := by
  cases o with
  | CREATE =>
    obtain ⟨name, hname, hc⟩ := Option.bind_eq_some_iff.1 h
    cases hc
    cases hd
    exact Or.inl ⟨rfl, hname⟩
  | READ =>
    obtain ⟨name, -, hc⟩ := Option.bind_eq_some_iff.1 h
    obtain ⟨listAll, -, hc⟩ := Option.bind_eq_some_iff.1 hc
    cases hc
    cases hd
  | UPDATE => exact absurd rfl ho
  | DELETE =>
    obtain ⟨dbname, hdbname, hc⟩ := Option.bind_eq_some_iff.1 h
    cases hc
    cases hd
    exact Or.inr ⟨rfl, hdbname⟩

theorem asked_createDB {lib : Bsoncxx} {doc : Document} {d : Bytes} :
    askedCommand lib .CREATE .db doc = some (.createCollection d (text "DummyCollection") []) ↔
      stringAt doc "name" = some d := by
  simp [askedCommand, Option.bind_eq_some_iff]

theorem asked_deleteDB {lib : Bsoncxx} {doc : Document} {d : Bytes} :
    askedCommand lib .DELETE .db doc = some (.dropDatabase d) ↔ stringAt doc "dbname" = some d := by
  simp [askedCommand, Option.bind_eq_some_iff]

/-- What create makes, delete takes under its own name for it. -/
theorem SameObjects.dbname {lib : Bsoncxx} {content d : Bytes} (h : SameObjects lib content)
    (hname : stringAt (parseBody lib content) "name" = some d) :
    stringAt (parseBody lib content) "dbname" = some d := by
  have hcreate := postRequest_asks .CREATE .db content
  have hdelete := postRequest_asks .DELETE .db content
  have hworld : ((handle lib willing (postRequest (text "create") (text "db") content)
      newReply).run ⟨(), []⟩).2 = _ :=
    handle_issues hcreate (asked_createDB.2 hname) rfl fun _ _ => rfl
  obtain ⟨r', hdropped⟩ := h.dropped _ _ hcreate hdelete rfl rfl Unit willing ⟨(), []⟩ ⟨(), []⟩
    newReply d true (congrArg World.issued hworld) rfl
  exact asked_deleteDB.1 (asked_of_issued hdelete hdropped)

/-- **When create, read and delete address the same object.** On every body whose `name`, if it
is a string, is its `dbname` too; and on no other. -/
theorem sameObjects_iff (lib : Bsoncxx) (content : Bytes) :
    SameObjects lib content ↔
      ∀ d, stringAt (parseBody lib content) "name" = some d →
        stringAt (parseBody lib content) "dbname" = some d := by
  constructor
  · intro h d hname
    exact h.dbname hname
  · intro h
    refine ⟨?_, ?_⟩
    · intro cls o o' ho ho' req req' hreq hreq' hcontent hcontent' S drv w w' rep c c' r r' hc hc'
      have hasked := asked_of_issued hreq hc
      have hasked' := asked_of_issued hreq' hc'
      rw [hcontent] at hasked
      rw [hcontent'] at hasked'
      by_cases hcls : cls = .db
      · subst hcls
        refine ⟨fun d d' hd hd' => ?_, fun hne => absurd rfl hne⟩
        rcases asked_database ho hasked hd with ⟨-, hname⟩ | ⟨-, hname⟩ <;>
          rcases asked_database ho' hasked' hd' with ⟨-, hname'⟩ | ⟨-, hname'⟩
        · exact Option.some.inj (hname.symm.trans hname')
        · exact Option.some.inj ((h d hname).symm.trans hname')
        · exact Option.some.inj (hname.symm.trans (h d' hname'))
        · exact Option.some.inj (hname.symm.trans hname')
      · obtain ⟨hdb, hcoll⟩ := asked_names ho hcls hasked
        obtain ⟨hdb', hcoll'⟩ := asked_names ho' hcls hasked'
        refine ⟨fun d d' hd hd' => ?_, fun _ k k' hk hk' => ?_⟩
        · exact Option.some.inj (hd.symm.trans (hdb.trans (hdb'.symm.trans hd')))
        · exact Option.some.inj ((hcoll k hk).symm.trans (hcoll' k' hk'))
    · intro req req' hreq hreq' hcontent hcontent' S drv w w' rep d r hissued hdb
      have hasked := asked_of_issued hreq hissued
      rw [hcontent] at hasked
      have hdelete : askedCommand lib .DELETE .db (parseBody lib content) = some (.dropDatabase d) :=
        asked_deleteDB.2 (h d (asked_createDB.1 hasked))
      rw [← hcontent'] at hdelete
      refine ⟨(drv.run (.dropDatabase d) w'.db).1.isOk, ?_⟩
      rw [handle_issues hreq' hdelete rfl fun name hname => by cases hname; exact hdb]
      rfl

/-- The body `{"name":"a"}`: create makes database `a`, and delete rejects the body. -/
theorem not_always_sameObjects : ¬ ∀ lib content, SameObjects lib content := by
  intro h
  have hdbname := (h (.plain (text "\x7b\"name\":\"a\"\x7d")
    [(text "name", .string (text "a"))]) (text "\x7b\"name\":\"a\"\x7d")).dbname rfl
  cases hdbname

/-! ## Arguments that are left out -/

/-- The fields of the arguments that MongoInterface.h declares with a default, and the defaults
(`:32`, `:154`, `:202`, `:248`, `:270`, `:285`). -/
def defaults : CrudOperation → MongoClass → List (String × Value)
  | .CREATE, .collection => [("collection_options", .document [])]
  | .CREATE, .index => [("index_options", .document [])]
  | .READ, .document => [("filter", .document []), ("options", .document [])]
  | .READ, .index => [("indexname", .string (text ""))]
  | .UPDATE, .document =>
    [("updmany", .bool false), ("filter", .document []), ("fields_toupd", .document [])]
  | .DELETE, .document => [("delmany", .bool false), ("filter", .document [])]
  | _, _ => []

/-- The body with a field added, if it is not there. -/
def fillField (doc : Document) (field : String × Value) : Document :=
  if (elem doc field.1).isSome then doc else doc ++ [(text field.1, field.2)]

/-- The body with each omitted field filled in with its default. -/
def filled (o : CrudOperation) (cls : MongoClass) (doc : Document) : Document :=
  (defaults o cls).foldl fillField doc

/-- The two requests issue the same commands and get the same kind of reply, whatever the server
and its state. -/
def SameOutcome (lib : Bsoncxx) (req req' : Request) : Prop :=
  ∀ (S : Type) (drv : Driver S) (w : World S) (rep : Reply),
    ((handle lib drv req rep).run w).2.issued = ((handle lib drv req' rep).run w).2.issued ∧
      (SaysOk lib ((handle lib drv req rep).run w).1 ↔
        SaysOk lib ((handle lib drv req' rep).run w).1)

theorem elem_append_single (doc : Document) (key key' : String) (v : Value) :
    elem (doc ++ [(text key', v)]) key =
      (elem doc key).or (if text key' = text key then some v else none) := by
  unfold elem
  rw [List.find?_append]
  cases doc.find? fun f => f.1 = text key with
  | some f => rfl
  | none =>
    by_cases hkey : text key' = text key
    · simp [hkey]
    · simp [hkey]

theorem elem_fillField (doc : Document) (field : String × Value) (key : String) :
    elem (fillField doc field) key =
      (elem doc key).or (if text field.1 = text key then some field.2 else none) := by
  unfold fillField
  cases hfield : elem doc field.1 with
  | some v =>
    simp only [Option.isSome_some, if_true]
    by_cases hkey : text field.1 = text key
    · have hsame : elem doc key = some v := by rw [← hfield]; unfold elem; rw [hkey]
      rw [hsame]
      rfl
    · rw [if_neg hkey, Option.or_none]
  | none => simp only [Option.isSome_none, Bool.false_eq_true, if_false, elem_append_single]

theorem fillField_eq_self {doc : Document} {field : String × Value}
    (h : elem doc field.1 ≠ none) : fillField doc field = doc :=
  if_pos (Option.isSome_iff_ne_none.2 h)

/-- Where nothing is left out there is nothing to fill in. -/
theorem filled_eq_self {o : CrudOperation} {cls : MongoClass} {doc : Document}
    (h : ∀ field ∈ defaults o cls, elem doc field.1 ≠ none) : filled o cls doc = doc := by
  unfold filled
  generalize defaults o cls = fields at h
  induction fields with
  | nil => rfl
  | cons field fields ih =>
    rw [List.foldl_cons, fillField_eq_self (h field (by simp))]
    exact ih fun f hf => h f (by simp [hf])

/-- The arms that test for a field take its absence for an empty document. -/
theorem optionalDocument_fill (e : Element) :
    optionalDocument (e.or (some (.document []))) = optionalDocument e := by
  cases e <;> rfl

/-- The omitted fields are among those that the arm tests for. -/
def OmitsTested (o : CrudOperation) (cls : MongoClass) (doc : Document) : Prop :=
  ∀ field ∈ defaults o cls, elem doc field.1 = none →
    (field.1, BsonType.document) ∈ optionalFields o cls

/-- The arm does the same with the tested fields filled in. -/
theorem armPlan_filled {lib : Bsoncxx} {o : CrudOperation} {cls : MongoClass} {doc : Document}
    (h : OmitsTested o cls doc) : armPlan lib o cls (filled o cls doc) = armPlan lib o cls doc := by
  by_cases hcollection : o = .CREATE ∧ cls = .collection
  · obtain ⟨rfl, rfl⟩ := hcollection
    have hdb : text "collection_options" ≠ text "dbname" := by decide
    have hcoll : text "collection_options" ≠ text "collectionname" := by decide
    simp only [armPlan, filled, defaults, List.foldl_cons, List.foldl_nil, elem_fillField,
      if_neg hdb, if_neg hcoll, Option.or_none, if_true, optionalDocument_fill]
  by_cases hdocument : o = .READ ∧ cls = .document
  · obtain ⟨rfl, rfl⟩ := hdocument
    have hne : text "filter" ≠ text "dbname" ∧ text "options" ≠ text "dbname" ∧
        text "filter" ≠ text "collectionname" ∧ text "options" ≠ text "collectionname" ∧
        text "filter" ≠ text "options" ∧ text "options" ≠ text "filter" := by decide
    simp only [armPlan, filled, defaults, List.foldl_cons, List.foldl_nil, elem_fillField, hne.1,
      hne.2.1, hne.2.2.1, hne.2.2.2.1, hne.2.2.2.2.1, hne.2.2.2.2.2, Option.or_none, if_true,
      if_false, optionalDocument_fill]
  · have hpresent : ∀ field ∈ defaults o cls, elem doc field.1 ≠ none := by
      intro field hfield hnone
      have htested := h field hfield hnone
      unfold optionalFields at htested
      split at htested
      · exact hcollection ⟨rfl, rfl⟩
      · exact hdocument ⟨rfl, rfl⟩
      · cases htested
    rw [filled_eq_self hpresent]

/-- The fields that an arm reads whatever the body holds are there, each with its type. -/
def RequiredGiven (o : CrudOperation) (cls : MongoClass) (doc : Document) : Prop :=
  ∀ field ∈ requiredFields o cls, ¬ Unusable doc field

/-- A default that the arm does not test for is one of the fields it always reads, and such an
arm tests for none. -/
theorem required_of_default {o : CrudOperation} {cls : MongoClass} {field : String × Value}
    (hfield : field ∈ defaults o cls) :
    (field.1, BsonType.document) ∈ optionalFields o cls ∨
      (field.1, field.2.type) ∈ requiredFields o cls ∧ optionalFields o cls = [] := by
  cases o <;> cases cls <;>
    simp only [defaults, List.mem_cons, List.not_mem_nil, or_false] at hfield <;>
    simp only [optionalFields, requiredFields]
  all_goals grind [Value.type]

section
variable {doc : Document} {key : String}

theorem exists_of_usable {t : BsonType} (h : ¬ Unusable doc (key, t)) :
    ∃ v, elem doc key = some v ∧ v.type = t := by
  simpa [Unusable] using h

theorem stringAt_of_usable (h : ¬ Unusable doc (key, .string)) : ∃ s, stringAt doc key = some s := by
  obtain ⟨v, hv, htype⟩ := exists_of_usable h
  cases v with
  | string s => exact ⟨s, stringAt_eq_some.2 hv⟩
  | _ => cases htype

theorem documentAt_of_usable (h : ¬ Unusable doc (key, .document)) :
    ∃ d, documentAt doc key = some d := by
  obtain ⟨v, hv, htype⟩ := exists_of_usable h
  cases v with
  | document d => exact ⟨d, documentAt_eq_some.2 hv⟩
  | _ => cases htype

theorem boolAt_of_usable (h : ¬ Unusable doc (key, .bool)) : ∃ b, boolAt doc key = some b := by
  obtain ⟨v, hv, htype⟩ := exists_of_usable h
  cases v with
  | bool b => exact ⟨b, boolAt_eq_some.2 hv⟩
  | _ => cases htype

end

/-- An arm that tests for no field asks for something as soon as it has its fields. -/
theorem asked_of_required {lib : Bsoncxx} {o : CrudOperation} {cls : MongoClass} {doc : Document}
    (hdefaults : defaults o cls ≠ []) (htests : optionalFields o cls = [])
    (h : RequiredGiven o cls doc) : ∃ c, askedCommand lib o cls doc = some c := by
  unfold RequiredGiven at h
  cases o <;> cases cls <;>
    simp only [defaults, ne_eq, not_true_eq_false, optionalFields, reduceCtorEq] at hdefaults htests
  all_goals simp only [requiredFields, List.forall_mem_cons] at h
  case CREATE.index =>
    obtain ⟨hdb, hcoll, hkeys, hoptions, -⟩ := h
    obtain ⟨dbname, hdb⟩ := stringAt_of_usable hdb
    obtain ⟨coll, hcoll⟩ := stringAt_of_usable hcoll
    obtain ⟨keys, hkeys⟩ := documentAt_of_usable hkeys
    obtain ⟨options, hoptions⟩ := documentAt_of_usable hoptions
    exact ⟨_, by simp only [askedCommand, hdb, hcoll, hkeys, hoptions]; rfl⟩
  case READ.index =>
    obtain ⟨hdb, hcoll, hname, -⟩ := h
    obtain ⟨dbname, hdb⟩ := stringAt_of_usable hdb
    obtain ⟨coll, hcoll⟩ := stringAt_of_usable hcoll
    obtain ⟨indexname, hname⟩ := stringAt_of_usable hname
    exact ⟨_, by simp only [askedCommand, hdb, hcoll, hname]; rfl⟩
  case UPDATE.document =>
    obtain ⟨hdb, hcoll, hmany, hfilter, hfields, -⟩ := h
    obtain ⟨dbname, hdb⟩ := stringAt_of_usable hdb
    obtain ⟨coll, hcoll⟩ := stringAt_of_usable hcoll
    obtain ⟨updmany, hmany⟩ := boolAt_of_usable hmany
    obtain ⟨filter, hfilter⟩ := documentAt_of_usable hfilter
    obtain ⟨fieldsToupd, hfields⟩ := documentAt_of_usable hfields
    exact ⟨_, by simp only [askedCommand, hdb, hcoll, hmany, hfilter, hfields]; rfl⟩
  case DELETE.document =>
    obtain ⟨hdb, hcoll, hmany, hfilter, -⟩ := h
    obtain ⟨dbname, hdb⟩ := stringAt_of_usable hdb
    obtain ⟨coll, hcoll⟩ := stringAt_of_usable hcoll
    obtain ⟨delmany, hmany⟩ := boolAt_of_usable hmany
    obtain ⟨filter, hfilter⟩ := documentAt_of_usable hfilter
    exact ⟨_, by simp only [askedCommand, hdb, hcoll, hmany, hfilter]; rfl⟩

theorem read_not_skipped {lib : Bsoncxx} {cls : MongoClass} {doc : Document} {c : Command}
    (h : askedCommand lib .READ cls doc = some c) : c.skipped = false := by
  cases cls <;>
    simp only [askedCommand, Option.bind_eq_bind, Option.bind_eq_some_iff, Option.pure_def,
      Option.some.injEq] at h
  all_goals grind [Command.skipped]

section
variable {lib : Bsoncxx} {o : CrudOperation} {cls : MongoClass} {doc : Document}
  {req req' : Request}

/-- An omitted field that the arm does not test for makes a difference on a willing server. -/
theorem SameOutcome.omitsTested (h : SameOutcome lib req req') (hlib : lib.Prints)
    (hreq : req.Asks o cls) (hreq' : req'.Asks o cls) (hbody : parseBody lib req.content = doc)
    (hfilled : parseBody lib req'.content = filled o cls doc)
    (hvalid : RequiredGiven o cls (filled o cls doc)) : OmitsTested o cls doc := by
  intro field hfield hnone
  by_contra htested
  obtain ⟨hrequired, htests⟩ := (required_of_default hfield).resolve_left htested
  -- without the field the body asks for nothing
  have hasked : askedCommand lib o cls (parseBody lib req.content) = none := by
    rw [hbody]
    cases hc : askedCommand lib o cls doc with
    | none => rfl
    | some c =>
      obtain ⟨v, hv, -⟩ := required_of_asked hc _ hrequired
      rw [hnone] at hv
      cases hv
  have hnothing : ((handle lib willing req newReply).run ⟨(), []⟩).2 = ⟨(), []⟩ ∧
      ¬ SaysOk lib ((handle lib willing req newReply).run ⟨(), []⟩).1 :=
    handle_nothing_asked hlib hreq hasked
  -- with the default it asks for a command, which is issued or skipped
  obtain ⟨c, hc⟩ := asked_of_required (List.ne_nil_of_mem hfield) htests hvalid
  rw [← hfilled] at hc
  obtain ⟨hissued, hok⟩ := h Unit willing ⟨(), []⟩ newReply
  cases hskip : c.skipped with
  | false =>
    rw [hnothing.1, handle_issues hreq' hc hskip fun _ _ => rfl] at hissued
    cases hissued
  | true =>
    have ho : o ≠ .READ := by
      rintro rfl
      rw [read_not_skipped hc] at hskip
      cases hskip
    exact hnothing.2 (hok.2 (handle_skips hlib hreq' ho hc hskip fun _ _ => rfl))

theorem parseBody_of_ok {content : Bytes} (h : lib.fromJson content = .ok doc) :
    parseBody lib content = doc := by
  unfold parseBody
  rw [h]

/-- **When leaving an argument out means its default.** Of the bodies that are valid once the
defaults are filled in, on exactly those that leave out nothing but what the arm tests for:
`collection_options` of create/collection, `filter` and `options` of read/document. -/
theorem sameOutcome_iff (hlib : lib.Prints) (hreq : req.Asks o cls) (hreq' : req'.Asks o cls)
    (hbody : lib.fromJson req.content = .ok doc)
    (hfilled : lib.fromJson req'.content = .ok (filled o cls doc))
    (hvalid : RequiredGiven o cls (filled o cls doc)) :
    SameOutcome lib req req' ↔ OmitsTested o cls doc := by
  have hparse := parseBody_of_ok hbody
  have hparse' := parseBody_of_ok hfilled
  constructor
  · intro h
    exact h.omitsTested hlib hreq hreq' hparse hparse' hvalid
  · intro h S drv w rep
    rw [hreq.handle_run, hreq'.handle_run, hparse, hparse', armPlan_filled h]
    exact ⟨rfl, Iff.rfl⟩

end

/-- A body of create/index without `index_options`. -/
def indexBody : Document :=
  [(text "dbname", .string (text "d")), (text "collectionname", .string (text "c")),
    (text "keys", .document [(text "a", .int32 1)])]

def indexText : Bytes :=
  text "\x7b\"dbname\":\"d\",\"collectionname\":\"c\",\"keys\":\x7b\"a\":1\x7d\x7d"

def filledText : Bytes :=
  text ("\x7b\"dbname\":\"d\",\"collectionname\":\"c\",\"keys\":\x7b\"a\":1\x7d," ++
    "\"index_options\":\x7b\x7d\x7d")

/-- `plain`, with both texts parsed. -/
def bothTexts : Bsoncxx :=
  { Bsoncxx.plain indexText indexBody with
    fromJson := fun s =>
      if s = filledText then .ok (filled .CREATE .index indexBody)
      else (Bsoncxx.plain indexText indexBody).fromJson s }

theorem bothTexts_prints : bothTexts.Prints :=
  have h := Bsoncxx.plain_lawful indexText indexBody
  ⟨h.toJson_string, h.toJson_keys⟩

theorem bothTexts_index : bothTexts.fromJson indexText = .ok indexBody := rfl

theorem bothTexts_filled :
    bothTexts.fromJson filledText = .ok (filled .CREATE .index indexBody) := rfl

theorem requiredGiven_indexBody :
    RequiredGiven .CREATE .index (filled .CREATE .index indexBody) := by
  intro field hfield hunusable
  simp only [requiredFields, List.mem_cons, List.not_mem_nil, or_false] at hfield
  rcases hfield with rfl | rfl | rfl | rfl <;> exact hunusable _ rfl rfl

theorem sameOutcome_iff_index :
    SameOutcome bothTexts (postRequest (text "create") (text "index") indexText)
        (postRequest (text "create") (text "index") filledText) ↔
      OmitsTested .CREATE .index indexBody :=
  sameOutcome_iff bothTexts_prints (postRequest_asks .CREATE .index indexText)
    (postRequest_asks .CREATE .index filledText) bothTexts_index bothTexts_filled
    requiredGiven_indexBody

/-- Without `index_options` the index is not created. -/
theorem not_always_sameOutcome :
    ¬ ∀ (lib : Bsoncxx) (o : CrudOperation) (cls : MongoClass) (doc : Document)
      (req req' : Request), lib.Prints → req.Asks o cls → req'.Asks o cls →
        lib.fromJson req.content = .ok doc → lib.fromJson req'.content = .ok (filled o cls doc) →
        RequiredGiven o cls (filled o cls doc) → SameOutcome lib req req' := by
  intro h
  have hsame := h bothTexts .CREATE .index indexBody _ _ bothTexts_prints
    (postRequest_asks .CREATE .index indexText) (postRequest_asks .CREATE .index filledText)
    bothTexts_index bothTexts_filled requiredGiven_indexBody
  have htested := hsame.omitsTested bothTexts_prints (postRequest_asks .CREATE .index indexText)
    (postRequest_asks .CREATE .index filledText) (parseBody_of_ok bothTexts_index)
    (parseBody_of_ok bothTexts_filled) requiredGiven_indexBody
  exact List.not_mem_nil (htested ("index_options", .document []) (List.mem_singleton.2 rfl) rfl)

end SeastarStarter
