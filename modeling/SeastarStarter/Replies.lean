import SeastarStarter.Commands

/-!
# What a request is answered

Whatever an arm does, its outcome is a result document or an exception for the outer catch of
`handle`, and `finish` prints either. Printing can fail a second time, in the outer catch itself,
exactly when the exception's text is not valid UTF-8 (`reply_json_iff`). A write is answered
"ok" when its command was issued and returned, and also when a guard skipped it
(`write_acknowledged_iff`).
-/

namespace SeastarStarter

/-- Exactly one of `"result"` (then `"ok"`) and `"error"`. -/
def OneAnswer (d : Document) : Prop :=
  (elem d "result" = some (.string (text "ok")) ∧ elem d "error" = none) ∨
    (elem d "result" = none ∧ (elem d "error").isSome)

section
variable (lib : Bsoncxx)

/-- The future resolves to a reply whose body is the JSON of such an object. -/
def AnswersJson (outcome : Except Exn Reply) : Prop :=
  ∃ rep d, outcome = .ok rep ∧ lib.toJson d = .ok rep.content ∧ OneAnswer d

/-- The future resolves to a reply whose body says `"result" : "ok"`. -/
def SaysOk (outcome : Except Exn Reply) : Prop :=
  ∃ rep d, outcome = .ok rep ∧ lib.toJson d = .ok rep.content ∧
    elem d "result" = some (.string (text "ok"))

end

theorem oneAnswer_errorDoc (s : Bytes) : OneAnswer (errorDoc s) := Or.inr ⟨rfl, rfl⟩

theorem oneAnswer_okDoc : OneAnswer okDoc := Or.inl ⟨rfl, rfl⟩

theorem oneAnswer_okData (res : Document) : OneAnswer (okData res) := Or.inl ⟨rfl, rfl⟩

/-! ## Printing the reply -/

section
variable {lib : Bsoncxx} (rep : Reply)

theorem ascii_error : Utf8.Ascii (text "error") := by decide

/-- An error document is printed exactly when its text is valid UTF-8. -/
theorem prints_errorDoc (hlib : lib.Prints) (s : Bytes) :
    (∃ j, lib.toJson (errorDoc s) = .ok j) ↔ Utf8.Valid s :=
  hlib.toJson_string (text "error") s ascii_error

theorem finish_prints {d : Document} {j : Bytes} (h : lib.toJson d = .ok j) :
    finish lib rep (.ok d) = .ok (rep.json j) := by
  show (tryCatch (lib.toJson d) _ >>= _) = _
  rw [h]
  rfl

theorem finish_ok_of_error {d : Document} {e : Exn} (h : lib.toJson d = .error e) :
    finish lib rep (.ok d) = finish lib rep (.error e) := by
  show (tryCatch (lib.toJson d) _ >>= _) = (lib.toJson (errorDoc (lib.format e)) >>= _)
  rw [h]
  rfl

theorem finish_error (e : Exn) :
    finish lib rep (.error e) = do
      let content ← lib.toJson (errorDoc (lib.format e))
      return rep.json content := rfl

/-- A document that does not print is replaced by one that does. -/
theorem finish_ok (hlib : lib.Lawful) (d : Document) :
    ∃ d' j, finish lib rep (.ok d) = .ok (rep.json j) ∧ lib.toJson d' = .ok j ∧
      (d' = d ∨ ∃ s, d' = errorDoc s) := by
  cases hj : lib.toJson d with
  | ok j => exact ⟨d, j, finish_prints rep hj, hj, Or.inl rfl⟩
  | error e =>
    obtain ⟨j, hprint⟩ := (prints_errorDoc hlib.toPrints _).2 (hlib.toJson_error d e hj)
    refine ⟨errorDoc (lib.format e), j, ?_, hprint, Or.inr ⟨_, rfl⟩⟩
    rw [finish_ok_of_error rep hj, finish_error, hprint]
    rfl

/-- What goes to the outer catch is answered, if at all, with the text of an error. -/
theorem finish_error_eq_ok {e : Exn} {rep' : Reply} (h : finish lib rep (.error e) = .ok rep') :
    ∃ s, lib.toJson (errorDoc s) = .ok rep'.content := by
  rw [finish_error] at h
  obtain ⟨j, hj, hrep⟩ := Except.bind_eq_ok.1 h
  obtain rfl := Except.ok.inj hrep
  exact ⟨lib.format e, hj⟩

/-- The outcome decides: a result document is always answered, and an exception exactly when its
text is valid. -/
theorem answersJson_finish (hlib : lib.Lawful) {outcome : Except Exn Document}
    (hanswer : ∀ d, outcome = .ok d → OneAnswer d) :
    AnswersJson lib (finish lib rep outcome) ↔
      ∀ e, outcome = .error e → Utf8.Valid (lib.format e) := by
  cases outcome with
  | ok d =>
    refine iff_of_true ?_ fun e h => by cases h
    obtain ⟨d', j, hfinish, hprint, hd'⟩ := finish_ok rep hlib d
    refine ⟨rep.json j, d', hfinish, hprint, ?_⟩
    rcases hd' with rfl | ⟨s, rfl⟩
    · exact hanswer d' rfl
    · exact oneAnswer_errorDoc s
  | error e =>
    rw [finish_error]
    constructor
    · rintro ⟨rep', d, h, -, -⟩ e' he'
      obtain rfl := Except.error.inj he'
      apply (prints_errorDoc hlib.toPrints _).1
      cases hj : lib.toJson (errorDoc (lib.format e)) with
      | ok j => exact ⟨j, rfl⟩
      | error e' => rw [hj] at h; cases h
    · intro hvalid
      obtain ⟨j, hj⟩ := (prints_errorDoc hlib.toPrints _).2 (hvalid e rfl)
      exact ⟨rep.json j, errorDoc (lib.format e), by rw [hj]; rfl, hj, oneAnswer_errorDoc _⟩

/-- The text of an error document says nothing of a result. -/
theorem no_result_of_prints (hlib : lib.Prints) {d : Document} {s j : Bytes}
    (hd : lib.toJson d = .ok j) (hs : lib.toJson (errorDoc s) = .ok j) :
    elem d "result" = none := by
  have hkeys : d.map Prod.fst = [text "error"] := hlib.toJson_keys d (errorDoc s) j hd hs
  cases d with
  | nil => rfl
  | cons f d =>
    obtain ⟨hf, hd⟩ := List.cons.inj hkeys
    have hnil : d = [] := List.map_eq_nil_iff.1 hd
    have hne : ¬ f.1 = text "result" := by rw [hf]; decide
    subst hnil
    unfold elem
    simp [hne]

theorem not_saysOk_finish (hlib : lib.Prints) {outcome : Except Exn Document}
    (h : ∀ d, outcome = .ok d → ∃ s, d = errorDoc s) : ¬ SaysOk lib (finish lib rep outcome) := by
  rintro ⟨rep', d, hfinish, hprint, hresult⟩
  have hs : ∃ s, lib.toJson (errorDoc s) = .ok rep'.content := by
    cases outcome with
    | ok d₀ =>
      obtain ⟨s₀, rfl⟩ := h d₀ rfl
      cases hj : lib.toJson (errorDoc s₀) with
      | ok j =>
        rw [finish_prints rep hj] at hfinish
        obtain rfl := Except.ok.inj hfinish
        exact ⟨s₀, hj⟩
      | error e =>
        rw [finish_ok_of_error rep hj] at hfinish
        exact finish_error_eq_ok rep hfinish
    | error e => exact finish_error_eq_ok rep hfinish
  obtain ⟨s, hs⟩ := hs
  rw [no_result_of_prints hlib hprint hs] at hresult
  cases hresult

theorem saysOk_finish (hlib : lib.Prints) : SaysOk lib (finish lib rep (.ok okDoc)) := by
  have hkey : Utf8.Ascii (text "result") := by decide
  have hok : Utf8.Valid (text "ok") := by decide
  obtain ⟨j, hj⟩ := (hlib.toJson_string (text "result") (text "ok") hkey).2 hok
  exact ⟨rep.json j, okDoc, finish_prints rep hj, hj, rfl⟩

end

/-! ## Every reply is JSON, where its text can be printed -/

section
variable {S : Type} {lib : Bsoncxx} (drv : Driver S)

theorem oneAnswer_readReply {res : Document} {d : Document}
    (h : readReply lib (some res) = .ok d) : OneAnswer d := by
  obtain ⟨j, -, hd⟩ := Except.bind_eq_ok.1 h
  obtain rfl := Except.ok.inj hd
  exact oneAnswer_okData res

/-- What an arm makes of the documents it got is an answer. -/
theorem oneAnswer_post {o : CrudOperation} {cls : MongoClass} {doc : Document} {p : Plan}
    (hp : armPlan lib o cls doc = .ok (.ok p)) {docs : List Document} {d : Document}
    (hd : p.post docs = .ok d) : OneAnswer d := by
  by_cases ho : o = .READ
  · subst ho
    obtain ⟨database, c, key, array, rfl⟩ := armPlan_read hp
    obtain ⟨listed, -, hread⟩ := Except.bind_eq_ok.1 hd
    exact oneAnswer_readReply hread
  · obtain ⟨dbname, c, rfl, -⟩ := armPlan_write ho hp
    obtain rfl := Except.ok.inj hd
    exact oneAnswer_okDoc

theorem oneAnswer_perform {o : CrudOperation} {cls : MongoClass} {doc : Document} {p : Plan}
    (hp : armPlan lib o cls doc = .ok (.ok p)) {w : World S} {d : Document}
    (hd : ((p.perform drv).run w).1 = .ok d) : OneAnswer d := by
  rw [Plan.run_perform] at hd
  cases hreached : p.reached drv w.db with
  | error e => rw [hreached] at hd; cases hd
  | ok c =>
    rw [hreached] at hd
    cases hskip : c.skipped with
    | true =>
      simp only [hskip, if_true] at hd
      exact oneAnswer_post hp hd
    | false =>
      simp only [hskip, Bool.false_eq_true, if_false] at hd
      obtain ⟨docs, -, hd⟩ := Except.bind_eq_ok.1 hd
      exact oneAnswer_post hp hd

theorem oneAnswer_caught {outcome : Except Exn Document}
    (h : ∀ d, outcome = .ok d → OneAnswer d) : OneAnswer (caught lib outcome) := by
  cases outcome with
  | ok d => exact h d rfl
  | error e => exact oneAnswer_errorDoc _

theorem oneAnswer_runArm {req : Request} {w : World S} {d : Document}
    (hd : ((runArm lib drv (requestPlan lib req)).run w).1 = .ok d) : OneAnswer d := by
  rw [run_runArm] at hd
  cases hplan : requestPlan lib req with
  | error e => rw [hplan] at hd; cases hd
  | ok inner =>
    rw [hplan] at hd
    obtain ⟨o, -, hplan⟩ := Except.bind_eq_ok.1 hplan
    obtain ⟨cls, -, hplan⟩ := Except.bind_eq_ok.1 hplan
    cases inner with
    | error e =>
      obtain rfl := Except.ok.inj hd
      exact oneAnswer_errorDoc _
    | ok p =>
      obtain rfl := Except.ok.inj hd
      exact oneAnswer_caught fun d hd => oneAnswer_perform drv hplan hd

/-- Only the plan's outer errors go to the outer catch. -/
theorem runArm_error {plan : Except Exn (Except Exn Plan)} {w : World S} {e : Exn} :
    ((runArm lib drv plan).run w).1 = .error e ↔ plan = .error e := by
  rw [run_runArm]
  rcases plan with e' | inner
  · exact ⟨fun h => by rw [Except.error.inj h], fun h => by rw [Except.error.inj h]⟩
  · rcases inner with e' | p
    · exact iff_of_false nofun nofun
    · exact iff_of_false nofun nofun

end

/-- The text of what goes to the outer catch is valid UTF-8: so is an operation or a class that is
not recognised, up to its first NUL, and what `from_json` says of a `json_data` string that it
rejects. -/
def Printable (lib : Bsoncxx) (req : Request) : Prop :=
  match getOperationType (req.getQueryParam "operation") with
  | .error _ => Utf8.Valid (cString (req.getQueryParam "operation"))
  | .ok o =>
    match getMongoClass (req.getQueryParam "class") with
    | .error _ => Utf8.Valid (cString (req.getQueryParam "class"))
    | .ok cls =>
      o = .CREATE → cls = .document → ∀ s e,
        elem (parseBody lib req.content) "json_data" = some (.string s) →
        lib.fromJson s = .error e → Utf8.Valid (lib.format e)

section
variable {lib : Bsoncxx}

theorem getOperationType_error {s : Bytes} {e : Exn} (h : getOperationType s = .error e) :
    e = .runtimeError (text "Invalid operation type: " ++ s) := by
  unfold getOperationType at h
  split_ifs at h
  exact (Except.error.inj h).symm

theorem getMongoClass_error {s : Bytes} {e : Exn} (h : getMongoClass s = .error e) :
    e = .runtimeError (text "Invalid mongo class type: " ++ s) := by
  unfold getMongoClass at h
  split_ifs at h
  exact (Except.error.inj h).symm

/-- The only text of the request that `json_data` can bring into an exception is the one
`from_json` rejects. -/
theorem jsonData_error {doc : Document} {e : Exn} (h : jsonData lib doc = .error e) :
    (∃ err, e = .element err) ∨ e = .runtimeError (text "Invalid json_data type") ∨
      ∃ s, elem doc "json_data" = some (.string s) ∧ lib.fromJson s = .error e := by
  unfold jsonData at h
  cases helem : elem doc "json_data" with
  | none =>
    rw [helem] at h
    exact Or.inl ⟨_, (Except.error.inj h).symm⟩
  | some v =>
    rw [helem] at h
    cases v with
    | document d => cases h
    | array elems => cases h
    | string s => exact Or.inr (Or.inr ⟨s, rfl, h⟩)
    | _ => exact Or.inr (Or.inl (Except.error.inj h).symm)

theorem jsonData_string {doc : Document} {s : Bytes}
    (h : elem doc "json_data" = some (.string s)) : jsonData lib doc = lib.fromJson s := by
  unfold jsonData
  rw [h]
  rfl

theorem valid_armPlan_error (hlib : lib.Lawful) {o : CrudOperation} {cls : MongoClass}
    {doc : Document} :
    (∀ e, armPlan lib o cls doc = .error e → Utf8.Valid (lib.format e)) ↔
      (o = .CREATE → cls = .document → ∀ s e, elem doc "json_data" = some (.string s) →
        lib.fromJson s = .error e → Utf8.Valid (lib.format e)) := by
  have hfixed : ∀ what, Utf8.Valid (cString what) → Utf8.Valid (lib.format (.runtimeError what)) :=
    fun what => (hlib.format_runtimeError what).2
  constructor
  · rintro h rfl rfl s e hs he
    apply h
    show (jsonData lib doc >>= _) = _
    rw [jsonData_string hs, he]
    rfl
  · intro h e he
    rcases armPlan_error he with rfl | rfl | ⟨rfl, rfl, hdata⟩
    · exact hfixed _ (by decide)
    · exact hfixed _ (by decide)
    · rcases jsonData_error hdata with ⟨err, rfl⟩ | rfl | ⟨s, hs, hfrom⟩
      · exact hlib.format_element err
      · exact hfixed _ (by decide)
      · exact h rfl rfl s e hs hfrom

/-- A message that ends in the request's own bytes is as valid as they are. -/
theorem valid_error_iff (hlib : lib.Lawful) {α : Type} {e : Exn} {before s : Bytes}
    (he : e = .runtimeError (before ++ s)) (hbefore : Utf8.Valid before)
    (hnul : ∀ b ∈ before, b ≠ 0) :
    (∀ e', (.error e : Except Exn α) = .error e' → Utf8.Valid (lib.format e')) ↔
      Utf8.Valid (cString s) := by
  subst he
  rw [← hbefore.append_iff, ← cString_append hnul, ← hlib.format_runtimeError]
  constructor
  · intro h
    exact h _ rfl
  · intro h e' he'
    rwa [← Except.error.inj he']

theorem printable_iff (hlib : lib.Lawful) (req : Request) :
    Printable lib req ↔ ∀ e, requestPlan lib req = .error e → Utf8.Valid (lib.format e) := by
  unfold Printable
  cases ho : getOperationType (req.getQueryParam "operation") with
  | error e =>
    have hplan : requestPlan lib req = .error e := by unfold requestPlan; rw [ho]; rfl
    rw [hplan]
    exact (valid_error_iff hlib (getOperationType_error ho) (by decide +kernel)
      (by decide +kernel)).symm
  | ok o =>
    cases hcls : getMongoClass (req.getQueryParam "class") with
    | error e =>
      have hplan : requestPlan lib req = .error e := by unfold requestPlan; rw [ho, hcls]; rfl
      rw [hplan]
      exact (valid_error_iff hlib (getMongoClass_error hcls) (by decide +kernel)
        (by decide +kernel)).symm
    | ok cls =>
      rw [requestPlan_eq ho hcls]
      exact (valid_armPlan_error hlib).symm

/-- **A POST request is answered with the JSON of one result or one error exactly when the text
of what goes to the outer catch can be printed.** -/
theorem reply_json_iff {S : Type} (hlib : lib.Lawful) (drv : Driver S) (req : Request)
    (rep : Reply) (w : World S) (hpost : req.method = text "POST") :
    AnswersJson lib ((handle lib drv req rep).run w).1 ↔ Printable lib req := by
  rw [handle_run lib drv hpost, printable_iff hlib,
    answersJson_finish rep hlib fun d hd => oneAnswer_runArm drv hd]
  exact forall_congr' fun e => imp_congr_left (runArm_error drv)

end

/-- An operation of one byte `FF` fails the future: its message cannot be printed. -/
theorem not_always_json :
    ¬ ∀ lib : Bsoncxx, lib.Lawful → ∀ req : Request, req.method = text "POST" →
      AnswersJson lib ((handle lib willing req newReply).run ⟨(), []⟩).1 := by
  intro h
  obtain ⟨rep, d, hfail, -⟩ :=
    h (.plain [] []) (Bsoncxx.plain_lawful [] []) (postRequest [0xFF] [] []) rfl
  cases hfail

theorem reply_json_iff_unknown :
    AnswersJson (.plain [] [])
        ((handle (.plain [] []) willing (postRequest (text "drop") [] []) newReply).run ⟨(), []⟩).1 ↔
      Printable (.plain [] []) (postRequest (text "drop") [] []) :=
  reply_json_iff (Bsoncxx.plain_lawful [] []) willing (postRequest (text "drop") [] []) newReply
    ⟨(), []⟩ rfl

/-! ## What a write is answered -/

section
variable {S : Type} {lib : Bsoncxx} (drv : Driver S) (rep : Reply)

/-- The command `c` of a request was done between `w` and `w'`: issued and returned, or left out
by its guard, in a database that could be looked up. -/
def Acknowledgeable (c : Command) (w w' : World S) : Prop :=
  if c.skipped then
    (∀ dbname, c.database = some dbname → drv.database w.db dbname = .ok ()) ∧
      w'.issued = w.issued
  else w'.issued = w.issued ++ [(c, true)]

theorem write_reached {dbname : Bytes} {c : Command} {s : S} :
    (Plan.write dbname c).reached drv s = (drv.database s dbname).map fun _ => c := by
  unfold Plan.reached Plan.lookedUp Plan.write
  dsimp only
  cases drv.database s dbname <;> rfl

/-- A writing arm says ok exactly when its command was done. -/
theorem saysOk_write_iff (hlib : lib.Prints) {dbname : Bytes} {c : Command}
    (hdb : c.database = some dbname) (w : World S) :
    SaysOk lib (finish lib rep
        ((runArm lib drv (.ok (.ok (.write dbname c)))).run w).1) ↔
      Acknowledgeable drv c w ((runArm lib drv (.ok (.ok (.write dbname c)))).run w).2 := by
  unfold Acknowledgeable
  rw [run_runArm]
  dsimp only
  rw [Plan.run_perform, write_reached]
  cases hlookup : drv.database w.db dbname with
  | error e =>
    refine iff_of_false (not_saysOk_finish rep hlib fun d hd => ⟨_, (Except.ok.inj hd).symm⟩) ?_
    cases hskip : c.skipped with
    | true =>
      rintro ⟨hok, -⟩
      have := hok dbname hdb
      rw [hlookup] at this
      cases this
    | false =>
      intro hissued
      simp [Except.map] at hissued
  | ok u =>
    cases hskip : c.skipped with
    | true =>
      simp only [Except.map, hskip, if_true]
      refine iff_of_true (saysOk_finish rep hlib) ⟨fun dbname' hdb' => ?_, trivial⟩
      rw [hdb] at hdb'
      obtain rfl := Option.some.inj hdb'
      exact hlookup
    | false =>
      simp only [Except.map, hskip, Bool.false_eq_true, if_false]
      have hrun : (MongoDBInterface.issue drv c).run w =
          ((drv.run c w.db).1, ⟨(drv.run c w.db).2, w.issued ++ [(c, (drv.run c w.db).1.isOk)]⟩) := rfl
      rw [hrun]
      cases (drv.run c w.db).1 with
      | error e =>
        refine iff_of_false
          (not_saysOk_finish rep hlib fun d hd => ⟨_, (Except.ok.inj hd).symm⟩) fun hissued => ?_
        simp [Except.isOk, Except.toBool] at hissued
      | ok docs => exact iff_of_true (saysOk_finish rep hlib) rfl

/-- **A write is answered "ok" exactly when the command it asks for was issued, once, and
returned, or when its empty update, filter or keys document made its guard leave it out.** -/
theorem write_acknowledged_iff (hlib : lib.Prints) (req : Request) (w : World S)
    (hpost : req.method = text "POST") {o : CrudOperation}
    (ho : req.getQueryParam "operation" = o.name) (hwrite : o ≠ .READ) :
    SaysOk lib ((handle lib drv req rep).run w).1 ↔
      ∃ cls c, req.getQueryParam "class" = MongoClass.name cls ∧
        askedCommand lib o cls (parseBody lib req.content) = some c ∧
        Acknowledgeable drv c w ((handle lib drv req rep).run w).2 := by
  rw [handle_run lib drv hpost]
  dsimp only
  have hnothing : ∀ w', commandOf (requestPlan lib req) = none →
      ¬ ∃ cls c, req.getQueryParam "class" = MongoClass.name cls ∧
        askedCommand lib o cls (parseBody lib req.content) = some c ∧
        Acknowledgeable drv c w w' := by
    rintro w' hnone ⟨cls, c, hcls, hc, -⟩
    rw [(asked_iff_plan ho).1 ⟨cls, hcls, hc⟩] at hnone
    cases hnone
  cases hplan : requestPlan lib req with
  | error e =>
    exact iff_of_false (not_saysOk_finish rep hlib fun d hd => by cases hd)
      (hnothing _ (by rw [hplan]; rfl))
  | ok inner =>
    cases inner with
    | error e =>
      exact iff_of_false (not_saysOk_finish rep hlib fun d hd => ⟨_, (Except.ok.inj hd).symm⟩)
        (hnothing _ (by rw [hplan]; rfl))
    | ok p =>
      obtain ⟨dbname, c, rfl, hdb⟩ : ∃ dbname c, p = .write dbname c ∧ c.database = some dbname := by
        obtain ⟨o', ho', harm⟩ := Except.bind_eq_ok.1 hplan
        obtain ⟨cls, -, harm⟩ := Except.bind_eq_ok.1 harm
        obtain rfl := Except.ok.inj ((getOperationType_eq_ok.2 ho).symm.trans ho')
        exact armPlan_write hwrite harm
      rw [saysOk_write_iff drv rep hlib hdb]
      constructor
      · intro hack
        have hcommand : commandOf (requestPlan lib req) = some c := by rw [hplan]; rfl
        obtain ⟨cls, hcls, hc⟩ := (asked_iff_plan ho).2 hcommand
        exact ⟨cls, c, hcls, hc, hack⟩
      · rintro ⟨cls, c', hcls, hc', hack⟩
        have hasked := (asked_iff_plan ho).1 ⟨cls, hcls, hc'⟩
        rw [hplan] at hasked
        obtain rfl := Option.some.inj hasked
        exact hack

end

/-- A body of delete/document whose filter is empty. -/
def emptyFilter : Document :=
  [(text "dbname", .string (text "d")), (text "collectionname", .string (text "c")),
    (text "delmany", .bool true), (text "filter", .document [])]

def emptyFilterText : Bytes :=
  text "\x7b\"dbname\":\"d\",\"collectionname\":\"c\",\"delmany\":true,\"filter\":\x7b\x7d\x7d"

def emptyFilterRequest : Request := postRequest (text "delete") (text "document") emptyFilterText

/-- The empty filter is answered "ok", and `delete_many` was not issued. -/
theorem not_always_truthful :
    ¬ ∀ lib : Bsoncxx, lib.Prints → ∀ req : Request, req.method = text "POST" →
      ∀ o : CrudOperation, req.getQueryParam "operation" = o.name → o ≠ .READ →
      (SaysOk lib ((handle lib willing req newReply).run ⟨(), []⟩).1 ↔
        ∃ cls c, req.getQueryParam "class" = MongoClass.name cls ∧
          askedCommand lib o cls (parseBody lib req.content) = some c ∧
          ((handle lib willing req newReply).run ⟨(), []⟩).2.issued = [(c, true)]) := by
  intro h
  have hiff := h (.plain emptyFilterText emptyFilter) (Bsoncxx.plain_lawful _ _).toPrints
    emptyFilterRequest rfl .DELETE rfl nofun
  have hok : SaysOk (.plain emptyFilterText emptyFilter)
      ((handle (.plain emptyFilterText emptyFilter) willing emptyFilterRequest newReply).run
        ⟨(), []⟩).1 :=
    ⟨newReply.json (render (text "result") (text "ok")), okDoc, rfl, rfl, rfl⟩
  obtain ⟨cls, c, -, -, hissued⟩ := hiff.1 hok
  cases hissued

theorem write_acknowledged_iff_emptyFilter :
    SaysOk (.plain emptyFilterText emptyFilter)
        ((handle (.plain emptyFilterText emptyFilter) willing emptyFilterRequest newReply).run
          ⟨(), []⟩).1 ↔
      ∃ cls c, emptyFilterRequest.getQueryParam "class" = MongoClass.name cls ∧
        askedCommand (.plain emptyFilterText emptyFilter) .DELETE cls
          (parseBody (.plain emptyFilterText emptyFilter) emptyFilterRequest.content) = some c ∧
        Acknowledgeable willing c ⟨(), []⟩
          ((handle (.plain emptyFilterText emptyFilter) willing emptyFilterRequest newReply).run
            ⟨(), []⟩).2 :=
  write_acknowledged_iff willing newReply (Bsoncxx.plain_lawful _ _).toPrints emptyFilterRequest
    ⟨(), []⟩ rfl rfl nofun

end SeastarStarter
