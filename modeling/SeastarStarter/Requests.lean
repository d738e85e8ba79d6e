import SeastarStarter.Lib.OneAccess
import SeastarStarter.TwoRequests

/-!
# Requests that are handled at the same time

Every shard runs the coroutines of its requests in turns, and the shards run beside each other, on
one database server. `handleStep` is `crud_handler::handle` cut where another request can come in:

| `HandleState` | main.cc, MongoInterface.h |
|---|---|
| `received` | from the start of `handle` (167) to the `co_await` of the arm |
| `calling`  | in the called function, behind `co_await db_clients()`: `client[name]` and the options |
| `issuing`  | the driver command, with the documents of its cursor |
| `returned` | back in the arm, and to the end of `handle` |

Each request comes in through the client of its shard, and all of them reach one server
(`Clients`). `client[name]` reads the client and not the server (`Clients.KeepsLookups`). So the
command is the one step of a request that others can see, and requests are handled as if one after
the other, in the order of their commands (`requests_serializable`).
-/

namespace SeastarStarter

open Tasks Lts

/-- The clients through which requests reach one server: that of the request's shard need not be
good for `client[name]`, or for any command, where that of another one is. -/
structure Clients (S Id : Type) where
  database : Id → S → Bytes → Except Exn Unit
  run : Id → Command → S → Except Exn (List Document) × S

/-- What request `i` reaches the server with. -/
def Clients.driver {S Id : Type} (clients : Clients S Id) (i : Id) : Driver S :=
  ⟨clients.database i, clients.run i⟩

/-- A client that can name a database can do so after a command as well. -/
def Clients.KeepsLookups {S Id : Type} (clients : Clients S Id) : Prop :=
  ∀ i j c s name, clients.database i s name = .ok () →
    clients.database i (clients.run j c s).2 name = .ok ()

inductive HandleState where
  | received
  | calling (p : Plan)
  | issuing (p : Plan) (c : Command)
  | returned (outcome : Except Exn Document)

/-- The command of the request, if it has one, is behind it. -/
def HandleState.commandDone : HandleState → Bool
  | .returned _ => true
  | _ => false

section
variable {S : Type} (lib : Bsoncxx) (drv : Driver S)

def handleStep (req : Request) (rep : Reply) :
    HandleState → World S → Stage HandleState (Except Exn Reply) × World S
  | .received, w =>
    if req.method ≠ text "POST" then
      (.finished (.ok { rep with status := .badRequest, done := some (text "json") }), w)
    else
      match requestPlan lib req with
      | .error e => (.finished (finish lib rep (.error e)), w)
      | .ok (.error e) => (.running (.returned (.error e)), w)
      | .ok (.ok p) => (.running (.calling p), w)
  | .calling p, w =>
    match p.reached drv w.db with
    | .error e => (.running (.returned (.error e)), w)
    | .ok c =>
      if c.skipped then (.running (.returned (p.post [])), w) else (.running (.issuing p c), w)
  | .issuing p c, w =>
    (.running (.returned (((MongoDBInterface.issue drv c).run w).1 >>= p.post)),
      ((MongoDBInterface.issue drv c).run w).2)
  | .returned outcome, w => (.finished (finish lib rep (.ok (caught lib outcome))), w)

/-- What the coroutine of a request has found out before its command. -/
def HandleReady (req : Request) : HandleState → World S → Prop
  | .received, _ => True
  | .calling p, _ => req.method = text "POST" ∧ requestPlan lib req = .ok (.ok p)
  | .issuing p c, w =>
    req.method = text "POST" ∧ requestPlan lib req = .ok (.ok p) ∧ p.reached drv w.db = .ok c ∧
      c.skipped = false
  | .returned _, _ => False

/-- What it makes of it afterwards. -/
def HandleSpent (rep : Reply) : HandleState → Except Exn Reply → Prop
  | .returned outcome, reply => reply = finish lib rep (.ok (caught lib outcome))
  | _, _ => False

end

section
variable {S : Type} {lib : Bsoncxx} {drv : Driver S} {req : Request} {rep : Reply}

/-- A request does the same on two servers on which it finds the same, and is returned the same for
its command; and it leaves alike what is alike. -/
theorem handle_agree {V : Type} (view : S → V) {w w' : World S} (hview : view w.db = view w'.db)
    (hreached : ∀ p, requestPlan lib req = .ok (.ok p) → p.reached drv w.db = p.reached drv w'.db)
    (hrun : ∀ p c, requestPlan lib req = .ok (.ok p) → p.command = .ok c →
      (drv.run c w.db).1 = (drv.run c w'.db).1 ∧
        view (drv.run c w.db).2 = view (drv.run c w'.db).2) :
    ((handle lib drv req rep).run w).1 = ((handle lib drv req rep).run w').1 ∧
      view ((handle lib drv req rep).run w).2.db =
        view ((handle lib drv req rep).run w').2.db := by
  by_cases hpost : req.method = text "POST"
  · rw [handle_run lib drv hpost, handle_run lib drv hpost, run_runArm, run_runArm]
    cases hplan : requestPlan lib req with
    | error e => exact ⟨rfl, hview⟩
    | ok inner =>
      cases inner with
      | error e => exact ⟨rfl, hview⟩
      | ok p =>
        dsimp only
        rw [Plan.run_perform, Plan.run_perform, hreached p hplan]
        cases hr : p.reached drv w'.db with
        | error e => exact ⟨rfl, hview⟩
        | ok c =>
          obtain ⟨u, -, hc⟩ := Except.bind_eq_ok.1 hr
          obtain ⟨hout, hafter⟩ := hrun p c hplan hc
          by_cases hskip : c.skipped = true
          · simp [hskip, hview]
          · simp only [hskip, Bool.false_eq_true, if_false]
            refine ⟨?_, hafter⟩
            have hissue : ((MongoDBInterface.issue drv c).run w).1 =
                ((MongoDBInterface.issue drv c).run w').1 := hout
            rw [hissue]
  · rw [handle_notPost lib drv hpost, handle_notPost lib drv hpost]
    exact ⟨rfl, hview⟩

theorem handleStep_ready {l : HandleState} {w : World S} (h : HandleReady lib drv req l w) :
    (∃ l', handleStep lib drv req rep l w = (.running l', w) ∧ HandleReady lib drv req l' w) ∨
    (∃ l', handleStep lib drv req rep l w =
        (.running l', ((handle lib drv req rep).run w).2) ∧
      HandleSpent lib rep l' ((handle lib drv req rep).run w).1) ∨
    handleStep lib drv req rep l w =
      (.finished ((handle lib drv req rep).run w).1, ((handle lib drv req rep).run w).2) := by
  cases l with
  | received =>
    by_cases hpost : req.method = text "POST"
    · cases hplan : requestPlan lib req with
      | error e =>
        refine Or.inr (Or.inr ?_)
        simp [handleStep, hpost, hplan, handle_run lib drv hpost, run_runArm]
      | ok inner =>
        cases inner with
        | error e =>
          refine Or.inr (Or.inl ⟨.returned (.error e), ?_, ?_⟩)
          · simp [handleStep, hpost, hplan, handle_run lib drv hpost, run_runArm]
          · simp [HandleSpent, hplan, handle_run lib drv hpost, run_runArm, caught]
        | ok p =>
          refine Or.inl ⟨.calling p, ?_, hpost, hplan⟩
          simp [handleStep, hpost, hplan]
    · refine Or.inr (Or.inr ?_)
      simp [handleStep, hpost, handle_notPost lib drv hpost]
  | calling p =>
    obtain ⟨hpost, hplan⟩ := h
    have hrun : (handle lib drv req rep).run w = _ := handle_run lib drv hpost w
    rw [hplan, run_runArm] at hrun
    dsimp only at hrun
    rw [Plan.run_perform] at hrun
    cases hreached : p.reached drv w.db with
    | error e =>
      refine Or.inr (Or.inl ⟨.returned (.error e), ?_, ?_⟩)
      · simp [handleStep, hreached, hrun]
      · simp [HandleSpent, hreached, hrun]
    | ok c =>
      by_cases hskip : c.skipped = true
      · refine Or.inr (Or.inl ⟨.returned (p.post []), ?_, ?_⟩)
        · simp [handleStep, hreached, hrun, hskip]
        · simp [HandleSpent, hreached, hrun, hskip]
      · refine Or.inl ⟨.issuing p c, ?_, hpost, hplan, hreached, by simpa using hskip⟩
        simp [handleStep, hreached, hskip]
  | issuing p c =>
    obtain ⟨hpost, hplan, hreached, hskip⟩ := h
    have hrun : (handle lib drv req rep).run w = _ := handle_run lib drv hpost w
    rw [hplan, run_runArm] at hrun
    dsimp only at hrun
    rw [Plan.run_perform, hreached] at hrun
    dsimp only at hrun
    refine Or.inr (Or.inl ⟨.returned (((MongoDBInterface.issue drv c).run w).1 >>= p.post), ?_, ?_⟩)
    · simp [handleStep, hrun, hskip]
    · simp [HandleSpent, hrun, hskip]
  | returned outcome => exact h.elim

end

/-! ## Any number of requests -/

section
variable {S Id : Type} {lib : Bsoncxx} {clients : Clients S Id}

/-- What a plan has reached it reaches after a command of another request as well. -/
theorem Plan.reached_steady (hclients : clients.KeepsLookups) {i j : Id} {p : Plan} {c : Command}
    {w : World S}
    (h : p.reached (clients.driver j) w.db = .ok c) (req : Request) (rep : Reply) :
    p.reached (clients.driver j) ((handle lib (clients.driver i) req rep).run w).2.db = .ok c := by
  rcases handle_world lib (clients.driver i) req rep w with hw | ⟨-, -, c', -, -, -, -, -, hw⟩
  · rwa [hw]
  · rw [hw]
    obtain ⟨u, hlooked, hc⟩ := Except.bind_eq_ok.1 h
    refine Except.bind_eq_ok.2 ⟨u, ?_, hc⟩
    unfold Plan.lookedUp at hlooked ⊢
    cases hdb : p.database with
    | none => rfl
    | some name =>
      rw [hdb] at hlooked
      exact hclients j i c' w.db name hlooked

end

section
variable {S Id : Type} (lib : Bsoncxx) (clients : Clients S Id) (requests : Id → Request)
  (replies : Id → Reply)

/-- The requests, and how far the coroutine of each has come. -/
abbrev Serving (S Id : Type) := Pool Id (World S) HandleState (Except Exn Reply)

/-- All of them have been received, and none has run. -/
def Serving.begin (w : World S) : Serving S Id := Tasks.start (fun _ => .received) w

/-- The coroutine of request `i` runs to the next point where others can come in. -/
def Serving.step [DecidableEq Id] (s : Serving S Id) (i : Id) : Option (Serving S Id) :=
  Tasks.step (fun i => handleStep lib (clients.driver i) (requests i) (replies i))
    HandleState.commandDone s i

/-- `handle`, for request `i` alone. -/
def handleAlone (i : Id) (w : World S) : Except Exn Reply × World S :=
  (handle lib (clients.driver i) (requests i) (replies i)).run w

theorem handle_oneAccess (hclients : clients.KeepsLookups) :
    OneAccess (fun i => handleStep lib (clients.driver i) (requests i) (replies i))
      HandleState.commandDone (handleAlone lib clients requests replies) (fun _ => .received)
      (fun i => HandleReady lib (clients.driver i) (requests i))
      (fun i => HandleSpent lib (replies i)) where
  ready_init _ _ := trivial
  not_spent i l w h := by
    cases l with
    | returned outcome => exact h.elim
    | _ => rfl
  spent i l b h := by
    cases l with
    | returned outcome => rfl
    | _ => exact h.elim
  ready_step i l w h := handleStep_ready h
  spent_step i l b w h := by
    cases l with
    | returned outcome => exact Or.inr (by rw [h]; rfl)
    | _ => exact h.elim
  steady i j l w h := by
    cases l with
    | received => trivial
    | calling p => exact h
    | issuing p c =>
      obtain ⟨hpost, hplan, hreached, hskip⟩ := h
      exact ⟨hpost, hplan, Plan.reached_steady hclients hreached _ _, hskip⟩
    | returned outcome => exact h.elim

end

section
variable {S Id : Type} [DecidableEq Id] {lib : Bsoncxx} {clients : Clients S Id}
  {requests : Id → Request} {replies : Id → Reply}

/-- A request that has not begun has had no access. -/
theorem notMem_order_of_received (hclients : clients.KeepsLookups) {w : World S}
    {schedule : List Id} {s : Serving S Id}
    (hex : exec (Serving.step lib clients requests replies) (Serving.begin w) schedule = some s)
    {i : Id} (hi : s.stage i = .running .received) : i ∉ s.order := by
  intro hmem
  have hserial := serial_of_exec (handle_oneAccess lib clients requests replies hclients) hex
  have hcomes := hserial.comes i hmem
  rw [hi] at hcomes
  exact hcomes

/-- Who has been answered has had its access, and got its answer there. -/
theorem answered (hclients : clients.KeepsLookups) {w : World S} {schedule : List Id}
    {s : Serving S Id}
    (hex : exec (Serving.step lib clients requests replies) (Serving.begin w) schedule = some s)
    {i : Id} {reply : Except Exn Reply} (hi : s.stage i = .finished reply) :
    i ∈ s.order ∧ reply = (handleAlone lib clients requests replies i
      (after (handleAlone lib clients requests replies) w (upTo s.order i))).1 := by
  have hserial := serial_of_exec (handle_oneAccess lib clients requests replies hclients) hex
  by_cases hmem : i ∈ s.order
  · have hcomes := hserial.comes i hmem
    rw [hi] at hcomes
    exact ⟨hmem, hcomes⟩
  · obtain ⟨l, hl, -⟩ := hserial.ready i hmem
    rw [hi] at hl
    cases hl

/-- **Requests that are handled at the same time are handled as if one after the other**: there
is an order of them, each in it once, such that the server is as after their `handle`s in that
order, and each answer is that of `handle` at its place. Who was answered before another one began
comes before it. -/
theorem requests_serializable (hclients : clients.KeepsLookups) (w : World S) (schedule : List Id)
    (s : Serving S Id)
    (hex : exec (Serving.step lib clients requests replies) (Serving.begin w) schedule = some s) :
    ∃ order : List Id, order.Nodup ∧
      s.shared = after (handleAlone lib clients requests replies) w order ∧
      (∀ i reply, s.stage i = .finished reply → i ∈ order ∧
        reply = (handleAlone lib clients requests replies i
          (after (handleAlone lib clients requests replies) w (upTo order i))).1) ∧
      ∀ pre post m i j reply, schedule = pre ++ post →
        exec (Serving.step lib clients requests replies) (Serving.begin w) pre = some m →
        m.stage i = .finished reply → m.stage j = .running .received → i ∈ upTo order j := by
  have hserial := serial_of_exec (handle_oneAccess lib clients requests replies hclients) hex
  refine ⟨s.order, hserial.nodup, hserial.shared, fun i reply hi => answered hclients hex hi, ?_⟩
  intro pre post m i j reply heq hpre hi hj
  rw [heq] at hex
  obtain ⟨m', hm', hpost⟩ := exec_append_some.1 hex
  obtain rfl := Option.some.inj (hpre.symm.trans hm')
  exact mem_upTo_grown (order_grows hpost) (answered hclients hpre hi).1
    (notMem_order_of_received hclients hpre hj)

end

def bothNames : Document :=
  [(text "name", .string (text "a")), (text "dbname", .string (text "a"))]

def bothNamesText : Bytes := text "\x7b\"name\":\"a\",\"dbname\":\"a\"\x7d"

/-- Create and delete of a database, with one body. -/
def createAndDelete (content : Bytes) : Bool → Request
  | true => postRequest (text "create") (text "db") content
  | false => postRequest (text "delete") (text "db") content

/-- The client of the second request's shard has not been constructed. -/
def oneWithoutClient : Clients Unit Bool where
  database i _ _ := if i then .ok () else .error (.driver (text "invalid client"))
  run i _ _ := (if i then .ok [] else .error (.driver (text "invalid client")), ())

theorem oneWithoutClient_keepsLookups : oneWithoutClient.KeepsLookups := fun _ _ _ _ _ h => h

/-- How the two are handled at the same time, step by step. -/
def handledTogether (schedule : List Bool) : Option (Serving Unit Bool) :=
  exec (Serving.step (.plain bothNamesText bothNames) oneWithoutClient
    (createAndDelete bothNamesText) fun _ => newReply) (Serving.begin ⟨(), []⟩) schedule

theorem requests_serializable_two : ∃ s order,
    handledTogether [true, false, true, false, true, false, true] = some s ∧
      order.Nodup ∧ s.shared = after (handleAlone (.plain bothNamesText bothNames) oneWithoutClient
        (createAndDelete bothNamesText) fun _ => newReply) ⟨(), []⟩ order := by
  obtain ⟨s, hex⟩ := Option.isSome_iff_exists.1
    (show (handledTogether [true, false, true, false, true, false, true]).isSome = true by
      decide +kernel)
  obtain ⟨order, hnodup, hshared, -⟩ :=
    requests_serializable oneWithoutClient_keepsLookups ⟨(), []⟩ _ s hex
  exact ⟨s, order, hex, hnodup, hshared⟩

end SeastarStarter
