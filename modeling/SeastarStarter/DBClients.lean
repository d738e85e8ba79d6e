import SeastarStarter.Bson
import SeastarStarter.ConnCreate
import SeastarStarter.Lib.Fut

/-!
# `DBClients` (INCLUDE/DB/DBClients.h:35-129)

`Process` is the state a start-up works on: the two flags of `db_clients`, and what has happened
so far to the sharded services. Which step fails on which shard is a parameter: an operation on
all shards happens on those where it does not fail, and its future fails with the exception of
one of the others. A sharded service whose `start` fails has been torn down again by `start`.
-/

namespace SeastarStarter

/-- The sharded services of the program. -/
inductive Service where
  | clients | mutexes | handlers | server
deriving DecidableEq

inductive Event (N : Nat) where
  /-- `start` has completed. -/
  | started (service : Service)
  /-- The client of shard `i` was made from the URI. -/
  | constructed (i : Fin N)
  /-- Shard `i` has written its CONN_LOG record. -/
  | recorded (i : Fin N)
  /-- The HTTP server of shard `i` listens. -/
  | listening (i : Fin N)
  /-- `stop` has run. -/
  | stopped (service : Service)
deriving DecidableEq

structure DBClients where
  failedToInit : Bool
  initialized : Bool

/-- `operator bool` (`:47`). -/
def DBClients.operatorBool (c : DBClients) : Bool := !c.failedToInit

structure Process (N : Nat) where
  dbClients : DBClients
  events : List (Event N)

/-- Before `main_fut`: `db_clients(false)`, and no service. -/
def Process.initial (N : Nat) : Process N := ⟨⟨false, false⟩, []⟩

/-- The exceptions of an operation on all shards. -/
abbrev Failures (N : Nat) := Fin N → Option Exn

/-- The exception that the future of the whole operation fails with. -/
def Failures.first {N : Nat} (failures : Failures N) : Option Exn :=
  (List.finRange N).findSome? failures

variable {N : Nat}

theorem Failures.first_eq_none {failures : Failures N} :
    failures.first = none ↔ ∀ i, failures i = none := by
  unfold Failures.first
  simp

/-! ## Operations on services -/

/-- These events happen; then the future fails, if there is an error. -/
def act (events : List (Event N)) (error : Option Exn) : Fut Exn (Process N) Unit := do
  Fut.modify fun p => { p with events := p.events ++ events }
  match error with
  | none => return
  | some e => throw e

/-- `service.start()` -/
def start (service : Service) (failures : Failures N) : Fut Exn (Process N) Unit :=
  act (if failures.first.isNone then [.started service] else []) failures.first

/-- `service.invoke_on_all(...)`: where it does not fail, `done` happens. -/
def invokeOnAll (failures : Failures N) (done : Fin N → Event N) : Fut Exn (Process N) Unit :=
  act (((List.finRange N).filter fun i => (failures i).isNone).map done) failures.first

/-- `service.stop()`: its instances are gone whether or not one of them failed to stop. -/
def stop (service : Service) (failures : Failures N) : Fut Exn (Process N) Unit :=
  act [.stopped service] failures.first

theorem run_act (events : List (Event N)) (error : Option Exn) (p : Process N) :
    (act events error).run p =
      (match error with | none => .ok () | some e => .error e,
        { p with events := p.events ++ events }) := by
  cases error <;> rfl

theorem run_act_bind (events : List (Event N)) (error : Option Exn)
    (k : Unit → Fut Exn (Process N) Unit) (p : Process N) :
    (act events error >>= k).run p =
      match error with
      | none => (k ()).run { p with events := p.events ++ events }
      | some e => (.error e, { p with events := p.events ++ events }) := by
  rw [Fut.run_bind, run_act]
  cases error <;> rfl

theorem Failures.exists_first {failures : Failures N} (h : ¬ ∀ i, failures i = none) :
    ∃ e, failures.first = some e := by
  rw [← Failures.first_eq_none] at h
  exact Option.ne_none_iff_exists'.1 h

/-- A service that starts is up for what follows. -/
theorem run_start_ok {service : Service} {failures : Failures N} (h : ∀ i, failures i = none)
    (k : Unit → Fut Exn (Process N) Unit) (p : Process N) :
    (start service failures >>= k).run p =
      (k ()).run { p with events := p.events ++ [.started service] } := by
  unfold start
  rw [run_act_bind, Failures.first_eq_none.2 h]
  rfl

/-- A service that does not start leaves nothing, and nothing follows. -/
theorem run_start_fails {service : Service} {failures : Failures N} (h : ¬ ∀ i, failures i = none)
    (k : Unit → Fut Exn (Process N) Unit) (p : Process N) :
    ((start service failures >>= k).run p).2 = p := by
  obtain ⟨e, he⟩ := Failures.exists_first h
  unfold start
  rw [run_act_bind, he]
  simp

theorem mem_invoked {failures : Failures N} {done : Fin N → Event N} {e : Event N} :
    e ∈ ((List.finRange N).filter fun i => (failures i).isNone).map done ↔
      ∃ i, failures i = none ∧ done i = e := by
  simp

/-! ## `Init` -/

/-- What fails in the three phases of `Init`. -/
structure InitFailures (N : Nat) where
  clientsStart : Failures N
  constructClient : Failures N
  connLog : Failures N

/-- `failed_to_init = true` -/
def setFailed : Fut Exn (Process N) Unit :=
  Fut.modify fun p => { p with dbClients := { p.dbClients with failedToInit := true } }

/-- `DBClients::Init` (`:64`). -/
def init (env : InitFailures N) : Fut Exn (Process N) Unit := do
  Fut.thenWrapped (start .clients env.clientsStart) fun f =>
    match f with
    | .error _ => setFailed
    | .ok _ =>
      Fut.thenWrapped (invokeOnAll env.constructClient .constructed) fun f =>
        match f with
        | .error _ => setFailed
        | .ok _ => invokeOnAll env.connLog .recorded
  Fut.modify fun p => { p with dbClients := { p.dbClients with initialized := true } }

/-- What `Init` does before it resolves. -/
def initEvents (env : InitFailures N) : List (Event N) :=
  match env.clientsStart.first with
  | some _ => []
  | none =>
    .started .clients ::
      (((List.finRange N).filter fun i => (env.constructClient i).isNone).map .constructed ++
        match env.constructClient.first with
        | some _ => []
        | none => ((List.finRange N).filter fun i => (env.connLog i).isNone).map .recorded)

/-- The flags after `Init`, and its outcome: the failures of the first two phases go into a flag
and no further, the third one's goes to the caller. -/
def initResult (env : InitFailures N) (c : DBClients) : Except Exn Unit × DBClients :=
  match env.clientsStart.first, env.constructClient.first, env.connLog.first with
  | none, none, none => (.ok (), { c with initialized := true })
  | none, none, some e => (.error e, c)
  | _, _, _ => (.ok (), ⟨true, true⟩)

theorem run_init (env : InitFailures N) (p : Process N) :
    (init env).run p = ((initResult env p.dbClients).1,
      ⟨(initResult env p.dbClients).2, p.events ++ initEvents env⟩) := by
  unfold init initResult initEvents start invokeOnAll
  rw [Fut.run_bind, Fut.run_thenWrapped, run_act]
  cases env.clientsStart.first with
  | some e => rfl
  | none =>
    dsimp only
    rw [Fut.run_thenWrapped, run_act]
    cases env.constructClient.first with
    | some e => simp [setFailed, Fut.run_modify]
    | none =>
      dsimp only
      rw [run_act]
      cases env.connLog.first with
      | some e => simp
      | none => simp

/-- `Init` fails exactly when its third phase is reached and fails. -/
theorem initResult_ok_iff {env : InitFailures N} {c : DBClients} :
    (∃ u, (initResult env c).1 = .ok u) ↔
      ((∀ i, env.clientsStart i = none) → (∀ i, env.constructClient i = none) →
        ∀ i, env.connLog i = none) := by
  unfold initResult
  rw [← Failures.first_eq_none, ← Failures.first_eq_none, ← Failures.first_eq_none]
  cases env.clientsStart.first <;> cases env.constructClient.first <;>
    cases env.connLog.first <;> simp

theorem started_mem_initEvents {env : InitFailures N} {service : Service} :
    .started service ∈ initEvents env ↔
      service = .clients ∧ ∀ i, env.clientsStart i = none := by
  unfold initEvents
  rw [← Failures.first_eq_none]
  cases env.clientsStart.first with
  | some e => simp
  | none => cases env.constructClient.first <;> simp

theorem constructed_mem_initEvents {env : InitFailures N} {i : Fin N} :
    .constructed i ∈ initEvents env ↔
      (∀ i, env.clientsStart i = none) ∧ env.constructClient i = none := by
  unfold initEvents
  rw [← Failures.first_eq_none]
  cases env.clientsStart.first with
  | some e => simp
  | none => cases env.constructClient.first <;> simp

theorem recorded_mem_initEvents {env : InitFailures N} {i : Fin N} :
    .recorded i ∈ initEvents env ↔
      (∀ i, env.clientsStart i = none) ∧ (∀ i, env.constructClient i = none) ∧
        env.connLog i = none := by
  unfold initEvents
  rw [← Failures.first_eq_none, ← Failures.first_eq_none]
  cases env.clientsStart.first with
  | some e => simp
  | none => cases env.constructClient.first <;> simp

/-- `Init` does not listen, and stops nothing. -/
theorem not_mem_initEvents (env : InitFailures N) :
    (∀ i, .listening i ∉ initEvents env) ∧ ∀ service, .stopped service ∉ initEvents env := by
  unfold initEvents
  cases env.clientsStart.first with
  | some e => simp
  | none => cases env.constructClient.first <;> simp

/-! ## What the flags say once `Init` has resolved -/

def InitFailures.AllSucceed (env : InitFailures N) : Prop :=
  (∀ i, env.clientsStart i = none) ∧ (∀ i, env.constructClient i = none) ∧ ∀ i, env.connLog i = none

/-- The first phase that fails is the third. -/
def InitFailures.ThirdFails (env : InitFailures N) : Prop :=
  (∀ i, env.clientsStart i = none) ∧ (∀ i, env.constructClient i = none) ∧ ¬ ∀ i, env.connLog i = none

/-- `operator bool` after `Init`: a failure of the third phase goes past the flag. -/
theorem init_operatorBool (env : InitFailures N) :
    ((init env).run (Process.initial N)).2.dbClients.operatorBool = true ↔
      env.AllSucceed ∨ env.ThirdFails := by
  rw [run_init]
  unfold initResult DBClients.operatorBool InitFailures.AllSucceed InitFailures.ThirdFails
  rw [← Failures.first_eq_none, ← Failures.first_eq_none, ← Failures.first_eq_none]
  cases env.clientsStart.first <;> cases env.constructClient.first <;>
    cases env.connLog.first <;> simp [Process.initial]

/-- `initialized` after `Init`: it is the outcome of the future, and that hides two failures of
three. -/
theorem init_initialized (env : InitFailures N) :
    ((init env).run (Process.initial N)).2.dbClients.initialized = true ↔ ¬ env.ThirdFails := by
  rw [run_init]
  unfold initResult InitFailures.ThirdFails
  rw [← Failures.first_eq_none, ← Failures.first_eq_none, ← Failures.first_eq_none]
  cases env.clientsStart.first <;> cases env.constructClient.first <;>
    cases env.connLog.first <;> simp [Process.initial]

/-- The flags tell whether `Init` worked, both of them. -/
structure StatusExact (env : InitFailures N) (c : DBClients) : Prop where
  operatorBool : c.operatorBool = true ↔ env.AllSucceed
  initialized : c.initialized = true ↔ c.operatorBool = true

/-- **When the status is exact.** Only where nothing fails: a failure of the third phase leaves
`operator bool` true, and one of the first two sets `initialized` all the same. -/
theorem statusExact_init_iff (env : InitFailures N) :
    StatusExact env ((init env).run (Process.initial N)).2.dbClients ↔ env.AllSucceed := by
  have hbool := init_operatorBool env
  have hinit := init_initialized env
  constructor
  · intro h
    by_cases hthird : env.ThirdFails
    · exact h.operatorBool.1 (hbool.2 (Or.inr hthird))
    · exact h.operatorBool.1 (h.initialized.1 (hinit.2 hthird))
  · intro hall
    have hthird : ¬ env.ThirdFails := fun h => h.2.2 hall.2.2
    refine ⟨iff_of_true (hbool.2 (Or.inl hall)) hall, ?_⟩
    exact iff_of_true (hinit.2 hthird) (hbool.2 (Or.inl hall))

/-- One shard, whose CONN_LOG step fails: `operator bool` says that the clients are usable. -/
theorem not_always_statusExact :
    ¬ ∀ N, ∀ env : InitFailures N,
      StatusExact env ((init env).run (Process.initial N)).2.dbClients := by
  intro h
  have hexact := h 1 ⟨fun _ => none, fun _ => none, fun _ => some (.driver (text "not writable"))⟩
  have hlog := (hexact.operatorBool.1 rfl).2.2 0
  cases hlog

/-! ## The third phase is the CONN_LOG step -/

/-- The shards on which a run of the CONN_LOG step failed. -/
def ConnInit.failures (s : ConnInit N) (what : Bytes) : Failures N :=
  fun i => if s.pc i = .failed then some (.driver what) else none

/-- Behind two phases without a failure, `Init` resolves normally exactly when each shard that
found CONN_LOG absent checked alone. -/
theorem init_ok_iff_checksAlone {env : InitFailures N} {earlier : Option (List String)}
    {order : List (Fin N)} {s : ConnInit N} {what : Bytes}
    (hstart : ∀ i, env.clientsStart i = none) (hconstruct : ∀ i, env.constructClient i = none)
    (hrun : Lts.exec ConnInit.step (ConnInit.start earlier) (ConnInit.correctRun order) = some s)
    (hstuck : ∀ i, ConnInit.step s (.run i) = none) (hlog : env.connLog = s.failures what)
    (p : Process N) :
    (∃ u, ((init env).run p).1 = .ok u) ↔
      Lts.Along ConnInit.step ConnInit.ChecksAlone (ConnInit.start earlier)
        (ConnInit.correctRun order) := by
  rw [run_init, initResult_ok_iff, ← ConnInit.all_done_iff hrun hstuck, hlog]
  constructor
  · intro h i
    refine (ConnInit.ended_of_stuck (hstuck i)).resolve_right fun hfailed => ?_
    have hi := h hstart hconstruct i
    rw [ConnInit.failures, if_pos hfailed] at hi
    cases hi
  · intro hdone _ _ i
    exact if_neg (by rw [hdone i]; decide)

end SeastarStarter
