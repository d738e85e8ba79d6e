import SeastarStarter.Restarts
import SeastarStarter.Shutdown

/-!
# When the program comes to serve

`main_fut_ends` leaves two ends for a run without a signal: `main_fut` waits for one, or it is
over. `serves_iff` says which, from what fails: it waits, with every shard taking requests, exactly
when no step of the start-up throws. The first two phases of `Init` never throw, whatever fails in
them. With what CONN_LOG does over restarts: a start that finds a CONN_LOG serves, with its database
(`relaunch_serves`).
-/

namespace SeastarStarter
namespace Lifecycle

open Lts

variable {sea : Seastar} {N : Nat} {env : MainFailures N} {s s' : State sea N}

/-- No step of the start-up throws. -/
structure ComesUp (env : MainFailures N) : Prop where
  connLog : (∀ i, env.init.clientsStart i = none) → (∀ i, env.init.constructClient i = none) →
    ∀ i, env.init.connLog i = none
  mutexStart : ∀ i, env.mutexStart i = none
  handlersStart : ∀ i, env.handlersStart i = none
  serverStart : ∀ i, env.serverStart i = none
  setRoutes : ∀ i, env.setRoutes i = none
  listen : ∀ i, env.listen i = none

/-- What is awaited at a point does not throw. -/
def Pc.CodeOk (env : MainFailures N) (pc : Pc N) : Prop :=
  ∀ p, ∃ u, ((pc.code env).run p).1 = .ok u

/-- Whether it throws does not depend on what has happened before. -/
theorem codeOk_of_ok {pc : Pc N} {p : Process N} (h : ∃ u, ((pc.code env).run p).1 = .ok u) :
    pc.CodeOk env := by
  intro p'
  cases pc with
  | init =>
    simp only [Pc.code, run_init] at h ⊢
    rw [initResult_ok_iff] at h ⊢
    exact h
  | begin | ended => exact ⟨(), rfl⟩
  | _ => simpa [Pc.code, start, stop, run_act] using h

theorem codeOk_init : (Pc.init : Pc N).CodeOk env ↔
    ((∀ i, env.init.clientsStart i = none) → (∀ i, env.init.constructClient i = none) →
      ∀ i, env.init.connLog i = none) := by
  constructor
  · intro h
    have hok := h (Process.initial N)
    rwa [Pc.code, run_init, initResult_ok_iff] at hok
  · intro h p
    rwa [Pc.code, run_init, initResult_ok_iff]

theorem act_ok_iff {events : List (Event N)} {failures : Failures N} :
    (∀ p, ∃ u, ((act events failures.first).run p).1 = .ok u) ↔ ∀ i, failures i = none := by
  rw [← Failures.first_eq_none]
  constructor
  · intro h
    obtain ⟨u, hu⟩ := h (Process.initial N)
    rw [run_act] at hu
    cases hfirst : failures.first with
    | none => rfl
    | some e => simp [hfirst] at hu
  · intro h p
    rw [h]
    exact ⟨(), rfl⟩

/-- The points of the start-up, in their order. -/
def startUp (N : Nat) : List (Pc N) := [.init, .mutexes, .handlers, .server, .routes, .listen ∅]

/-- How many of them have been passed at a point. -/
def Pc.rank : Pc N → Nat
  | .mutexes => 1
  | .handlers => 2
  | .server => 3
  | .routes => 4
  | .listen _ => 5
  | .waiting => 6
  | _ => 0

/-- Nothing that has been passed has thrown. -/
def Pc.Passed (env : MainFailures N) (pc : Pc N) : Prop :=
  ∀ q ∈ (startUp N).take pc.rank, q.CodeOk env

theorem comesUp_iff : ComesUp env ↔ ∀ pc ∈ startUp N, pc.CodeOk env := by
  simp only [startUp, List.forall_mem_cons, List.not_mem_nil, false_imp_iff, implies_true, and_true]
  constructor
  · rintro ⟨hlog, hmutex, hhandlers, hserver, hroutes, hlisten⟩
    exact ⟨codeOk_init.2 hlog, act_ok_iff.2 hmutex, act_ok_iff.2 hhandlers, act_ok_iff.2 hserver,
      act_ok_iff.2 hroutes, act_ok_iff.2 hlisten⟩
  · rintro ⟨hlog, hmutex, hhandlers, hserver, hroutes, hlisten⟩
    exact ⟨codeOk_init.1 hlog, act_ok_iff.1 hmutex, act_ok_iff.1 hhandlers, act_ok_iff.1 hserver,
      act_ok_iff.1 hroutes, act_ok_iff.1 hlisten⟩

theorem passed_waiting : (Pc.waiting : Pc N).Passed env ↔ ComesUp env := by
  rw [comesUp_iff]
  rfl

theorem passed_next {pc : Pc N} (h : pc.Passed env) (hok : pc.CodeOk env) : pc.next.Passed env := by
  cases pc with
  | begin | waiting | serverStop uncalled left | handlersStop | ended =>
    exact fun q hq => by cases hq
  | init => simp [Pc.Passed, Pc.next, Pc.rank, startUp, hok]
  | mutexes | handlers | server | routes =>
    simpa [Pc.Passed, Pc.next, Pc.rank, startUp, hok] using h
  | listen left =>
    have hok : (Pc.listen ∅ : Pc N).CodeOk env := hok
    simpa [Pc.Passed, Pc.next, Pc.rank, startUp, hok] using h

/-- The shards that take requests at a point. -/
def Pc.Open (env : MainFailures N) : Pc N → Fin N → Prop
  | .listen left, i => i ∉ left ∧ env.listen i = none
  | .waiting, _ => True
  | _, _ => False

/-- `server->stop()` has not been called at a point. -/
def Pc.unstopped : Pc N → Bool
  | .serverStop .. | .handlersStop | .ended => false
  | _ => true

theorem Pc.unstopped_of_open {pc : Pc N} {i : Fin N} (h : pc.Open env i) : pc.unstopped = true := by
  cases pc <;> first | rfl | exact h.elim

theorem Pc.unstopped_of_next {pc : Pc N} (h : pc.next.unstopped = true) : pc.unstopped = true := by
  cases pc <;> first | rfl | cases h

/-- What `Init` has left in the process. -/
structure InitDone (env : MainFailures N) (p : Process N) : Prop where
  dbClients : p.dbClients = (initResult env.init (Process.initial N).dbClients).2
  events : ∀ e ∈ initEvents env.init, e ∈ p.events

theorem InitDone.grow {p p' : Process N} (h : InitDone env p) (hclients : p'.dbClients = p.dbClients)
    (hevents : ∀ e ∈ p.events, e ∈ p'.events) : InitDone env p' :=
  ⟨hclients.trans h.dbClients, fun e he => hevents e (h.events e he)⟩

/-- What `Init` has done for as long as the process runs. -/
structure Begun (env : MainFailures N) (s : State sea N) : Prop where
  fresh : s.pc = .begin ∨ s.pc = .init → s.process = Process.initial N
  database : s.pc ≠ .begin → s.pc ≠ .init → InitDone env s.process

/-- Where `main_fut` stands tells what has succeeded. -/
structure Up (env : MainFailures N) (s : State sea N) : Prop where
  passed : s.pc.Passed env
  ended : s.pc = .ended → s.signals.caught 0 = true ∨ ¬ ComesUp env
  unstopped : s.pc.unstopped = true → ∀ i, sea.stopping (s.servers i) = false
  accepting : ∀ i, s.pc.Open env i → s.accepting i = true

theorem begun_initial : Begun env (initial sea N) := ⟨fun _ => rfl, fun h => absurd rfl h⟩

theorem up_initial (hlistens : sea.KeepsListening) : Up env (initial sea N) :=
  ⟨nofun, nofun, fun _ _ => hlistens.atStart, fun _ => False.elim⟩

/-- No code but that of `Init` touches `db_clients`. -/
theorem dbClients_code {pc : Pc N} (hpc : pc ≠ .init) (p : Process N) :
    ((pc.code env).run p).2.dbClients = p.dbClients := by
  cases pc with
  | init => exact absurd rfl hpc
  | _ => simp [Pc.code, start, stop, run_act]

theorem initDone_code (env : MainFailures N) :
    InitDone env (((Pc.init : Pc N).code env).run (Process.initial N)).2 := by
  rw [Pc.code, run_init]
  exact ⟨rfl, fun e he => List.mem_append_right _ he⟩

theorem Begun.step_main (h : Begun env s) (hstep : step env s .main = some s') : Begun env s' := by
  obtain ⟨-, pc, -, hs', hpc⟩ := main_cases hstep
  have hspc : s'.pc = pc := by rw [hs']
  have hprocess : s'.process = ((s.pc.code env).run s.process).2 := by rw [hs']
  refine ⟨fun hfresh => ?_, fun hbegin hinit => ?_⟩
  · have hp : s.pc = .begin := by
      rw [hspc] at hfresh
      rcases hpc with ⟨-, rfl⟩ | ⟨-, rfl⟩
      · cases hp : s.pc <;> simp [hp, Pc.next] at hfresh ⊢
      · simp at hfresh
    rw [hprocess, hp, h.fresh (Or.inl hp)]
    rfl
  · rw [hprocess]
    by_cases hp : s.pc = .init
    · rw [hp, h.fresh (Or.inr hp)]
      exact initDone_code env
    · have hnotbegin : s.pc ≠ .begin := by
        intro hp'
        rw [hspc] at hinit
        rcases hpc with ⟨-, rfl⟩ | ⟨⟨e, he⟩, -⟩
        · exact hinit (by rw [hp']; rfl)
        · rw [hp'] at he
          cases he
      refine (h.database hnotbegin hp).grow (dbClients_code hp _) fun e he => ?_
      rw [events_code]
      exact List.mem_append_left _ he

theorem Begun.step (h : Begun env s) {a : Act N} (hstep : Lifecycle.step env s a = some s') :
    Begun env s' := by
  cases a with
  | main => exact h.step_main hstep
  | shard i =>
    rcases shard_cases hstep with ⟨left, hpc, -, -, rfl⟩ | ⟨left, hpc, -, -, rfl⟩ |
      ⟨uncalled, left, hpc, -, rfl⟩ | ⟨uncalled, left, hpc, -, -, -, rfl⟩
    all_goals
      have hdone := h.database (by rw [hpc]; nofun) (by rw [hpc]; nofun)
      refine ⟨by simp, fun _ _ => hdone.grow rfl fun e he => ?_⟩
    · exact List.mem_append_left _ he
    all_goals exact he
  | _ =>
    obtain ⟨hpc, hprocess⟩ := stays_of_step hstep nofun nofun
    refine ⟨?_, ?_⟩
    · rw [hpc, hprocess]
      exact h.fresh
    · rw [hpc, hprocess]
      exact h.database

theorem begun_of_exec {acts : List (Act N)}
    (hex : exec (Lifecycle.step env) (initial sea N) acts = some s) : Begun env s :=
  exec_invariant (fun _ _ _ h hstep => h.step hstep) begun_initial hex

/-- `main_fut` gets to its end through a signal, or through a step of the start-up that throws. -/
theorem ended_of_main (ht : Tracks s) (hready : s.ready = true)
    (hend : ((∃ u, ((s.pc.code env).run s.process).1 = .ok u) ∧ (.ended : Pc N) = s.pc.next) ∨
      ∃ e, ((s.pc.code env).run s.process).1 = .error e) :
    s.signals.caught 0 = true ∨ ¬ ComesUp env := by
  rcases hend with ⟨-, hnext⟩ | ⟨e, he⟩
  · cases hpc : s.pc with
    | handlersStop => exact Or.inl (ht.caught_of_stop (Or.inr hpc))
    | ended => simp [State.ready, hpc] at hready
    | _ => simp [hpc, Pc.next] at hnext
  · have hthrows : ∀ q ∈ startUp N, q.code env = s.pc.code env → ¬ ComesUp env := by
      intro q hq hcode hup
      obtain ⟨u, hu⟩ := comesUp_iff.1 hup q hq s.process
      rw [hcode, he] at hu
      cases hu
    cases hpc : s.pc with
    | begin =>
      rw [hpc] at he
      cases he
    | waiting =>
      obtain ⟨acts, -, htells, -⟩ := ht.history
      have hresolved : s.wait = some (0, .resolved) := by simpa [State.ready, hpc] using hready
      exact Or.inl (htells.resolved 0 0 hresolved)
    | serverStop uncalled left =>
      exact Or.inl (ht.caught_of_stop (Or.inl ⟨uncalled, left, hpc⟩))
    | handlersStop => exact Or.inl (ht.caught_of_stop (Or.inr hpc))
    | ended => simp [State.ready, hpc] at hready
    | listen left => exact Or.inr (hthrows (.listen ∅) (by simp [startUp]) (by rw [hpc]; rfl))
    | init => exact Or.inr (hthrows .init (by simp [startUp]) (by rw [hpc]))
    | mutexes => exact Or.inr (hthrows .mutexes (by simp [startUp]) (by rw [hpc]))
    | handlers => exact Or.inr (hthrows .handlers (by simp [startUp]) (by rw [hpc]))
    | server => exact Or.inr (hthrows .server (by simp [startUp]) (by rw [hpc]))
    | routes => exact Or.inr (hthrows .routes (by simp [startUp]) (by rw [hpc]))

theorem Up.step_main (h : Up env s) (ht : Tracks s) (hstep : step env s .main = some s') :
    Up env s' := by
  obtain ⟨hready, pc, -, hs', hpc⟩ := main_cases hstep
  have hspc : s'.pc = pc := by rw [hs']
  have haccepting : s'.accepting = s.accepting := by
    rw [hs']
    rfl
  have hcaught : s.signals.caught 0 = true → s'.signals.caught 0 = true := fun hc =>
    (caught_step ht hstep).2 (Or.inl hc)
  refine ⟨?_, fun hend => ?_, fun hlate i => ?_, fun i hi => ?_⟩
  · rw [hspc]
    rcases hpc with ⟨hok, rfl⟩ | ⟨-, rfl⟩
    · exact passed_next h.passed (codeOk_of_ok hok)
    · exact fun q hq => by cases hq
  · refine (ended_of_main ht hready ?_).imp_left hcaught
    rw [hspc] at hend
    subst hend
    rcases hpc with ⟨hok, hnext⟩ | ⟨he, -⟩
    · exact Or.inl ⟨hok, hnext⟩
    · exact Or.inr he
  · rw [hs']
    rw [hspc] at hlate
    rcases hpc with ⟨-, rfl⟩ | ⟨-, rfl⟩
    · exact h.unstopped (Pc.unstopped_of_next hlate) i
    · cases hlate
  · rw [haccepting]
    rw [hspc] at hi
    rcases hpc with ⟨hok, rfl⟩ | ⟨-, rfl⟩
    · cases hp : s.pc with
      | listen left =>
        -- `listen` has come to its end on all shards, and thrown on none
        have hleft : left = ∅ := by simpa [State.ready, hp] using hready
        rw [hp] at hok
        have hlisten : ∀ i, env.listen i = none := act_ok_iff.1 (codeOk_of_ok hok)
        exact h.accepting i (by rw [hp]; exact ⟨by simp [hleft], hlisten i⟩)
      | routes =>
        rw [hp] at hi
        exact absurd (Finset.mem_univ i) hi.1
      | _ =>
        rw [hp] at hi
        exact hi.elim
    · exact hi.elim

theorem Up.step_shard (hlistens : sea.KeepsListening) (h : Up env s) {i : Fin N}
    (hstep : step env s (.shard i) = some s') : Up env s' := by
  rcases shard_cases hstep with ⟨left, hpc, hi, hok, rfl⟩ | ⟨left, hpc, hi, hfails, rfl⟩ |
    ⟨uncalled, left, -, -, rfl⟩ | ⟨uncalled, left, -, -, -, -, rfl⟩
  · have hpassed := h.passed
    rw [hpc] at hpassed
    have hunstopped := h.unstopped (by rw [hpc]; rfl)
    refine ⟨hpassed, fun hend => (by cases hend), fun _ j => ?_, fun j hj => ?_⟩
    · by_cases hji : j = i
      · subst hji
        simp [State.setServer, (hlistens.listen _).2, hunstopped]
      · simp [State.setServer, hji, hunstopped]
    by_cases hji : j = i
    · subst hji
      simp [State.accepting, State.setServer, (hlistens.listen _).1]
    · have hj' : j ∉ left := by simpa [hji] using hj.1
      simpa [State.accepting, State.setServer, hji] using
        h.accepting j (by rw [hpc]; exact ⟨hj', hj.2⟩)
  · have hpassed := h.passed
    rw [hpc] at hpassed
    refine ⟨hpassed, fun hend => (by cases hend), fun _ => h.unstopped (by rw [hpc]; rfl),
      fun j hj => ?_⟩
    have hji : j ≠ i := by
      rintro rfl
      exact hfails hj.2
    have hj' : j ∉ left := by simpa [hji] using hj.1
    exact h.accepting j (by rw [hpc]; exact ⟨hj', hj.2⟩)
  · exact ⟨fun q hq => (by cases hq), fun hend => (by cases hend), fun hlate => (by cases hlate),
      fun j hj => hj.elim⟩
  · exact ⟨fun q hq => (by cases hq), fun hend => (by cases hend), fun hlate => (by cases hlate),
      fun j hj => hj.elim⟩

/-- What leaves `main_fut` where it is, stops no server, and closes none before it is stopped. -/
theorem Up.frame (h : Up env s) (hpc : s'.pc = s.pc)
    (hservers : ∀ i, sea.stopping (s'.servers i) = sea.stopping (s.servers i) ∧
      (sea.stopping (s.servers i) = false → s.accepting i = true → s'.accepting i = true))
    (hcaught : s.signals.caught 0 = true → s'.signals.caught 0 = true) : Up env s' := by
  refine ⟨by rw [hpc]; exact h.passed, fun hend => ?_, fun hlate i => ?_, fun i hi => ?_⟩
  · exact (h.ended (hpc ▸ hend)).imp_left hcaught
  · rw [(hservers i).1]
    exact h.unstopped (hpc ▸ hlate) i
  · have hopen : s.pc.Open env i := hpc ▸ hi
    exact (hservers i).2 (h.unstopped (Pc.unstopped_of_open hopen) i) (h.accepting i hopen)

theorem Up.step (hlistens : sea.KeepsListening) (h : Up env s) (ht : Tracks s) {a : Act N}
    (hstep : Lifecycle.step env s a = some s') : Up env s' := by
  have hcaught : s.signals.caught 0 = true → s'.signals.caught 0 = true := fun hc =>
    (caught_step ht hstep).2 (Or.inl hc)
  cases a with
  | main => exact h.step_main ht hstep
  | shard i => exact h.step_shard hlistens hstep
  | resume =>
    obtain ⟨-, hs'⟩ := resume_some hstep
    exact h.frame (by rw [hs']) (fun i => by rw [hs']; exact ⟨rfl, fun _ => id⟩) hcaught
  | signal sig =>
    obtain ⟨-, hs'⟩ := signal_some hstep
    exact h.frame (by rw [hs']) (fun i => by rw [hs']; exact ⟨rfl, fun _ => id⟩) hcaught
  | accept i =>
    obtain ⟨-, server, htake, rfl⟩ := accept_some hstep
    obtain ⟨hstopping, hopen⟩ := hlistens.take _ _ htake
    refine h.frame rfl (fun j => ?_) hcaught
    by_cases hji : j = i
    · subst hji
      simp only [State.accepting, State.setServer, Function.update_self]
      exact ⟨hstopping, fun hcalm _ => hopen hcalm⟩
    · simp [State.accepting, State.setServer, hji]
  | answer i =>
    obtain ⟨-, server, hreply, rfl⟩ := answer_some hstep
    obtain ⟨hstopping, hopen⟩ := hlistens.reply _ _ hreply
    refine h.frame rfl (fun j => ?_) hcaught
    by_cases hji : j = i
    · subst hji
      simp only [State.accepting, State.setServer, Function.update_self]
      exact ⟨hstopping, fun hcalm haccepts => (hopen hcalm).trans haccepts⟩
    · simp [State.accepting, State.setServer, hji]

theorem up_of_exec (hsignals : sea.HandlesSignals) (hwakes : sea.WakesWaiters)
    (hlistens : sea.KeepsListening) {acts : List (Act N)}
    (hex : exec (Lifecycle.step env) (initial sea N) acts = some s) : Up env s := by
  have h : Tracks s ∧ Up env s :=
    exec_invariant (I := fun s => Tracks s ∧ Up env s)
      (fun _ _ _ h hstep => ⟨h.1.step hsignals hwakes hstep, h.2.step hlistens h.1 hstep⟩)
      ⟨tracks_initial hsignals hwakes, up_initial hlistens⟩ hex
  exact h.2

/-- Without a signal no server is told to stop: `main_fut` waits for the signal, or it is over. -/
theorem waits_or_ended (hsignals : sea.HandlesSignals) (hwakes : sea.WakesWaiters)
    {acts : List (Act N)} (hex : exec (step env) (initial sea N) acts = some s)
    (hsignal : ¬ Signalled sea env acts)
    (hstuck : ∀ a : Act N, a.internal = true → step env s a = none) :
    s.pc = .ended ∨ s.pc = .waiting := by
  have htracks := tracks_of_exec hsignals hwakes hex
  rcases stuck_cases htracks hstuck with hended | ⟨hwaiting, -⟩ | ⟨uncalled, left, -, hpc, -⟩
  · exact Or.inl hended
  · exact Or.inr hwaiting
  · have hcaught := htracks.caught_of_stop (Or.inl ⟨uncalled, left, hpc⟩)
    exact absurd ((caught_iff hsignals hwakes hex).1 hcaught) hsignal

/-- Without a signal, only a start-up that throws comes to the end. -/
theorem not_comesUp_of_ended (hsignals : sea.HandlesSignals) (hwakes : sea.WakesWaiters)
    {acts : List (Act N)} (hex : exec (step env) (initial sea N) acts = some s)
    (hsignal : ¬ Signalled sea env acts) (hup : Up env s) (hpc : s.pc = .ended) :
    ¬ ComesUp env :=
  (hup.ended hpc).resolve_left fun hcaught =>
    hsignal ((caught_iff hsignals hwakes hex).1 hcaught)

/-- **When the program comes to serve.** In every run in which no signal has arrived since
`main_fut` began, the steps of `main_fut`, the shards and the requests are bounded by the number of
shards and of requests taken. Once none of them is left: `main_fut` waits for the signal, and every
shard takes requests, exactly when no step of the start-up throws; otherwise `main_fut` is over. -/
theorem serves_iff (hsignals : sea.HandlesSignals) (hwakes : sea.WakesWaiters)
    (hdrains : sea.Drains) (hlistens : sea.KeepsListening) {acts : List (Act N)}
    (hex : exec (step env) (initial sea N) acts = some s) (hsignal : ¬ Signalled sea env acts) :
    acts.countP Act.internal ≤ 3 * N + 11 + acts.countP Act.isAccept ∧
      ((∀ a : Act N, a.internal = true → step env s a = none) →
        ((s.pc = .waiting ∧ ∀ i, s.accepting i = true) ↔ ComesUp env) ∧
          (s.pc = .ended ↔ ¬ ComesUp env)) := by
  refine ⟨internal_le hsignals hwakes hdrains hex, fun hstuck => ?_⟩
  have hup := up_of_exec hsignals hwakes hlistens hex
  have hended := not_comesUp_of_ended hsignals hwakes hex hsignal hup
  have hwaiting : s.pc = .waiting → ComesUp env := by
    intro hpc
    rw [← passed_waiting, ← hpc]
    exact hup.passed
  rcases waits_or_ended hsignals hwakes hex hsignal hstuck with hpc | hpc
  · refine ⟨iff_of_false ?_ (hended hpc), iff_of_true hpc (hended hpc)⟩
    rintro ⟨hpc', -⟩
    rw [hpc] at hpc'
    cases hpc'
  · refine ⟨iff_of_true ⟨hpc, fun i => hup.accepting i (by rw [hpc]; trivial)⟩ (hwaiting hpc),
      iff_of_false ?_ (not_not.2 (hwaiting hpc))⟩
    rw [hpc]
    nofun

/-- Two shards come to serve, and one of them takes a request meanwhile. -/
def firstStart : List (Act 2) :=
  let first := (Fin.last 0).castSucc
  let second := Fin.last 1
  List.replicate 6 .main ++ [.shard second, .accept second, .shard first, .answer second, .main]

/-- It is where nothing goes on by itself. -/
theorem firstStart_rests : ∃ s, exec (step (noFailures 2)) (initial .plain 2) firstStart = some s ∧
    ¬ Signalled .plain (noFailures 2) firstStart ∧
    ∀ a : Act 2, a.internal = true → step (noFailures 2) s a = none := by
  obtain ⟨s, hex, hs⟩ := Option.map_eq_some_iff.1
    (show (exec (step (noFailures 2)) (initial .plain 2) firstStart).map
      (fun s => (s.pc, s.wait, s.inFlight 0, s.inFlight 1, s.signals.caught 0)) =
        some (.waiting, some (0, .queued), 0, 0, false) by decide +kernel)
  obtain ⟨hpc, hwait, hflight, hflight', hcaught⟩ := by simpa only [Prod.mk.injEq] using hs
  have hready : s.ready = false := by simp [State.ready, hpc, hwait]
  have hnone : ∀ i, s.inFlight i = 0 := Fin.forall_fin_two.2 ⟨hflight, hflight'⟩
  refine ⟨s, hex, ?_, fun a ha => ?_⟩
  · rw [← caught_iff Seastar.plain_handlesSignals Seastar.plain_wakesWaiters hex, hcaught]
    exact Bool.false_ne_true
  · cases a with
    | main => simp [step, hready]
    | shard i => simp [step, shardStep, hpc]
    | resume =>
      have hfuture : Seastar.plain.future s.signals.conditions 0 = some (0, .queued) := hwait
      simp [step, StopSignal.step, hfuture]
    | answer i =>
      have hreply : Seastar.plain.reply (s.servers i) = none := if_pos (hnone i)
      simp [step, hpc, hreply]
    | signal sig => cases ha
    | accept i => cases ha

theorem serves_iff_first : ∃ s : State .plain 2, s.pc = .waiting ∧ ∀ i, s.accepting i = true := by
  obtain ⟨s, hex, hsignal, hstuck⟩ := firstStart_rests
  have hup : ComesUp (noFailures 2) :=
    ⟨fun _ _ _ => rfl, fun _ => rfl, fun _ => rfl, fun _ => rfl, fun _ => rfl, fun _ => rfl⟩
  exact ⟨s, ((serves_iff Seastar.plain_handlesSignals Seastar.plain_wakesWaiters
    Seastar.plain_drains Seastar.plain_keepsListening hex hsignal).2 hstuck).1.2 hup⟩

/-! ## A start that finds CONN_LOG -/

/-- Nothing in the start-up fails but, perhaps, the CONN_LOG step. -/
structure OnlyConnLog (env : MainFailures N) : Prop where
  clientsStart : ∀ i, env.init.clientsStart i = none
  constructClient : ∀ i, env.init.constructClient i = none
  mutexStart : ∀ i, env.mutexStart i = none
  handlersStart : ∀ i, env.handlersStart i = none
  serverStart : ∀ i, env.serverStart i = none
  setRoutes : ∀ i, env.setRoutes i = none
  listen : ∀ i, env.listen i = none

/-- Where `Init` has been through its three phases on every shard. -/
theorem InitDone.succeeded {p : Process N} (h : InitDone env p)
    (hclients : ∀ i, env.init.clientsStart i = none)
    (hconstruct : ∀ i, env.init.constructClient i = none) (hlog : ∀ i, env.init.connLog i = none) :
    InitSucceeded p.events ∧ p.dbClients = ⟨false, true⟩ := by
  refine ⟨⟨?_, fun i => ?_, fun i => ?_⟩, ?_⟩
  · exact h.events _ (started_mem_initEvents.2 ⟨rfl, hclients⟩)
  · exact h.events _ (constructed_mem_initEvents.2 ⟨hclients, hconstruct i⟩)
  · exact h.events _ (recorded_mem_initEvents.2 ⟨hclients, hconstruct, hlog i⟩)
  · rw [h.dbClients, initResult, Failures.first_eq_none.2 hclients,
      Failures.first_eq_none.2 hconstruct, Failures.first_eq_none.2 hlog]
    rfl

/-- **A later start serves, with its database.** Once there is a CONN_LOG, whatever launches have
come and gone since: a start whose database server answers correctly, and in which nothing else
fails, takes at most five statements of each shard in the CONN_LOG step and, without a signal, as
many steps as `serves_iff` says; and in every interleaving of the shards in that step and of
`main_fut`, its shards and requests it comes to wait for the stop signal, with all shards taking
requests, all phases of `Init` behind every shard, and the flags of `db_clients` saying so. -/
theorem relaunch_serves (hsignals : sea.HandlesSignals) (hwakes : sea.WakesWaiters)
    (hdrains : sea.Drains) (hlistens : sea.KeepsListening) (v v' : Server) (launches : List Launch) (hfound : v.connLog.isSome)
    (hlaunches : exec ConnInit.launch v launches = some v') (order : List (Fin N))
    (c : ConnInit N)
    (hconn : exec ConnInit.step (ConnInit.start v'.shardIds) (ConnInit.correctRun order) = some c)
    (hend : ∀ i, ConnInit.step c (.run i) = none) (what : Bytes)
    (hlog : env.init.connLog = c.failures what) (hothers : OnlyConnLog env) (acts : List (Act N))
    (hex : exec (step env) (initial sea N) acts = some s) (hsignal : ¬ Signalled sea env acts) :
    (∀ i, order.count i ≤ 5) ∧
    acts.countP Act.internal ≤ 3 * N + 11 + acts.countP Act.isAccept ∧
      ((∀ a : Act N, a.internal = true → step env s a = none) →
        s.pc = .waiting ∧ (∀ i, s.accepting i = true) ∧ InitSucceeded s.process.events ∧
          s.process.dbClients = ⟨false, true⟩) := by
  refine ⟨ConnInit.count_le_of_run hconn, internal_le hsignals hwakes hdrains hex,
    fun hstuck => ?_⟩
  have hdone := ConnInit.done_of_isSome (ConnInit.isSome_of_launches hfound hlaunches) hconn hend
  have hnone : ∀ i, env.init.connLog i = none := by
    intro i
    rw [hlog]
    exact if_neg (by rw [hdone i]; decide)
  have hup := up_of_exec hsignals hwakes hlistens hex
  have hcomes : ComesUp env := ⟨fun _ _ => hnone, hothers.mutexStart, hothers.handlersStart,
    hothers.serverStart, hothers.setRoutes, hothers.listen⟩
  have hpc : s.pc = .waiting :=
    (waits_or_ended hsignals hwakes hex hsignal hstuck).resolve_left fun hpc =>
      not_comesUp_of_ended hsignals hwakes hex hsignal hup hpc hcomes
  have hinit := (begun_of_exec hex).database (by rw [hpc]; nofun) (by rw [hpc]; nofun)
  exact ⟨hpc, fun i => hup.accepting i (by rw [hpc]; trivial),
    hinit.succeeded hothers.clientsStart hothers.constructClient hnone⟩

/-- Two shards, on a CONN_LOG that an earlier start of one shard has cleared and not filled. -/
theorem relaunch_serves_first : ∃ s : State .plain 2,
    s.pc = .waiting ∧ InitSucceeded s.process.events := by
  obtain ⟨s, hex, hsignal, hstuck⟩ := firstStart_rests
  have hlaunch : exec ConnInit.launch (Server.before (some ["7"]))
      [⟨1, [.run (Fin.last 0), .run (Fin.last 0), .run (Fin.last 0)]⟩] = some ⟨1, some []⟩ := rfl
  obtain ⟨c, hconn, hend⟩ : ∃ c : ConnInit 2, exec ConnInit.step (ConnInit.start (some []))
      (ConnInit.correctRun [0, 1, 0, 1, 0, 0, 0, 1, 1, 1]) = some c ∧
      ∀ i, ConnInit.step c (.run i) = none := ⟨_, rfl, by decide⟩
  have hnone : (noFailures 2).init.connLog = c.failures [] := by
    funext i
    exact (if_neg (by rw [ConnInit.done_of_isSome rfl hconn hend i]; decide)).symm
  obtain ⟨-, -, hserves⟩ := relaunch_serves Seastar.plain_handlesSignals Seastar.plain_wakesWaiters
    Seastar.plain_drains Seastar.plain_keepsListening _ _ _ rfl hlaunch _ c hconn hend [] hnone
    ⟨fun _ => rfl, fun _ => rfl, fun _ => rfl, fun _ => rfl, fun _ => rfl, fun _ => rfl,
      fun _ => rfl⟩ firstStart hex hsignal
  obtain ⟨hpc, -, hinit, -⟩ := hserves hstuck
  exact ⟨s, hpc, hinit⟩

end Lifecycle
end SeastarStarter
