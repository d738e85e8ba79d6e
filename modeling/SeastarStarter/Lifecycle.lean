import Mathlib.Data.Finset.Card
import Mathlib.Data.Fintype.Card
import Mathlib.Algebra.BigOperators.Fin
import SeastarStarter.MainFut
import SeastarStarter.StopSignal

/-!
# `main_fut` among signals and requests (main.cc:508-548)

`mainFut` is `main_fut` by itself. Here it runs in steps, from one `co_await` to the next, while
signals arrive and the shards that listen already take requests.

| here | main.cc |
|---|---|
| `Pc.begin` | before `stop_signal stop_signal` (511) |
| `Pc.init` .. `Pc.routes` | the `co_await`s of the start-up (523-531) |
| `Pc.listen left` | `server->listen` (536), still to be done on the shards of `left` |
| `Pc.waiting` | `stop_signal.wait()` (538) |
| `Pc.serverStop uncalled left` | `server->stop()` (539), to be called on `uncalled`, to end on `left` |
| `Pc.handlersStop` | `crud_handlers.stop()` (540) |
| `Pc.ended` | behind the `try` block, where `stop_signal` is destroyed |

The server of each shard is one of `Seastar`, and so is the wake-up of `wait()`. What no request
can see happens in one step, on all shards. `main` lets the process exit when `main_fut` is over
(555-561), so no request is taken or answered from then on.
-/

namespace SeastarStarter
namespace Lifecycle

open Lts

inductive Pc (N : Nat) where
  | begin | init | mutexes | handlers | server | routes
  | listen (left : Finset (Fin N))
  | waiting
  | serverStop (uncalled left : Finset (Fin N))
  | handlersStop | ended
deriving DecidableEq

structure State (sea : Seastar) (N : Nat) where
  pc : Pc N
  process : Process N
  signals : StopSignal.State sea
  /-- The HTTP server of each shard. -/
  servers : Fin N → sea.Server

variable {sea : Seastar} {N : Nat}

def initial (sea : Seastar) (N : Nat) : State sea N :=
  ⟨.begin, Process.initial N, StopSignal.initial sea, fun _ => sea.server⟩

/-- Requests can come to shard `i`. -/
def State.accepting (s : State sea N) (i : Fin N) : Bool := sea.accepts (s.servers i)

/-- The requests that shard `i` has taken and not answered. -/
def State.inFlight (s : State sea N) (i : Fin N) : Nat := sea.handling (s.servers i)

/-- The future of `stop_signal.wait()`. -/
def State.wait (s : State sea N) : Option (Nat × Wait) := sea.future s.signals.conditions 0

namespace Pc

def next : Pc N → Pc N
  | .begin => .init
  | .init => .mutexes
  | .mutexes => .handlers
  | .handlers => .server
  | .server => .routes
  | .routes => .listen Finset.univ
  | .listen _ => .waiting
  | .waiting => .serverStop Finset.univ Finset.univ
  | .serverStop .. => .handlersStop
  | .handlersStop | .ended => .ended

/-- What is awaited, as far as it is not done by the shards. -/
def code (env : MainFailures N) : Pc N → Fut Exn (Process N) Unit
  | .init => SeastarStarter.init env.init
  | .mutexes => start .mutexes env.mutexStart
  | .handlers => start .handlers env.handlersStart
  | .server => start .server env.serverStart
  | .routes => act [] env.setRoutes.first
  | .listen _ => act [] env.listen.first
  | .waiting => act [] env.wait
  | .serverStop .. => stop .server env.serverStop
  | .handlersStop => stop .handlers env.handlersStop
  | .begin | .ended => return

/-- What happens to `stop_signal` on the way to a point. -/
def entering : Pc N → Option StopSignal.Act
  | .init => some (.construct 0)
  | .waiting => some (.wait 0 0)
  | .ended => some (.destroy 0)
  | _ => none

end Pc

inductive Act (N : Nat) where
  /-- What `main_fut` awaits is there, and it runs on. -/
  | main
  /-- Shard `i` does its part of `listen` or of `server->stop()`. -/
  | shard (i : Fin N)
  /-- The future of `stop_signal.wait()` runs on after its wake-up. -/
  | resume
  /-- Before there is a `stop_signal` a signal ends the program, and is no step. -/
  | signal (sig : Signal)
  /-- Shard `i` takes a request. -/
  | accept (i : Fin N)
  /-- Shard `i` answers one. -/
  | answer (i : Fin N)

/-- What `main_fut` awaits is there. -/
def State.ready (s : State sea N) : Bool :=
  match s.pc with
  | .listen left | .serverStop _ left => left = ∅
  | .waiting => s.wait = some (0, .resolved)
  | .ended => false
  | _ => true

def enter (s : State sea N) (process : Process N) (pc : Pc N) : Option (State sea N) :=
  match pc.entering with
  | none => some { s with pc := pc, process := process }
  | some a => (StopSignal.step s.signals a).map fun signals =>
      { s with pc := pc, process := process, signals := signals }

/-- An exception goes to the end of the `try` block. -/
def mainStep (env : MainFailures N) (s : State sea N) : Option (State sea N) :=
  match (s.pc.code env).run s.process with
  | (.ok _, process) => enter s process s.pc.next
  | (.error _, process) => enter s process .ended

/-- The server of shard `i` has become another one. -/
def State.setServer (s : State sea N) (i : Fin N) (server : sea.Server) : State sea N :=
  { s with servers := Function.update s.servers i server }

def shardStep (env : MainFailures N) (s : State sea N) (i : Fin N) : Option (State sea N) :=
  match s.pc with
  | .listen left =>
    if i ∈ left then
      if (env.listen i).isNone then
        some { s.setServer i (sea.listen (s.servers i)) with
          pc := .listen (left.erase i)
          process := { s.process with events := s.process.events ++ [.listening i] } }
      else some { s with pc := .listen (left.erase i) }
    else none
  | .serverStop uncalled left =>
    if i ∈ uncalled then
      some { s.setServer i (sea.stop (s.servers i)) with pc := .serverStop (uncalled.erase i) left }
    else if i ∈ left ∧ sea.stopped (s.servers i) then
      some { s with pc := .serverStop uncalled (left.erase i) }
    else none
  | _ => none

def step (env : MainFailures N) (s : State sea N) : Act N → Option (State sea N)
  | .main => if s.ready then mainStep env s else none
  | .shard i => shardStep env s i
  | .resume =>
    (StopSignal.step s.signals (.resume 0)).map fun signals => { s with signals := signals }
  | .signal sig =>
    (StopSignal.step s.signals (.deliver sig)).map fun signals => { s with signals := signals }
  | .accept i => if s.pc = .ended then none else (sea.take (s.servers i)).map (s.setServer i)
  | .answer i => if s.pc = .ended then none else (sea.reply (s.servers i)).map (s.setServer i)

/-! ## What a step can do -/

section
variable {env : MainFailures N} {s s' : State sea N}

/-- How `stop_signal` gets from one state to the next. -/
def Entered (signals : StopSignal.State sea) (pc : Pc N) (signals' : StopSignal.State sea) : Prop :=
  match pc.entering with
  | none => signals' = signals
  | some a => StopSignal.step signals a = some signals'

theorem enter_some {process : Process N} {pc : Pc N} (h : enter s process pc = some s') :
    Entered s.signals pc s'.signals ∧
      s' = { s with pc := pc, process := process, signals := s'.signals } := by
  unfold enter at h
  unfold Entered
  cases hpc : pc.entering with
  | none =>
    rw [hpc] at h
    obtain rfl := Option.some.inj h
    exact ⟨rfl, rfl⟩
  | some a =>
    rw [hpc] at h
    obtain ⟨signals, hsignals, rfl⟩ := Option.map_eq_some_iff.1 h
    exact ⟨hsignals, rfl⟩

/-- A step of `main_fut`: the code at its point runs, and leads to the next one or to the end. -/
theorem main_cases (h : step env s .main = some s') :
    s.ready = true ∧ ∃ pc, Entered s.signals pc s'.signals ∧
      s' = { s with
        pc := pc
        process := ((s.pc.code env).run s.process).2
        signals := s'.signals } ∧
      (((∃ u, ((s.pc.code env).run s.process).1 = .ok u) ∧ pc = s.pc.next) ∨
        ((∃ e, ((s.pc.code env).run s.process).1 = .error e) ∧ pc = .ended)) := by
  simp only [step] at h
  split_ifs at h with hready
  refine ⟨hready, ?_⟩
  unfold mainStep at h
  rcases hrun : (s.pc.code env).run s.process with ⟨e | u, process⟩
  · rw [hrun] at h
    obtain ⟨hentered, hs'⟩ := enter_some h
    exact ⟨.ended, hentered, hs', Or.inr ⟨⟨e, rfl⟩, rfl⟩⟩
  · rw [hrun] at h
    obtain ⟨hentered, hs'⟩ := enter_some h
    exact ⟨s.pc.next, hentered, hs', Or.inl ⟨⟨u, rfl⟩, rfl⟩⟩

/-- A step of shard `i`: it listens or fails to, its server is told to stop, or has stopped. -/
theorem shard_cases {i : Fin N} (h : step env s (.shard i) = some s') :
    (∃ left, s.pc = .listen left ∧ i ∈ left ∧ env.listen i = none ∧
      s' = { s.setServer i (sea.listen (s.servers i)) with
        pc := .listen (left.erase i)
        process := { s.process with events := s.process.events ++ [.listening i] } }) ∨
    (∃ left, s.pc = .listen left ∧ i ∈ left ∧ env.listen i ≠ none ∧
      s' = { s with pc := .listen (left.erase i) }) ∨
    (∃ uncalled left, s.pc = .serverStop uncalled left ∧ i ∈ uncalled ∧
      s' = { s.setServer i (sea.stop (s.servers i)) with
        pc := .serverStop (uncalled.erase i) left }) ∨
    ∃ uncalled left, s.pc = .serverStop uncalled left ∧ i ∉ uncalled ∧ i ∈ left ∧
      sea.stopped (s.servers i) = true ∧
      s' = { s with pc := .serverStop uncalled (left.erase i) } := by
  simp only [step, shardStep] at h
  cases hpc : s.pc with
  | listen left =>
    rw [hpc] at h
    dsimp only at h
    split_ifs at h with hi hlisten
    · exact Or.inl ⟨left, rfl, hi, by simpa using hlisten, (Option.some.inj h).symm⟩
    · exact Or.inr (Or.inl ⟨left, rfl, hi, by simpa using hlisten, (Option.some.inj h).symm⟩)
  | serverStop uncalled left =>
    rw [hpc] at h
    dsimp only at h
    split_ifs at h with hi hstopped
    · exact Or.inr (Or.inr (Or.inl ⟨uncalled, left, rfl, hi, (Option.some.inj h).symm⟩))
    · exact Or.inr (Or.inr (Or.inr
        ⟨uncalled, left, rfl, hi, hstopped.1, hstopped.2, (Option.some.inj h).symm⟩))
  | _ => simp [hpc] at h

/-- The other steps: what they need, and what they change. -/
theorem accept_some {i : Fin N} (h : step env s (.accept i) = some s') :
    s.pc ≠ .ended ∧
      ∃ server, sea.take (s.servers i) = some server ∧ s' = s.setServer i server := by
  simp only [step] at h
  split_ifs at h with hpc
  obtain ⟨server, htake, rfl⟩ := Option.map_eq_some_iff.1 h
  exact ⟨hpc, server, htake, rfl⟩

theorem answer_some {i : Fin N} (h : step env s (.answer i) = some s') :
    s.pc ≠ .ended ∧
      ∃ server, sea.reply (s.servers i) = some server ∧ s' = s.setServer i server := by
  simp only [step] at h
  split_ifs at h with hpc
  obtain ⟨server, hreply, rfl⟩ := Option.map_eq_some_iff.1 h
  exact ⟨hpc, server, hreply, rfl⟩

theorem signal_some {sig : Signal} (h : step env s (.signal sig) = some s') :
    StopSignal.step s.signals (.deliver sig) = some s'.signals ∧
      s' = { s with signals := s'.signals } := by
  obtain ⟨signals, hsignals, rfl⟩ := Option.map_eq_some_iff.1 h
  exact ⟨hsignals, rfl⟩

theorem resume_some (h : step env s .resume = some s') :
    StopSignal.step s.signals (.resume 0) = some s'.signals ∧
      s' = { s with signals := s'.signals } := by
  obtain ⟨signals, hsignals, rfl⟩ := Option.map_eq_some_iff.1 h
  exact ⟨hsignals, rfl⟩

/-- A shard's step has nothing to do with `stop_signal`, and does not end `main_fut`. -/
theorem shard_some {i : Fin N} (h : step env s (.shard i) = some s') :
    s'.signals = s.signals ∧ s'.pc ≠ .ended := by
  rcases shard_cases h with ⟨left, -, -, -, rfl⟩ | ⟨left, -, -, -, rfl⟩ |
    ⟨uncalled, left, -, -, rfl⟩ | ⟨uncalled, left, -, -, -, -, rfl⟩ <;>
  exact ⟨rfl, nofun⟩

/-- Only `main_fut` and the shards change where `main_fut` is, and what has happened. -/
theorem stays_of_step {a : Act N} (h : step env s a = some s') (hmain : a ≠ .main)
    (hshard : ∀ i, a ≠ .shard i) : s'.pc = s.pc ∧ s'.process = s.process := by
  cases a with
  | main => exact absurd rfl hmain
  | shard i => exact absurd rfl (hshard i)
  | resume =>
    rw [(resume_some h).2]
    exact ⟨rfl, rfl⟩
  | signal sig =>
    rw [(signal_some h).2]
    exact ⟨rfl, rfl⟩
  | accept i =>
    obtain ⟨-, server, -, rfl⟩ := accept_some h
    exact ⟨rfl, rfl⟩
  | answer i =>
    obtain ⟨-, server, -, rfl⟩ := answer_some h
    exact ⟨rfl, rfl⟩

/-! ### The servers of the shards -/

variable {i : Fin N} {server : sea.Server}

@[simp] theorem setServer_pc : (s.setServer i server).pc = s.pc := rfl

@[simp] theorem setServer_accepting :
    (s.setServer i server).accepting =
      Function.update s.accepting i (sea.accepts server) := by
  funext j
  by_cases hj : j = i <;> simp [State.setServer, State.accepting, hj]

@[simp] theorem setServer_inFlight :
    (s.setServer i server).inFlight = Function.update s.inFlight i (sea.handling server) := by
  funext j
  by_cases hj : j = i <;> simp [State.setServer, State.inFlight, hj]

end

/-! ## The stop signal of `main_fut` -/

/-- `main_fut` has a `stop_signal` here. -/
def Pc.inTry : Pc N → Bool
  | .begin | .ended => false
  | _ => true

/-- How far the future of `stop_signal.wait()` is. -/
def Pc.Awaits : Pc N → Option (Nat × Wait) → Prop
  | .waiting, w => w = some (0, .queued) ∨ w = some (0, .woken) ∨ w = some (0, .resolved)
  | .serverStop .., w | .handlersStop, w => w = some (0, .resolved)
  | .ended, w => w = none ∨ w = some (0, .resolved)
  | _, w => w = none

/-- Only at `waiting` is there a future that is not resolved. -/
theorem Pc.awaits_open {pc : Pc N} {o : Nat} {w : Wait} (hw : w ≠ .resolved)
    (h : pc.Awaits (some (o, w))) : pc = .waiting ∧ o = 0 := by
  cases pc <;> simp_all [Pc.Awaits]
  grind

/-- There is one object, from `init` to the end, and it is waited for once. -/
structure Tracks (s : State sea N) : Prop where
  history : ∃ acts, exec StopSignal.step (StopSignal.initial sea) acts = some s.signals ∧
    StopSignal.Tells acts s.signals ∧
    StopSignal.registered acts = if s.pc.inTry then some 0 else none
  unborn : s.pc = .begin → s.signals.life 0 = .unborn
  awaits : s.pc.Awaits s.wait

section
variable {env : MainFailures N} {s s' : State sea N}

theorem tracks_initial (hsignals : sea.HandlesSignals) (hwakes : sea.WakesWaiters) :
    Tracks (initial sea N) :=
  ⟨⟨[], rfl, StopSignal.tells_initial hsignals hwakes, rfl⟩, fun _ => rfl, hwakes.atStart 0⟩

theorem Tracks.handler (h : Tracks s) (sig : Signal) :
    StopSignal.object (sea.handler s.signals.signals sig) =
      if s.pc.inTry then some 0 else none := by
  obtain ⟨acts, -, htells, hreg⟩ := h.history
  rw [htells.handler, hreg]

theorem Tracks.alive (h : Tracks s) (hpc : s.pc.inTry = true) : s.signals.life 0 = .alive := by
  obtain ⟨acts, -, htells, hreg⟩ := h.history
  exact htells.alive 0 (by rw [hreg, if_pos hpc])

/-- The future of a living object has read nothing of a destroyed one. -/
theorem Tracks.not_dangling (h : Tracks s) (hpc : s.pc.inTry = true) {w : Wait}
    (hwait : s.wait = some (0, w)) : s.signals.dangling 0 = none := by
  obtain ⟨acts, -, htells, -⟩ := h.history
  cases hdangling : s.signals.dangling 0 with
  | none => rfl
  | some o =>
    obtain ⟨hwoken, hgone, -⟩ := htells.dangling 0 o hdangling
    obtain ⟨rfl, -⟩ := Prod.mk.inj (Option.some.inj (hwait.symm.trans hwoken))
    rw [h.alive hpc] at hgone
    cases hgone

/-- What does not concern `stop_signal` keeps it as it is. -/
theorem Tracks.frame (h : Tracks s) (hsignals : s'.signals = s.signals)
    (htry : s'.pc.inTry = s.pc.inTry) (hbegin : s'.pc = .begin → s.pc = .begin)
    (hawaits : ∀ w, s.pc.Awaits w → s'.pc.Awaits w) : Tracks s' := by
  obtain ⟨acts, hex, htells, hreg⟩ := h.history
  refine ⟨⟨acts, by rw [hsignals]; exact hex, by rw [hsignals]; exact htells,
    by rw [htry]; exact hreg⟩, fun hpc => ?_, ?_⟩
  · rw [hsignals]
    exact h.unborn (hbegin hpc)
  · unfold State.wait
    rw [hsignals]
    exact hawaits _ h.awaits

/-- A step of `stop_signal` that `main_fut`, the reactor or the future takes. -/
theorem Tracks.along (hsignals : sea.HandlesSignals) (hwakes : sea.WakesWaiters) (h : Tracks s)
    {a : StopSignal.Act} (hstep : StopSignal.step s.signals a = some s'.signals)
    (hreg : ∀ acts, StopSignal.registered acts = (if s.pc.inTry then some 0 else none) →
      StopSignal.registered (acts ++ [a]) = if s'.pc.inTry then some 0 else none)
    (hbegin : s'.pc = .begin → s'.signals.life 0 = .unborn) (hawaits : s'.pc.Awaits s'.wait) :
    Tracks s' := by
  obtain ⟨acts, hex, htells, hregistered⟩ := h.history
  exact ⟨⟨acts ++ [a], exec_snoc_some.2 ⟨_, hex, hstep⟩,
    htells.step hsignals hwakes hex hstep, hreg acts hregistered⟩, hbegin, hawaits⟩

/-- The future is resolved where `main_fut` runs on from `waiting`, and there is none before. -/
theorem Tracks.wait_of_ready (h : Tracks s) (hready : s.ready = true) :
    s.wait = none ∨ s.wait = some (0, .resolved) := by
  have hawaits := h.awaits
  cases hpc : s.pc <;> simp_all [Pc.Awaits, State.ready]

theorem Tracks.step_main (hsignals : sea.HandlesSignals) (hwakes : sea.WakesWaiters) (h : Tracks s)
    (hstep : step env s .main = some s') : Tracks s' := by
  obtain ⟨hready, pc, hentered, hs', hpc⟩ := main_cases hstep
  have hspc : s'.pc = pc := by rw [hs']
  have hwait := h.wait_of_ready hready
  have hover : pc = .ended → Tracks s' := by
    intro hpc
    subst hpc
    have hdestroy : StopSignal.step s.signals (.destroy 0) = some s'.signals := hentered
    refine h.along hsignals hwakes hdestroy (fun acts _ => by simp [hspc, Pc.inTry])
      (fun hb => (by rw [hspc] at hb; cases hb)) ?_
    have hkept : s'.wait = s.wait := by
      unfold State.wait at hwait ⊢
      rw [(StopSignal.destroy_some hdestroy).2]
      refine hwakes.destroy_others _ _ _ fun hqueued => ?_
      rw [hqueued] at hwait
      simp at hwait
    rw [hspc, hkept]
    exact hwait
  rcases hpc with ⟨-, hnext⟩ | ⟨-, hnext⟩
  · cases hp : s.pc with
    | begin =>
      rw [hp] at hnext
      subst hnext
      have hconstruct : StopSignal.step s.signals (.construct 0) = some s'.signals := hentered
      refine h.along hsignals hwakes hconstruct
        (fun acts _ => by simp [hspc, Pc.next, Pc.inTry])
        (fun hb => (by rw [hspc] at hb; cases hb)) ?_
      have hawaits := h.awaits
      unfold State.wait at hawaits ⊢
      rw [hp] at hawaits
      rw [hspc, (StopSignal.construct_some hconstruct).2]
      exact hawaits
    | listen left =>
      rw [hp] at hnext
      subst hnext
      have hwaits : StopSignal.step s.signals (.wait 0 0) = some s'.signals := hentered
      refine h.along hsignals hwakes hwaits
        (fun acts hreg => by simp [hspc, Pc.next, Pc.inTry, hreg, hp])
        (fun hb => (by rw [hspc] at hb; cases hb)) ?_
      obtain ⟨hnone, -, hs⟩ := StopSignal.wait_some hwaits
      unfold State.wait
      rw [hspc, hs]
      dsimp only
      rw [hwakes.wait _ _ _ _ hnone]
      by_cases hc : s.signals.caught 0 = true <;> simp [Pc.next, Pc.Awaits, hc]
    | handlersStop | ended => exact hover (by rw [hnext, hp]; rfl)
    | waiting =>
      rw [hp] at hnext
      subst hnext
      have hresolved : s.wait = some (0, .resolved) := by
        simpa [State.ready, hp] using hready
      have hsame : s'.signals = s.signals := hentered
      refine ⟨?_, fun hb => (by rw [hspc] at hb; cases hb), ?_⟩
      · rw [hsame, hspc]
        obtain ⟨acts, hex, htells, hreg⟩ := h.history
        exact ⟨acts, hex, htells, by simp [Pc.next, Pc.inTry, hreg, hp]⟩
      · unfold State.wait at hresolved ⊢
        rw [hspc, hsame]
        exact hresolved
    | _ =>
      rw [hp] at hnext
      subst hnext
      refine h.frame hentered (by rw [hspc, hp]; rfl) (fun hb => (by rw [hspc] at hb; cases hb)) ?_
      intro w hw
      rw [hp] at hw
      rw [hspc]
      exact hw
  · exact hover hnext

theorem Tracks.step (hsignals : sea.HandlesSignals) (hwakes : sea.WakesWaiters) (h : Tracks s)
    {a : Act N} (hstep : step env s a = some s') : Tracks s' := by
  cases a with
  | main => exact h.step_main hsignals hwakes hstep
  | shard i =>
    rcases shard_cases hstep with ⟨left, hpc, -, -, rfl⟩ | ⟨left, hpc, -, -, rfl⟩ |
      ⟨uncalled, left, hpc, -, rfl⟩ | ⟨uncalled, left, hpc, -, -, -, rfl⟩ <;>
    exact h.frame rfl (by simp [hpc, Pc.inTry]) (by simp [hpc]) (by simp [hpc, Pc.Awaits])
  | accept i =>
    obtain ⟨-, server, -, rfl⟩ := accept_some hstep
    exact h.frame rfl rfl id fun _ => id
  | answer i =>
    obtain ⟨-, server, -, rfl⟩ := answer_some hstep
    exact h.frame rfl rfl id fun _ => id
  | signal sig =>
    obtain ⟨hdeliver, hs'⟩ := signal_some hstep
    have hspc : s'.pc = s.pc := by rw [hs']
    obtain ⟨hlife, hfuture⟩ := StopSignal.deliver_future hwakes hdeliver
    refine h.along hsignals hwakes hdeliver (fun acts hreg => by simp [hspc, hreg])
      (fun hb => ?_) ?_
    · rw [hlife]
      exact h.unborn (hspc ▸ hb)
    · rw [hspc]
      have hawaits := h.awaits
      unfold State.wait at hawaits ⊢
      rcases hfuture 0 with heq | ⟨o, hqueued, hwoken⟩
      · rwa [heq]
      · rw [hqueued] at hawaits
        obtain ⟨hpc, rfl⟩ := Pc.awaits_open (by decide) hawaits
        rw [hwoken, hpc]
        exact Or.inr (Or.inl rfl)
  | resume =>
    obtain ⟨hresume, hs'⟩ := resume_some hstep
    have hspc : s'.pc = s.pc := by rw [hs']
    have hawaits := h.awaits
    obtain ⟨o, hwoken, -, hrerun⟩ := StopSignal.resume_some hresume
    unfold State.wait at hawaits
    rw [hwoken] at hawaits
    obtain ⟨hpc, rfl⟩ := Pc.awaits_open (by decide) hawaits
    refine h.along hsignals hwakes hresume (fun acts hreg => by simp [hspc, hreg])
      (fun hb => (by rw [hspc, hpc] at hb; cases hb)) ?_
    have halive := h.alive (by rw [hpc]; rfl)
    unfold State.wait
    rw [hspc, hpc, hrerun, StopSignal.rerun, if_pos halive]
    dsimp only
    rw [hwakes.rerun _ _ _ _ hwoken]
    by_cases hc : s.signals.caught 0 = true <;> simp [Pc.Awaits, hc]

theorem tracks_of_exec (hsignals : sea.HandlesSignals) (hwakes : sea.WakesWaiters)
    {acts : List (Act N)} (hex : exec (Lifecycle.step env) (initial sea N) acts = some s) :
    Tracks s :=
  exec_invariant (fun _ _ _ h hstep => h.step hsignals hwakes hstep)
    (tracks_initial hsignals hwakes) hex

/-! ## Requests and the services they need -/

/-- Requests can come to shard `i`, or it has taken some. -/
def State.Busy (s : State sea N) (i : Fin N) : Prop := s.accepting i = true ∨ s.inFlight i ≠ 0

/-- The shards that are idle at a point: before they listen, and once they have stopped. -/
def Pc.Idle : Pc N → Fin N → Prop
  | .listen left, i => i ∈ left
  | .serverStop _ left, i => i ∉ left
  | .waiting, _ | .ended, _ => False
  | _, _ => True

/-- From here to the end of the `try` block the handlers and the server have been started. -/
def Pc.started : Pc N → Bool
  | .listen _ | .waiting | .serverStop .. | .handlersStop => true
  | _ => false

/-- The handlers have, or the server has, been stopped here at the earliest. -/
def Pc.stopped : Pc N → Bool
  | .handlersStop | .ended => true
  | _ => false

structure Safe (s : State sea N) : Prop where
  idle : ∀ i, s.pc.Idle i → ¬ s.Busy i
  listening : ∀ i, s.Busy i → .listening i ∈ s.process.events
  handlers : s.pc = .server ∨ s.pc = .routes ∨ s.pc.started = true ∨ Listening s.process.events →
    .started .handlers ∈ s.process.events
  server : s.pc = .routes ∨ s.pc.started = true ∨ Listening s.process.events →
    .started .server ∈ s.process.events
  stopped : ∀ service, .stopped service ∈ s.process.events →
    s.pc.stopped = true ∧ ∀ i, ¬ s.Busy i

theorem safe_initial (hdrains : sea.Drains) : Safe (initial sea N) := by
  have hbusy : ∀ i, ¬ (initial sea N).Busy i := by
    simp [initial, State.Busy, State.accepting, State.inFlight, hdrains.atStart]
  refine ⟨fun i _ => hbusy i, fun i hi => absurd hi (hbusy i), ?_, ?_, fun service h => by cases h⟩
  · simp [initial, Process.initial, Pc.started, Listening]
  · simp [initial, Process.initial, Pc.started, Listening]

/-- What the code at a point adds to the events. -/
def Pc.events (env : MainFailures N) : Pc N → List (Event N)
  | .init => initEvents env.init
  | .mutexes => if env.mutexStart.first.isNone then [.started .mutexes] else []
  | .handlers => if env.handlersStart.first.isNone then [.started .handlers] else []
  | .server => if env.serverStart.first.isNone then [.started .server] else []
  | .serverStop .. => [.stopped .server]
  | .handlersStop => [.stopped .handlers]
  | _ => []

theorem events_code (pc : Pc N) (p : Process N) :
    ((pc.code env).run p).2.events = p.events ++ pc.events env := by
  cases pc with
  | init => rw [Pc.code, run_init, Pc.events]
  | _ => simp [Pc.code, Pc.events, start, stop, run_act]

theorem events_code_ok {pc : Pc N} {p : Process N}
    (hok : ∃ u, ((pc.code env).run p).1 = .ok u) :
    (pc = .handlers → .started .handlers ∈ pc.events env) ∧
      (pc = .server → .started .server ∈ pc.events env) := by
  obtain ⟨u, hok⟩ := hok
  constructor
  · rintro rfl
    simp only [Pc.code, start, run_act] at hok
    cases hfirst : env.handlersStart.first <;> simp_all [Pc.events]
  · rintro rfl
    simp only [Pc.code, start, run_act] at hok
    cases hfirst : env.serverStart.first <;> simp_all [Pc.events]

/-- Only the two stops add a stop, and no code lets a shard listen. -/
theorem mem_events_stopped {pc : Pc N} {service : Service}
    (h : .stopped service ∈ pc.events env) :
    (∃ uncalled left, pc = .serverStop uncalled left) ∨ pc = .handlersStop := by
  cases pc with
  | init => exact absurd h ((not_mem_initEvents env.init).2 service)
  | mutexes | handlers | server =>
    simp only [Pc.events] at h
    split_ifs at h <;> simp at h
  | serverStop uncalled left => exact Or.inl ⟨uncalled, left, rfl⟩
  | handlersStop => exact Or.inr rfl
  | _ => simp [Pc.events] at h

theorem not_listening_events (pc : Pc N) (i : Fin N) : .listening i ∉ pc.events env := by
  cases pc with
  | init => exact (not_mem_initEvents env.init).1 i
  | mutexes | handlers | server =>
    simp only [Pc.events]
    split_ifs <;> simp
  | _ => simp [Pc.events]

/-- Where `main_fut` runs on, the shards that are idle at the next point are idle at this one. -/
theorem Pc.idle_of_next (hready : s.ready = true) {i : Fin N} (h : s.pc.next.Idle i) :
    s.pc.Idle i := by
  cases hpc : s.pc <;> simp_all [Pc.Idle, Pc.next, State.ready]

theorem Pc.stopped_next {pc : Pc N} (h : pc.stopped = true) : pc.next.stopped = true := by
  cases pc <;> simp_all [Pc.stopped, Pc.next]

/-- Whoever needs the handlers at the next point needs them here, or this is their start. -/
theorem Pc.handlers_of_next {pc : Pc N}
    (h : pc.next = .server ∨ pc.next = .routes ∨ pc.next.started = true) :
    pc = .handlers ∨ pc = .server ∨ pc = .routes ∨ pc.started = true := by
  cases pc <;> simp_all [Pc.next, Pc.started]

theorem Pc.server_of_next {pc : Pc N} (h : pc.next = .routes ∨ pc.next.started = true) :
    pc = .server ∨ pc = .routes ∨ pc.started = true := by
  cases pc <;> simp_all [Pc.next, Pc.started]

theorem Pc.stopped_of_events {pc : Pc N} {service : Service}
    (h : .stopped service ∈ pc.events env) : pc.next.stopped = true := by
  rcases mem_events_stopped h with ⟨uncalled, left, rfl⟩ | rfl <;> rfl

/-- Where a stop runs, no shard takes requests or has any. -/
theorem Safe.idle_of_events (h : Safe s) (hready : s.ready = true) {service : Service}
    (hmem : .stopped service ∈ s.pc.events env) (i : Fin N) : ¬ s.Busy i := by
  apply h.idle i
  rcases mem_events_stopped hmem with ⟨uncalled, left, hp⟩ | hp
  · have hleft : left = ∅ := by simpa [State.ready, hp] using hready
    simp [hp, Pc.Idle, hleft]
  · simp [hp, Pc.Idle]

/-- A step of `main_fut` has the servers as they are. -/
theorem busy_main (hstep : step env s .main = some s') (i : Fin N) : s'.Busy i ↔ s.Busy i := by
  obtain ⟨-, pc, -, hs', -⟩ := main_cases hstep
  rw [hs']
  rfl

theorem Safe.step_main (h : Safe s) (hstep : step env s .main = some s') : Safe s' := by
  obtain ⟨hready, pc, -, hs', hpc⟩ := main_cases hstep
  have hbusy := busy_main hstep
  have hevents : s'.process.events = s.process.events ++ s.pc.events env := by
    rw [hs']
    exact events_code s.pc s.process
  have hlistening : Listening s'.process.events ↔ Listening s.process.events := by
    rw [hevents, listening_append, or_iff_left]
    rintro ⟨i, hi⟩
    exact not_listening_events s.pc i hi
  have hspc : s'.pc = pc := by rw [hs']
  have hkeep : ∀ {e}, e ∈ s.process.events → e ∈ s'.process.events := by
    intro e he
    rw [hevents]
    exact List.mem_append_left _ he
  have hnew : ∀ {e}, e ∈ s.pc.events env → e ∈ s'.process.events := by
    intro e he
    rw [hevents]
    exact List.mem_append_right _ he
  refine ⟨fun i hi => ?_, fun i hi => hkeep (h.listening i ((hbusy i).1 hi)), ?_, ?_, ?_⟩
  · rw [hbusy]
    rcases hpc with ⟨-, rfl⟩ | ⟨-, rfl⟩
    · exact h.idle i (Pc.idle_of_next hready (hspc ▸ hi))
    · rw [hspc] at hi
      exact hi.elim
  · rw [hspc, hlistening, ← or_assoc, ← or_assoc]
    rintro (hneeded | hl)
    · rcases hpc with ⟨hok, rfl⟩ | ⟨-, rfl⟩
      · rcases Pc.handlers_of_next (or_assoc.1 hneeded) with hp | hp
        · exact hnew ((events_code_ok hok).1 hp)
        · exact hkeep (h.handlers (by tauto))
      · simp [Pc.started] at hneeded
    · exact hkeep (h.handlers (Or.inr (Or.inr (Or.inr hl))))
  · rw [hspc, hlistening, ← or_assoc]
    rintro (hneeded | hl)
    · rcases hpc with ⟨hok, rfl⟩ | ⟨-, rfl⟩
      · rcases Pc.server_of_next hneeded with hp | hp
        · exact hnew ((events_code_ok hok).2 hp)
        · exact hkeep (h.server (by tauto))
      · simp [Pc.started] at hneeded
    · exact hkeep (h.server (Or.inr (Or.inr hl)))
  · intro service hstopped
    rw [hevents, List.mem_append] at hstopped
    simp only [hspc, hbusy]
    rcases hstopped with hold | hnow
    · obtain ⟨hp, hidle⟩ := h.stopped service hold
      refine ⟨?_, hidle⟩
      rcases hpc with ⟨-, rfl⟩ | ⟨-, rfl⟩
      · exact Pc.stopped_next hp
      · rfl
    · refine ⟨?_, h.idle_of_events hready hnow⟩
      rcases hpc with ⟨-, rfl⟩ | ⟨-, rfl⟩
      · exact Pc.stopped_of_events hnow
      · rfl

/-- A server that is told to stop makes no shard busy that was not. -/
theorem busy_of_stop (hdrains : sea.Drains) {i j : Fin N} {pc : Pc N}
    (h : State.Busy { s.setServer i (sea.stop (s.servers i)) with pc := pc } j) : s.Busy j := by
  obtain ⟨haccepts, hhandling⟩ := hdrains.stop (s.servers i)
  by_cases hji : j = i
  · subst hji
    refine h.imp (fun haccepting => haccepts ?_) fun hflight => ?_
    · simpa [State.accepting, State.setServer] using haccepting
    · simpa [State.inFlight, State.setServer, hhandling] using hflight
  · simpa [State.Busy, State.accepting, State.inFlight, State.setServer, hji] using h

theorem Safe.step_shard (hdrains : sea.Drains) (h : Safe s) {i : Fin N}
    (hstep : step env s (.shard i) = some s') : Safe s' := by
  have hnone : ∀ {service : Service}, s.pc.stopped = false →
      .stopped service ∉ s.process.events := by
    intro service hpc hmem
    have hstopped := (h.stopped service hmem).1
    rw [hpc] at hstopped
    cases hstopped
  rcases shard_cases hstep with ⟨left, hpc, hi, hok, rfl⟩ | ⟨left, hpc, hi, -, rfl⟩ |
    ⟨uncalled, left, hpc, hi, rfl⟩ | ⟨uncalled, left, hpc, -, hi, hstopped, rfl⟩
  · have hothers : ∀ j, j ≠ i → State.Busy
        { s.setServer i (sea.listen (s.servers i)) with
          pc := .listen (left.erase i)
          process := { s.process with events := s.process.events ++ [.listening i] } } j →
        s.Busy j := by
      intro j hji hj
      simpa [State.Busy, State.accepting, State.inFlight, State.setServer, hji] using hj
    refine ⟨fun j hj hbusy => ?_, fun j hj => ?_, fun _ => ?_, fun _ => ?_, fun service hmem => ?_⟩
    · have hji : j ≠ i ∧ j ∈ left := by simpa [Pc.Idle] using hj
      exact h.idle j (by rw [hpc]; exact hji.2) (hothers j hji.1 hbusy)
    · by_cases hji : j = i
      · simp [hji]
      · simp [h.listening j (hothers j hji hj)]
    · simp [h.handlers (Or.inr (Or.inr (Or.inl (by rw [hpc]; rfl))))]
    · simp [h.server (Or.inr (Or.inl (by rw [hpc]; rfl)))]
    · exact absurd (by simpa using hmem) (hnone (by rw [hpc]; rfl))
  · refine ⟨fun j hj => ?_, h.listening, fun _ => ?_, fun _ => ?_, fun service hmem => ?_⟩
    · have hji : j ≠ i ∧ j ∈ left := by simpa [Pc.Idle] using hj
      exact h.idle j (by rw [hpc]; exact hji.2)
    · exact h.handlers (Or.inr (Or.inr (Or.inl (by rw [hpc]; rfl))))
    · exact h.server (Or.inr (Or.inl (by rw [hpc]; rfl)))
    · exact absurd hmem (hnone (by rw [hpc]; rfl))
  · refine ⟨fun j hj hbusy => ?_, fun j hj => h.listening j (busy_of_stop hdrains hj), fun _ => ?_,
      fun _ => ?_, fun service hmem => absurd hmem (hnone (by rw [hpc]; rfl))⟩
    · exact h.idle j (by rw [hpc]; exact hj) (busy_of_stop hdrains hbusy)
    · exact h.handlers (Or.inr (Or.inr (Or.inl (by rw [hpc]; rfl))))
    · exact h.server (Or.inr (Or.inl (by rw [hpc]; rfl)))
  · refine ⟨fun j hj => ?_, h.listening, fun _ => ?_, fun _ => ?_, fun service hmem => ?_⟩
    · by_cases hji : j = i
      · subst hji
        obtain ⟨haccepts, hhandling⟩ := hdrains.stopped _ hstopped
        simp [State.Busy, State.accepting, State.inFlight, haccepts, hhandling]
      · have hj : j ∉ left := by simpa [Pc.Idle, hji] using hj
        exact h.idle j (by rw [hpc]; exact hj)
    · exact h.handlers (Or.inr (Or.inr (Or.inl (by rw [hpc]; rfl))))
    · exact h.server (Or.inr (Or.inl (by rw [hpc]; rfl)))
    · exact absurd hmem (hnone (by rw [hpc]; rfl))

/-- Where the requests of busy shards change, and nothing else. -/
theorem Safe.frame (h : Safe s) (hpc : s'.pc = s.pc) (hprocess : s'.process = s.process)
    (hbusy : ∀ i, s'.Busy i → s.Busy i) : Safe s' := by
  refine ⟨fun i hi hb => h.idle i (hpc ▸ hi) (hbusy i hb), fun i hi => ?_, ?_, ?_, ?_⟩
  · rw [hprocess]
    exact h.listening i (hbusy i hi)
  · rw [hpc, hprocess]
    exact h.handlers
  · rw [hpc, hprocess]
    exact h.server
  · rw [hpc, hprocess]
    exact fun service hmem =>
      (h.stopped service hmem).imp_right fun hidle i hi => hidle i (hbusy i hi)

theorem Safe.step (hdrains : sea.Drains) (h : Safe s) {a : Act N}
    (hstep : step env s a = some s') : Safe s' := by
  cases a with
  | main => exact h.step_main hstep
  | shard i => exact h.step_shard hdrains hstep
  | resume =>
    obtain ⟨hpc, hprocess⟩ := stays_of_step hstep nofun nofun
    exact h.frame hpc hprocess fun i hi => by rw [(resume_some hstep).2] at hi; exact hi
  | signal sig =>
    obtain ⟨hpc, hprocess⟩ := stays_of_step hstep nofun nofun
    exact h.frame hpc hprocess fun i hi => by rw [(signal_some hstep).2] at hi; exact hi
  | accept i =>
    obtain ⟨-, server, htake, rfl⟩ := accept_some hstep
    refine h.frame rfl rfl fun j hj => ?_
    by_cases hji : j = i
    · subst hji
      exact Or.inl (hdrains.take _ _ htake).1
    · simpa [State.Busy, hji] using hj
  | answer i =>
    obtain ⟨-, server, hreply, rfl⟩ := answer_some hstep
    refine h.frame rfl rfl fun j hj => ?_
    by_cases hji : j = i
    · subst hji
      have hhandling := hdrains.reply _ _ hreply
      refine Or.inr ?_
      unfold State.inFlight
      omega
    · simpa [State.Busy, hji] using hj

theorem safe_of_exec (hdrains : sea.Drains) {acts : List (Act N)}
    (hex : exec (Lifecycle.step env) (initial sea N) acts = some s) : Safe s :=
  exec_invariant (fun _ _ _ h hstep => h.step hdrains hstep) (safe_initial hdrains) hex

theorem Safe.served (h : Safe s) {i : Fin N} (hbusy : s.Busy i) :
    .listening i ∈ s.process.events ∧ .started .handlers ∈ s.process.events ∧
      .started .server ∈ s.process.events ∧ ∀ service, .stopped service ∉ s.process.events := by
  have hlistening := h.listening i hbusy
  refine ⟨hlistening, h.handlers (Or.inr (Or.inr (Or.inr ⟨i, hlistening⟩))),
    h.server (Or.inr (Or.inr ⟨i, hlistening⟩)), fun service hmem => ?_⟩
  exact (h.stopped service hmem).2 i hbusy

/-- **A request is handled only where everything it needs is up.** In every state of every run,
whatever fails in it, a shard to which requests can come, or that has one in progress, listens, the
handlers and the server have been started, and none of the two has been stopped. -/
theorem requests_served_safely (hdrains : sea.Drains) {acts : List (Act N)}
    (hex : exec (Lifecycle.step env) (initial sea N) acts = some s) (i : Fin N)
    (hbusy : s.accepting i = true ∨ s.inFlight i ≠ 0) :
    .listening i ∈ s.process.events ∧ .started .handlers ∈ s.process.events ∧
      .started .server ∈ s.process.events ∧ ∀ service, .stopped service ∉ s.process.events :=
  (safe_of_exec hdrains hex).served hbusy

/-! ## Signals -/

/-- A signal arrived while `main_fut` was in its `try` block. -/
def Signalled (sea : Seastar) (env : MainFailures N) (acts : List (Act N)) : Prop :=
  ∃ pre sig post m, acts = pre ++ Act.signal sig :: post ∧
    exec (Lifecycle.step env) (initial sea N) pre = some m ∧ m.pc.inTry = true

theorem Signalled.snoc {acts : List (Act N)} (h : Signalled sea env acts) (a : Act N) :
    Signalled sea env (acts ++ [a]) := by
  obtain ⟨pre, sig, post, m, rfl, hex, htry⟩ := h
  exact ⟨pre, sig, post ++ [a], m, by simp, hex, htry⟩

/-- The last step of a run is a signal, or else it makes no difference. -/
theorem signalled_snoc {acts : List (Act N)} {a : Act N}
    (hex : exec (Lifecycle.step env) (initial sea N) acts = some s) :
    Signalled sea env (acts ++ [a]) ↔
      Signalled sea env acts ∨ ((∃ sig, a = .signal sig) ∧ s.pc.inTry = true) := by
  constructor
  · rintro ⟨pre, sig, post, m, h, hpre, htry⟩
    rcases snoc_eq_append_cons.1 h with ⟨-, rfl, ha⟩ | ⟨post', -, hacts⟩
    · obtain rfl := Option.some.inj (hex.symm.trans hpre)
      exact Or.inr ⟨⟨sig, ha⟩, htry⟩
    · exact Or.inl ⟨pre, sig, post', m, hacts, hpre, htry⟩
  · rintro (h | ⟨⟨sig, rfl⟩, htry⟩)
    · exact h.snoc a
    · exact ⟨acts, sig, [], s, rfl, hex, htry⟩

theorem caught_step (h : Tracks s) {a : Act N} (hstep : Lifecycle.step env s a = some s') :
    s'.signals.caught 0 = true ↔
      s.signals.caught 0 = true ∨ ((∃ sig, a = .signal sig) ∧ s.pc.inTry = true) := by
  have hsame : (∀ sig, a ≠ .signal sig) → s'.signals.caught = s.signals.caught →
      (s'.signals.caught 0 = true ↔
        s.signals.caught 0 = true ∨ ((∃ sig, a = .signal sig) ∧ s.pc.inTry = true)) := by
    intro ha heq
    rw [heq, or_iff_left]
    rintro ⟨⟨sig, rfl⟩, -⟩
    exact ha sig rfl
  cases a with
  | main =>
    obtain ⟨-, pc, hentered, -, -⟩ := main_cases hstep
    refine hsame nofun ?_
    cases pc <;> first
      | exact congrArg _ hentered
      | exact StopSignal.caught_of_step hentered nofun
  | shard i => exact hsame nofun (congrArg _ (shard_some hstep).1)
  | resume => exact hsame nofun (StopSignal.caught_of_step (resume_some hstep).1 nofun)
  | accept i =>
    obtain ⟨-, server, -, rfl⟩ := accept_some hstep
    exact hsame nofun rfl
  | answer i =>
    obtain ⟨-, server, -, rfl⟩ := answer_some hstep
    exact hsame nofun rfl
  | signal sig =>
    obtain ⟨hdeliver, -⟩ := signal_some hstep
    have hobject := h.handler sig
    rcases StopSignal.deliver_some hdeliver with ⟨o, ho, hs⟩ | ⟨ho, hs⟩
    · rw [ho] at hobject
      obtain ⟨htry, rfl⟩ : s.pc.inTry = true ∧ o = 0 := by
        by_cases htry : s.pc.inTry = true <;> simp_all [StopSignal.object]
      rw [hs, StopSignal.signaled]
      split_ifs with hc <;> simp [htry, hc]
    · rw [ho] at hobject
      have htry : s.pc.inTry = false := by
        by_contra htry
        simp [StopSignal.object, htry] at hobject
      simp [hs, htry]

/-- The signals that `main_fut` catches are those that arrive in its `try` block. -/
theorem caught_iff (hsignals : sea.HandlesSignals) (hwakes : sea.WakesWaiters) {acts : List (Act N)}
    (hex : exec (Lifecycle.step env) (initial sea N) acts = some s) :
    s.signals.caught 0 = true ↔ Signalled sea env acts := by
  refine exec_history (I := fun acts s => s.signals.caught 0 = true ↔ Signalled sea env acts)
    ?_ ?_ hex
  · refine iff_of_false (by simp [initial, StopSignal.initial]) ?_
    rintro ⟨pre, sig, post, m, h, -⟩
    simp at h
  · intro pre a m m' hpre ih hstep
    rw [caught_step (tracks_of_exec hsignals hwakes hpre) hstep, ih, signalled_snoc hpre]

/-- Where the wait is behind `main_fut`, there was a signal. -/
theorem Tracks.caught_of_stop (h : Tracks s)
    (hpc : (∃ uncalled left, s.pc = .serverStop uncalled left) ∨ s.pc = .handlersStop) :
    s.signals.caught 0 = true := by
  obtain ⟨acts, -, htells, -⟩ := h.history
  refine htells.resolved 0 0 ?_
  have hawaits := h.awaits
  rcases hpc with ⟨uncalled, left, hpc⟩ | hpc
  · rwa [hpc] at hawaits
  · rwa [hpc] at hawaits

/-- Nothing is stopped before a signal is caught. -/
theorem caught_of_stopped (hsignals : sea.HandlesSignals) (hwakes : sea.WakesWaiters)
    {acts : List (Act N)} (hex : exec (Lifecycle.step env) (initial sea N) acts = some s)
    {service : Service} (hstopped : .stopped service ∈ s.process.events) :
    s.signals.caught 0 = true := by
  have h : Tracks s ∧ (.stopped service ∈ s.process.events → s.signals.caught 0 = true) := by
    refine exec_invariant (I := fun s => Tracks s ∧
      (.stopped service ∈ s.process.events → s.signals.caught 0 = true)) ?_
      ⟨tracks_initial hsignals hwakes, nofun⟩ hex
    rintro s a s' ⟨htracks, ih⟩ hstep
    refine ⟨htracks.step hsignals hwakes hstep,
      fun hmem => (caught_step htracks hstep).2 (Or.inl ?_)⟩
    cases a with
    | main =>
      obtain ⟨-, pc, -, hs', -⟩ := main_cases hstep
      rw [hs'] at hmem
      rcases List.mem_append.1 (events_code s.pc s.process ▸ hmem) with hmem | hmem
      · exact ih hmem
      · exact htracks.caught_of_stop (mem_events_stopped hmem)
    | shard i =>
      rcases shard_cases hstep with ⟨_, -, -, -, rfl⟩ | ⟨_, -, -, -, rfl⟩ | ⟨_, _, -, -, rfl⟩ |
        ⟨_, _, -, -, -, -, rfl⟩
      · exact ih (by simpa using hmem)
      all_goals exact ih hmem
    | _ =>
      rw [(stays_of_step hstep nofun nofun).2] at hmem
      exact ih hmem
  exact h.2 hstopped

end

/-- The first request of a server with two shards, one of which does not listen yet. -/
def firstRequest : List (Act 2) := List.replicate 6 .main ++ [.shard (Fin.last 1), .accept (Fin.last 1)]

theorem requests_served_safely_first : ∃ s,
    exec (step (noFailures 2)) (initial .plain 2) firstRequest = some s ∧
      .started .handlers ∈ s.process.events := by
  obtain ⟨s, hex, hbusy⟩ := Option.map_eq_some_iff.1
    (show (exec (step (noFailures 2)) (initial .plain 2) firstRequest).map
      (fun s => s.accepting (Fin.last 1)) = some true by decide +kernel)
  exact ⟨s, hex, (requests_served_safely Seastar.plain_drains hex (Fin.last 1) (Or.inl hbusy)).2.1⟩

end Lifecycle
end SeastarStarter
