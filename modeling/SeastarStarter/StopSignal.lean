import Mathlib.Logic.Function.Basic
import SeastarStarter.Lib.Lts
import SeastarStarter.Seastar

/-!
# `stop_signal` (stop_signal.hh:51-85)

| here | there |
|---|---|
| `State.signals`, `State.conditions` | what `handle_signal` and `_cond` have made of the library's state |
| `construct`, `destroy` | the constructor and the destructor (66-76) |
| `deliver`, `signaled` | the reactor runs the handler of a signal that has arrived (56-64) |
| `wait`, `resume` | `_cond.wait(pred)` (79): the predicate now, and again after each wake-up |

The laws of `handle_signal` and of `condition_variable` are `HandlesSignals` and `WakesWaiters`.
Under them, with several objects the one constructed last hears the signals, and after any
destruction none does (`registered`). A `wait` whose object is destroyed is broken while it is
still queued; one that has been woken by then evaluates the predicate of a destroyed object.
-/

namespace SeastarStarter
namespace StopSignal

open Lts

inductive Life where
  | unborn | alive | gone
deriving DecidableEq

structure State (sea : Seastar) where
  signals : sea.Signals
  conditions : sea.Conditions
  life : Nat → Life
  /-- `_caught`, by object. -/
  caught : Nat → Bool
  /-- The futures that have read `_caught` of a destroyed object, and which. -/
  dangling : Nat → Option Nat

/-- Before any object: the signals are the reactor's. -/
def initial (sea : Seastar) : State sea :=
  ⟨sea.signals, sea.conditions, fun _ => .unborn, fun _ => false, fun _ => none⟩

inductive Act where
  | construct (o : Nat)
  | destroy (o : Nat)
  | deliver (sig : Signal)
  | wait (k o : Nat)
  | resume (k : Nat)

section
variable {sea : Seastar}

/-- The two calls of `handle_signal` in the constructor, and in the destructor. -/
def register (t : sea.Signals) (h : SignalHandler) : sea.Signals :=
  sea.handleSignal (sea.handleSignal t .SIGINT h) .SIGTERM h

/-- `signaled` (`:56`). -/
def signaled (s : State sea) (o : Nat) : State sea :=
  if s.caught o then s
  else
    { s with
      caught := Function.update s.caught o true
      conditions := sea.broadcast s.conditions o }

/-- Future `k` evaluates its predicate again, on an object that may be gone. -/
def rerun (s : State sea) (k o : Nat) : State sea :=
  if s.life o = .alive then { s with conditions := sea.rerun s.conditions k (s.caught o) }
  else { s with dangling := Function.update s.dangling k (some o) }

def step (s : State sea) : Act → Option (State sea)
  | .construct o =>
    if s.life o = .unborn then
      some { s with
        signals := register s.signals (.signaled o)
        life := Function.update s.life o .alive }
    else none
  | .destroy o =>
    if s.life o = .alive then
      some { s with
        signals := register s.signals .noop
        conditions := sea.destroy s.conditions o
        life := Function.update s.life o .gone }
    else none
  | .deliver sig =>
    match sea.handler s.signals sig with
    | .signaled o => some (signaled s o)
    | .noop => some s
    | .own => none -- the reactor stops by itself, and the program with it
  | .wait k o =>
    if sea.future s.conditions k = none ∧ s.life o = .alive then
      some { s with conditions := sea.wait s.conditions k o (s.caught o) }
    else none
  | .resume k =>
    match sea.future s.conditions k with
    | some (o, .woken) => if s.dangling k = none then some (rerun s k o) else none
    | _ => none

/-! ## What a step can do -/

variable {s s' : State sea} {o k : Nat}

theorem handler_register (hsignals : sea.HandlesSignals) (t : sea.Signals) (h : SignalHandler)
    (sig : Signal) : sea.handler (register t h) sig = h := by
  unfold register
  cases sig with
  | SIGTERM => exact hsignals.replaces _ _ _
  | SIGINT => rw [hsignals.others _ _ _ _ (by decide), hsignals.replaces]

theorem construct_some (h : step s (.construct o) = some s') :
    s.life o = .unborn ∧ s' = { s with
      signals := register s.signals (.signaled o)
      life := Function.update s.life o .alive } := by
  simp only [step] at h
  split_ifs at h with ho
  exact ⟨ho, (Option.some.inj h).symm⟩

theorem destroy_some (h : step s (.destroy o) = some s') :
    s.life o = .alive ∧ s' = { s with
      signals := register s.signals .noop
      conditions := sea.destroy s.conditions o
      life := Function.update s.life o .gone } := by
  simp only [step] at h
  split_ifs at h with ho
  exact ⟨ho, (Option.some.inj h).symm⟩

theorem wait_some (h : step s (.wait k o) = some s') :
    sea.future s.conditions k = none ∧ s.life o = .alive ∧
      s' = { s with conditions := sea.wait s.conditions k o (s.caught o) } := by
  simp only [step] at h
  split_ifs at h with hk
  exact ⟨hk.1, hk.2, (Option.some.inj h).symm⟩

/-- A woken future evaluates its predicate again. -/
theorem resume_some (h : step s (.resume k) = some s') :
    ∃ o, sea.future s.conditions k = some (o, .woken) ∧ s.dangling k = none ∧ s' = rerun s k o := by
  simp only [step] at h
  split at h
  · next o hk =>
    split_ifs at h with hdangling
    exact ⟨o, hk, hdangling, (Option.some.inj h).symm⟩
  · cases h

theorem deliver_some {sig : Signal} (h : step s (.deliver sig) = some s') :
    (∃ o, sea.handler s.signals sig = .signaled o ∧ s' = signaled s o) ∨
      (sea.handler s.signals sig = .noop ∧ s' = s) := by
  simp only [step] at h
  split at h
  · next o ho => exact Or.inl ⟨o, ho, (Option.some.inj h).symm⟩
  · next ho => exact Or.inr ⟨ho, (Option.some.inj h).symm⟩
  · cases h

/-- A signal wakes futures up, and does nothing else to them. -/
theorem deliver_future (hwakes : sea.WakesWaiters) {sig : Signal}
    (h : step s (.deliver sig) = some s') :
    s'.life = s.life ∧ ∀ k, sea.future s'.conditions k = sea.future s.conditions k ∨
      ∃ o, sea.future s.conditions k = some (o, .queued) ∧
        sea.future s'.conditions k = some (o, .woken) := by
  rcases deliver_some h with ⟨o, -, rfl⟩ | ⟨-, rfl⟩
  · unfold signaled
    split_ifs
    · exact ⟨rfl, fun _ => Or.inl rfl⟩
    · refine ⟨rfl, fun k => ?_⟩
      by_cases hk : sea.future s.conditions k = some (o, .queued)
      · exact Or.inr ⟨o, hk, hwakes.broadcast _ _ _ hk⟩
      · exact Or.inl (hwakes.broadcast_others _ _ _ hk)
  · exact ⟨rfl, fun _ => Or.inl rfl⟩

/-- Only signals are caught. -/
theorem caught_of_step {a : Act} (h : step s a = some s') (ha : ∀ sig, a ≠ .deliver sig) :
    s'.caught = s.caught := by
  cases a with
  | construct o => rw [(construct_some h).2]
  | destroy o => rw [(destroy_some h).2]
  | deliver sig => exact absurd rfl (ha sig)
  | wait k o => rw [(wait_some h).2.2]
  | resume k =>
    obtain ⟨o, -, -, rfl⟩ := resume_some h
    unfold rerun
    split_ifs <;> rfl

end

variable {sea : Seastar}

/-! ## What a run says of the signals -/

/-- The object that was registered last, unless an object was destroyed since. -/
def registered (acts : List Act) : Option Nat :=
  acts.foldl (fun r a => match a with
    | .construct o => some o
    | .destroy _ => none
    | _ => r) none

/-- A signal arrived while `o` was the one registered. -/
def Heard (o : Nat) (acts : List Act) : Prop :=
  ∃ pre sig post, acts = pre ++ Act.deliver sig :: post ∧ registered pre = some o

/-- Object `o` was destroyed when future `k` had been woken, and had not run yet. -/
def DestroyedWoken (sea : Seastar) (k o : Nat) (acts : List Act) : Prop :=
  ∃ pre post m, acts = pre ++ Act.destroy o :: post ∧ exec step (initial sea) pre = some m ∧
    sea.future m.conditions k = some (o, .woken)

@[simp] theorem registered_nil : registered [] = none := rfl

@[simp] theorem registered_construct (acts : List Act) (o : Nat) :
    registered (acts ++ [.construct o]) = some o := by simp [registered]

@[simp] theorem registered_destroy (acts : List Act) (o : Nat) :
    registered (acts ++ [.destroy o]) = none := by simp [registered]

@[simp] theorem registered_deliver (acts : List Act) (sig : Signal) :
    registered (acts ++ [.deliver sig]) = registered acts := by simp [registered]

@[simp] theorem registered_wait (acts : List Act) (k o : Nat) :
    registered (acts ++ [.wait k o]) = registered acts := by simp [registered]

@[simp] theorem registered_resume (acts : List Act) (k : Nat) :
    registered (acts ++ [.resume k]) = registered acts := by simp [registered]

theorem not_heard_nil (o : Nat) : ¬ Heard o [] := by
  rintro ⟨pre, sig, post, h, -⟩
  simp at h

/-- What is heard by the last step of a run. -/
theorem heard_snoc (o : Nat) (acts : List Act) (a : Act) :
    Heard o (acts ++ [a]) ↔
      Heard o acts ∨ ((∃ sig, a = .deliver sig) ∧ registered acts = some o) := by
  constructor
  · rintro ⟨pre, sig, post, h, hpre⟩
    rcases snoc_eq_append_cons.1 h with ⟨-, rfl, ha⟩ | ⟨post', -, hacts⟩
    · exact Or.inr ⟨⟨sig, ha⟩, hpre⟩
    · exact Or.inl ⟨pre, sig, post', hacts, hpre⟩
  · rintro (⟨pre, sig, post, rfl, hpre⟩ | ⟨⟨sig, rfl⟩, hpre⟩)
    · exact ⟨pre, sig, post ++ [a], by simp, hpre⟩
    · exact ⟨acts, sig, [], rfl, hpre⟩

theorem heard_snoc_deliver (o : Nat) (acts : List Act) (sig : Signal) :
    Heard o (acts ++ [.deliver sig]) ↔ Heard o acts ∨ registered acts = some o := by
  simp [heard_snoc]

theorem heard_snoc_other (o : Nat) (acts : List Act) {a : Act} (ha : ∀ sig, a ≠ .deliver sig) :
    Heard o (acts ++ [a]) ↔ Heard o acts := by
  simp [heard_snoc, ha]

theorem DestroyedWoken.snoc {k o : Nat} {acts : List Act} (h : DestroyedWoken sea k o acts)
    (a : Act) : DestroyedWoken sea k o (acts ++ [a]) := by
  obtain ⟨pre, post, m, rfl, hpre, hwoken⟩ := h
  exact ⟨pre, post ++ [a], m, by simp, hpre, hwoken⟩

/-! ## What holds after every run -/

/-- The object whose `signaled` a handler is. -/
def object : SignalHandler → Option Nat
  | .signaled o => some o
  | _ => none

/-- The state `s` that the run `acts` led to. -/
structure Tells (acts : List Act) (s : State sea) : Prop where
  handler : ∀ sig, object (sea.handler s.signals sig) = registered acts
  alive : ∀ o, registered acts = some o → s.life o = .alive
  caught : ∀ o, s.caught o = true ↔ Heard o acts
  queued : ∀ k o, sea.future s.conditions k = some (o, .queued) →
    s.life o = .alive ∧ s.caught o = false
  woken : ∀ k o, sea.future s.conditions k = some (o, .woken) → s.caught o = true ∧
    (s.life o = .alive ∨ (s.life o = .gone ∧ DestroyedWoken sea k o acts))
  resolved : ∀ k o, sea.future s.conditions k = some (o, .resolved) → s.caught o = true
  dangling : ∀ k o, s.dangling k = some o → sea.future s.conditions k = some (o, .woken) ∧
    s.life o = .gone ∧ DestroyedWoken sea k o acts

section
variable {acts : List Act} {s s' : State sea} {o : Nat}

theorem tells_initial (hsignals : sea.HandlesSignals) (hwakes : sea.WakesWaiters) :
    Tells [] (initial sea) := by
  have hnone : ∀ k w, sea.future (initial sea).conditions k ≠ some w := by
    intro k w hk
    rw [show (initial sea).conditions = sea.conditions from rfl, hwakes.atStart] at hk
    cases hk
  refine ⟨fun sig => ?_, nofun, fun o => ?_, fun k o hk => absurd hk (hnone k _),
    fun k o hk => absurd hk (hnone k _), fun k o hk => absurd hk (hnone k _), nofun⟩
  · rw [show (initial sea).signals = sea.signals from rfl, hsignals.atStart]
    rfl
  · simp [initial, not_heard_nil]

theorem Tells.construct (hsignals : sea.HandlesSignals) (h : Tells acts s)
    (hunborn : s.life o = .unborn) :
    Tells (acts ++ [.construct o])
      { s with
        signals := register s.signals (.signaled o)
        life := Function.update s.life o .alive } := by
  have halive : ∀ o', s.life o' = .alive → Function.update s.life o .alive o' = .alive := by
    intro o' halive
    by_cases heq : o' = o <;> simp [heq, halive]
  have hgone : ∀ o', s.life o' = .gone → Function.update s.life o .alive o' = .gone := by
    intro o' hgone
    have hne : o' ≠ o := by
      rintro rfl
      rw [hunborn] at hgone
      cases hgone
    simp [hne, hgone]
  refine ⟨fun sig => ?_, fun o' ho' => ?_, fun o' => ?_, fun k o' hk => ?_, fun k o' hk => ?_,
    h.resolved, fun k o' hk => ?_⟩
  · rw [handler_register hsignals, registered_construct]
    rfl
  · obtain rfl : o = o' := by simpa using ho'
    simp
  · rw [heard_snoc_other o' acts (by simp)]
    exact h.caught o'
  · exact (h.queued k o' hk).imp_left (halive o')
  · exact (h.woken k o' hk).imp_right fun hw =>
      hw.imp (halive o') fun hd => ⟨hgone o' hd.1, hd.2.snoc _⟩
  · obtain ⟨hwoken, hlife, hd⟩ := h.dangling k o' hk
    exact ⟨hwoken, hgone o' hlife, hd.snoc _⟩

theorem Tells.destroy (hsignals : sea.HandlesSignals) (hwakes : sea.WakesWaiters)
    (h : Tells acts s) (hex : exec step (initial sea) acts = some s) :
    Tells (acts ++ [.destroy o])
      { s with
        signals := register s.signals .noop
        conditions := sea.destroy s.conditions o
        life := Function.update s.life o .gone } := by
  have hgone : ∀ o', s.life o' = .gone → Function.update s.life o .gone o' = .gone := by
    intro o' hgone
    by_cases heq : o' = o <;> simp [heq, hgone]
  refine ⟨fun sig => ?_, fun o' ho' => by simp at ho', fun o' => ?_, fun k o' hk => ?_,
    fun k o' hk => ?_, fun k o' hk => ?_, fun k o' hk => ?_⟩
  · rw [handler_register hsignals, registered_destroy]
    rfl
  · rw [heard_snoc_other o' acts (by simp)]
    exact h.caught o'
  · rcases hwakes.of_destroy hk with ⟨-, -, hw⟩ | ⟨hk, hne⟩
    · cases hw
    · have hoo' : o' ≠ o := fun heq => hne (heq ▸ hk)
      simpa [hoo'] using h.queued k o' hk
  · rcases hwakes.of_destroy hk with ⟨-, -, hw⟩ | ⟨hk, -⟩
    · cases hw
    · refine ⟨(h.woken k o' hk).1, ?_⟩
      by_cases heq : o' = o
      · -- it is destroyed now, with this future still to run
        exact Or.inr ⟨by simp [heq], acts, [], s, by rw [heq], hex, hk⟩
      · simpa [heq] using (h.woken k o' hk).2.imp_right fun hd => hd.imp_right fun hd => hd.snoc _
  · rcases hwakes.of_destroy hk with ⟨-, -, hw⟩ | ⟨hk, -⟩
    · cases hw
    · exact h.resolved k o' hk
  · obtain ⟨hwoken, hlife, hd⟩ := h.dangling k o' hk
    refine ⟨?_, hgone o' hlife, hd.snoc _⟩
    rw [← hwoken]
    exact hwakes.destroy_others _ _ _ (by rw [hwoken]; simp)

/-- The handler of `o` runs: `o` is caught, and nobody is left in its queue. -/
theorem Tells.signaled (hwakes : sea.WakesWaiters) (h : Tells acts s)
    (ho : registered acts = some o) (sig : Signal) :
    Tells (acts ++ [.deliver sig]) (signaled s o) := by
  have hheard : ∀ o', Heard o' (acts ++ [.deliver sig]) ↔ s.caught o' = true ∨ o' = o := by
    intro o'
    rw [heard_snoc_deliver, h.caught, ho]
    simp [eq_comm]
  have hdestroyed : ∀ {k o'}, DestroyedWoken sea k o' acts →
      DestroyedWoken sea k o' (acts ++ [.deliver sig]) := fun hd => hd.snoc _
  unfold StopSignal.signaled
  by_cases hc : s.caught o = true
  · rw [if_pos hc]
    refine ⟨fun sig' => by simp [h.handler], fun o' ho' => h.alive o' (by simpa using ho'),
      fun o' => ?_, h.queued, fun k o' hk => ?_, h.resolved, fun k o' hk => ?_⟩
    · rw [hheard]
      by_cases heq : o' = o <;> simp [heq, hc]
    · exact (h.woken k o' hk).imp_right fun hw => hw.imp_right fun hd => hd.imp_right hdestroyed
    · exact (h.dangling k o' hk).imp_right fun hd => hd.imp_right hdestroyed
  · rw [if_neg hc]
    have hcaught : ∀ o', Function.update s.caught o true o' = true ↔ s.caught o' = true ∨ o' = o := by
      intro o'
      by_cases heq : o' = o <;> simp [heq]
    refine ⟨fun sig' => by simp [h.handler], fun o' ho' => h.alive o' (by simpa using ho'),
      fun o' => by rw [hheard, hcaught], fun k o' hk => ?_, fun k o' hk => ?_, fun k o' hk => ?_,
      fun k o' hk => ?_⟩
    · rcases hwakes.of_broadcast hk with ⟨-, -, hw⟩ | ⟨hk, hne⟩
      · cases hw
      · have hoo' : o' ≠ o := fun heq => hne (heq ▸ hk)
        simpa [hoo'] using h.queued k o' hk
    · rcases hwakes.of_broadcast hk with ⟨hq, rfl, -⟩ | ⟨hk, -⟩
      · exact ⟨(hcaught o').2 (Or.inr rfl), Or.inl (h.queued k o' hq).1⟩
      · exact ⟨(hcaught o').2 (Or.inl (h.woken k o' hk).1),
          (h.woken k o' hk).2.imp_right fun hd => hd.imp_right hdestroyed⟩
    · rcases hwakes.of_broadcast hk with ⟨-, -, hw⟩ | ⟨hk, -⟩
      · cases hw
      · exact (hcaught o').2 (Or.inl (h.resolved k o' hk))
    · obtain ⟨hwoken, hd⟩ := h.dangling k o' hk
      refine ⟨?_, hd.imp_right hdestroyed⟩
      rw [← hwoken]
      exact hwakes.broadcast_others _ _ _ (by rw [hwoken]; simp)

/-- A future of a living object evaluates the predicate: for the first time, or because it was
woken. -/
theorem Tells.evaluated (h : Tells acts s) {k : Nat} {a : Act} {conditions : sea.Conditions}
    (ha : ∀ sig, a ≠ .deliver sig) (hr : registered (acts ++ [a]) = registered acts)
    (halive : s.life o = .alive) (hnew : s.dangling k = none)
    (hk : sea.future conditions k = some (o, if s.caught o then .resolved else .queued))
    (hothers : ∀ k', k' ≠ k → sea.future conditions k' = sea.future s.conditions k') :
    Tells (acts ++ [a]) { s with conditions := conditions } := by
  have hfuture : ∀ k' o' w, sea.future conditions k' = some (o', w) →
      sea.future s.conditions k' = some (o', w) ∨
        (o' = o ∧ w = if s.caught o then .resolved else .queued) := by
    intro k' o' w hw
    by_cases heq : k' = k
    · rw [heq, hk] at hw
      obtain ⟨rfl, rfl⟩ := Prod.mk.inj (Option.some.inj hw)
      exact Or.inr ⟨rfl, rfl⟩
    · exact Or.inl (hothers k' heq ▸ hw)
  refine ⟨fun sig => by rw [hr, h.handler], fun o' ho' => h.alive o' (by rwa [hr] at ho'),
    fun o' => ?_, fun k' o' hk' => ?_, fun k' o' hk' => ?_, fun k' o' hk' => ?_,
    fun k' o' hk' => ?_⟩
  · rw [heard_snoc_other o' acts ha]
    exact h.caught o'
  · rcases hfuture k' o' _ hk' with hk' | ⟨rfl, hw⟩
    · exact h.queued k' o' hk'
    · split_ifs at hw with hc
      exact ⟨halive, by simpa using hc⟩
  · rcases hfuture k' o' _ hk' with hk' | ⟨rfl, hw⟩
    · exact (h.woken k' o' hk').imp_right fun hw =>
        hw.imp_right fun hd => hd.imp_right fun hd => hd.snoc _
    · split_ifs at hw
  · rcases hfuture k' o' _ hk' with hk' | ⟨rfl, hw⟩
    · exact h.resolved k' o' hk'
    · split_ifs at hw with hc
      exact hc
  · have hne : k' ≠ k := by
      rintro rfl
      rw [hnew] at hk'
      cases hk'
    obtain ⟨hwoken, hlife, hd⟩ := h.dangling k' o' hk'
    exact ⟨(hothers k' hne).trans hwoken, hlife, hd.snoc _⟩

/-- A woken future reads a destroyed object. -/
theorem Tells.dangle (h : Tells acts s) {k : Nat}
    (hk : sea.future s.conditions k = some (o, .woken)) (hlife : s.life o ≠ .alive) :
    Tells (acts ++ [.resume k]) { s with dangling := Function.update s.dangling k (some o) } := by
  refine ⟨fun sig => by simp [h.handler], fun o' ho' => h.alive o' (by simpa using ho'),
    fun o' => ?_, h.queued, fun k' o' hk' => ?_, h.resolved, fun k' o' hk' => ?_⟩
  · rw [heard_snoc_other o' acts (by simp)]
    exact h.caught o'
  · exact (h.woken k' o' hk').imp_right fun hw =>
      hw.imp_right fun hd => hd.imp_right fun hd => hd.snoc _
  · by_cases heq : k' = k
    · subst heq
      obtain rfl : o = o' := by simpa using hk'
      obtain ⟨hgone, hd⟩ := (h.woken k' o hk).2.resolve_left hlife
      exact ⟨hk, hgone, hd.snoc _⟩
    · obtain ⟨hwoken, hgone, hd⟩ := h.dangling k' o' (by simpa [heq] using hk')
      exact ⟨hwoken, hgone, hd.snoc _⟩

theorem Tells.step (hsignals : sea.HandlesSignals) (hwakes : sea.WakesWaiters) {a : Act}
    (hex : exec step (initial sea) acts = some s) (h : Tells acts s) (hstep : step s a = some s') :
    Tells (acts ++ [a]) s' := by
  cases a with
  | construct o =>
    obtain ⟨hunborn, rfl⟩ := construct_some hstep
    exact h.construct hsignals hunborn
  | destroy o =>
    obtain ⟨-, rfl⟩ := destroy_some hstep
    exact h.destroy hsignals hwakes hex
  | deliver sig =>
    have hobject := h.handler sig
    rcases deliver_some hstep with ⟨o, ho, rfl⟩ | ⟨ho, rfl⟩
    · rw [ho] at hobject
      exact h.signaled hwakes hobject.symm sig
    · rw [ho] at hobject
      refine ⟨fun sig' => by simp [h.handler], fun o' ho' => h.alive o' (by simpa using ho'),
        fun o' => ?_, h.queued, fun k o' hk => ?_, h.resolved, fun k o' hk => ?_⟩
      · rw [heard_snoc_deliver, ← hobject]
        simpa [object] using h.caught o'
      · exact (h.woken k o' hk).imp_right fun hw =>
          hw.imp_right fun hd => hd.imp_right fun hd => hd.snoc _
      · exact (h.dangling k o' hk).imp_right fun hd => hd.imp_right fun hd => hd.snoc _
  | wait k o =>
    obtain ⟨hnone, halive, rfl⟩ := wait_some hstep
    refine h.evaluated nofun (by simp) halive ?_ (hwakes.wait _ _ _ _ hnone)
      (fun k' hne => hwakes.wait_others _ _ _ _ _ hne)
    cases hdangling : s.dangling k with
    | none => rfl
    | some o' =>
      rw [(h.dangling k o' hdangling).1] at hnone
      cases hnone
  | resume k =>
    obtain ⟨o, hk, hdangling, rfl⟩ := resume_some hstep
    unfold rerun
    split_ifs with halive
    · exact h.evaluated nofun (by simp) halive hdangling (hwakes.rerun _ _ _ _ hk)
        (fun k' hne => hwakes.rerun_others _ _ _ _ hne)
    · exact h.dangle hk halive

theorem tells_of_exec (hsignals : sea.HandlesSignals) (hwakes : sea.WakesWaiters)
    (hex : exec StopSignal.step (initial sea) acts = some s) : Tells acts s :=
  exec_history (tells_initial hsignals hwakes)
    (fun _ _ _ _ hpre h hstep => h.step hsignals hwakes hpre hstep) hex

/-- **No signal is lost, none is invented, and none goes to a destroyed object.** After every run
an object has caught exactly the signals that arrived while it was registered; a handler belongs
to a living object; a future still queues only if nothing was heard, and resolves only if
something was; one that is woken resolves when it runs next, unless its object was destroyed
before; and no other future ever reads a destroyed object. -/
theorem stop_signal_exact (hsignals : sea.HandlesSignals) (hwakes : sea.WakesWaiters)
    (acts : List Act) (s : State sea) (hex : exec StopSignal.step (initial sea) acts = some s) :
    (∀ o, s.caught o = true ↔ Heard o acts) ∧
    (∀ sig o, sea.handler s.signals sig = .signaled o → s.life o = .alive) ∧
    (∀ k o, sea.future s.conditions k = some (o, .queued) → ¬ Heard o acts) ∧
    (∀ k o, sea.future s.conditions k = some (o, .resolved) → Heard o acts) ∧
    (∀ k o, sea.future s.conditions k = some (o, .woken) →
      (∃ s', StopSignal.step s (.resume k) = some s' ∧
        sea.future s'.conditions k = some (o, .resolved)) ∨ DestroyedWoken sea k o acts) ∧
    ∀ k o, s.dangling k = some o → DestroyedWoken sea k o acts := by
  have h := tells_of_exec hsignals hwakes hex
  refine ⟨h.caught, fun sig o ho => ?_, fun k o hk => ?_,
    fun k o hk => (h.caught o).1 (h.resolved k o hk), fun k o hk => ?_,
    fun k o hk => (h.dangling k o hk).2.2⟩
  · have hobject := h.handler sig
    rw [ho] at hobject
    exact h.alive o hobject.symm
  · rw [← h.caught, (h.queued k o hk).2]
    exact Bool.false_ne_true
  · obtain ⟨hcaught, halive | ⟨-, hd⟩⟩ := h.woken k o hk
    · refine Or.inl ?_
      have hdangling : s.dangling k = none := by
        cases hdangling : s.dangling k with
        | none => rfl
        | some o' =>
          obtain ⟨hwoken, hgone, -⟩ := h.dangling k o' hdangling
          obtain ⟨rfl, -⟩ := Prod.mk.inj (Option.some.inj (hk.symm.trans hwoken))
          rw [halive] at hgone
          cases hgone
      have hrerun := hwakes.rerun _ _ _ (s.caught o) hk
      rw [hcaught] at hrerun
      refine ⟨rerun s k o, by simp only [StopSignal.step, hk, hdangling, if_true], ?_⟩
      rw [rerun, if_pos halive, hcaught]
      exact hrerun
    · exact Or.inr hd

end

/-- Two objects, and then a signal: the one constructed last has heard it, the other one has not. -/
theorem stop_signal_exact_two : ∃ s : State .plain,
    exec step (initial .plain) [.construct 0, .wait 0 0, .construct 1, .wait 1 1,
      .deliver .SIGTERM, .resume 1] = some s ∧
    ∀ o, s.caught o = true ↔ Heard o [.construct 0, .wait 0 0, .construct 1, .wait 1 1,
      .deliver .SIGTERM, .resume 1] :=
  ⟨_, rfl, (stop_signal_exact Seastar.plain_handlesSignals Seastar.plain_wakesWaiters _ _ rfl).1⟩

end StopSignal
end SeastarStarter
