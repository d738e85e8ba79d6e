import Mathlib.Tactic.SplitIfs

/-!
# Seastar as `main_fut` uses it

Signals, condition variables and the HTTP server are library code. `Seastar` holds them as
parameters: what the calls of the program make of their states, and what can be seen of these.
What is documented of each of them is a structure of its own.

| here | Seastar |
|---|---|
| `handleSignal`, `HandlesSignals` | `engine().handle_signal` |
| `wait`, `broadcast`, `destroy`, `rerun`, `WakesWaiters` | `condition_variable` |
| `listen`, `stop`, `KeepsListening` | `http_server_control` on one shard |
| `take`, `reply`, `Drains`, `Progresses` | the requests of its connections |

Condition variables go by the number of the object that they are a member of, the futures of
their `wait`s by numbers of their own. That a connection without a request is closed is no step
of its own.
-/

namespace SeastarStarter

inductive Signal where
  | SIGINT | SIGTERM
deriving DecidableEq

/-- What the reactor runs when a signal has arrived. -/
inductive SignalHandler where
  /-- What it does by itself, before the program has registered anything. -/
  | own
  /-- `[this] { signaled(); }` of `stop_signal` object `o`. -/
  | signaled (o : Nat)
  /-- `[] {}` -/
  | noop
deriving DecidableEq

/-- The future of a `wait(pred)`. -/
inductive Wait where
  | queued
  /-- Taken out of the queue by `broadcast`, and not run yet. -/
  | woken
  | resolved
  /-- The condition variable was destroyed. -/
  | broken
deriving DecidableEq

structure Seastar where
  Signals : Type
  Conditions : Type
  Server : Type
  signals : Signals
  handleSignal : Signals → Signal → SignalHandler → Signals
  handler : Signals → Signal → SignalHandler
  conditions : Conditions
  /-- Future `k` waits on the condition variable of `o`; the predicate is evaluated first. -/
  wait : Conditions → (k o : Nat) → (pred : Bool) → Conditions
  broadcast : Conditions → (o : Nat) → Conditions
  destroy : Conditions → (o : Nat) → Conditions
  /-- Future `k`, which has been woken, evaluates its predicate again. -/
  rerun : Conditions → (k : Nat) → (pred : Bool) → Conditions
  /-- What future `k` waits for, and how far it is. -/
  future : Conditions → (k : Nat) → Option (Nat × Wait)
  server : Server
  listen : Server → Server
  /-- The call of `stop()`; its future is another matter (`stopped`). -/
  stop : Server → Server
  /-- A connection has read a request and calls its handler. -/
  take : Server → Option Server
  /-- The future of a handler is resolved, and the connection is done with the request. -/
  reply : Server → Option Server
  /-- Requests can come: it listens, or connections are open. -/
  accepts : Server → Bool
  /-- The handlers that have been called and have not come to their end. -/
  handling : Server → Nat
  /-- `stop()` has been called. -/
  stopping : Server → Bool
  /-- The future of `stop()` is resolved. -/
  stopped : Server → Bool

namespace Seastar

/-- `handle_signal` replaces what was registered for the signal, and nothing else. -/
structure HandlesSignals (sea : Seastar) : Prop where
  atStart : ∀ sig, sea.handler sea.signals sig = .own
  replaces : ∀ t sig h, sea.handler (sea.handleSignal t sig h) sig = h
  others : ∀ t sig sig' h, sig' ≠ sig →
    sea.handler (sea.handleSignal t sig h) sig' = sea.handler t sig'

/-- `wait(pred)` queues unless the predicate holds, now and again after each wake-up; `broadcast`
wakes all that queue, and the destructor breaks them. -/
structure WakesWaiters (sea : Seastar) : Prop where
  atStart : ∀ k, sea.future sea.conditions k = none
  wait : ∀ c k o pred, sea.future c k = none →
    sea.future (sea.wait c k o pred) k = some (o, if pred then .resolved else .queued)
  wait_others : ∀ c k k' o pred, k' ≠ k → sea.future (sea.wait c k o pred) k' = sea.future c k'
  broadcast : ∀ c k o, sea.future c k = some (o, .queued) →
    sea.future (sea.broadcast c o) k = some (o, .woken)
  broadcast_others : ∀ c k o, sea.future c k ≠ some (o, .queued) →
    sea.future (sea.broadcast c o) k = sea.future c k
  destroy : ∀ c k o, sea.future c k = some (o, .queued) →
    sea.future (sea.destroy c o) k = some (o, .broken)
  destroy_others : ∀ c k o, sea.future c k ≠ some (o, .queued) →
    sea.future (sea.destroy c o) k = sea.future c k
  rerun : ∀ c k o pred, sea.future c k = some (o, .woken) →
    sea.future (sea.rerun c k pred) k = some (o, if pred then .resolved else .queued)
  rerun_others : ∀ c k k' pred, k' ≠ k → sea.future (sea.rerun c k pred) k' = sea.future c k'

/-- No request comes before `listen`. Open connections may bring some even after the call of `stop`,
but its future is not resolved before all of them are closed and all handlers at their end. -/
structure Drains (sea : Seastar) : Prop where
  atStart : sea.accepts sea.server = false ∧ sea.handling sea.server = 0
  listen : ∀ v, sea.handling (sea.listen v) = sea.handling v
  stop : ∀ v, (sea.accepts (sea.stop v) = true → sea.accepts v = true) ∧
    sea.handling (sea.stop v) = sea.handling v
  take : ∀ v v', sea.take v = some v' →
    sea.accepts v = true ∧ sea.handling v' = sea.handling v + 1
  reply : ∀ v v', sea.reply v = some v' → sea.handling v = sea.handling v' + 1
  stopped : ∀ v, sea.stopped v = true → sea.accepts v = false ∧ sea.handling v = 0

/-- A server listens from `listen` on, until `stop` is called. -/
structure KeepsListening (sea : Seastar) : Prop where
  atStart : sea.stopping sea.server = false
  listen : ∀ v, sea.accepts (sea.listen v) = true ∧ sea.stopping (sea.listen v) = sea.stopping v
  stop : ∀ v, sea.stopping (sea.stop v) = true
  take : ∀ v v', sea.take v = some v' → sea.stopping v' = sea.stopping v ∧
    (sea.stopping v = false → sea.accepts v' = true)
  reply : ∀ v v', sea.reply v = some v' → sea.stopping v' = sea.stopping v ∧
    (sea.stopping v = false → sea.accepts v' = sea.accepts v)

/-- A handler whose future is resolved is done with; and `stop` ends when there is none left, and
no request on an open connection either. -/
structure Progresses (sea : Seastar) : Prop where
  reply : ∀ v, sea.handling v ≠ 0 → (sea.reply v).isSome
  stopped : ∀ v, sea.stopping v = true → sea.handling v = 0 → sea.take v = none →
    sea.stopped v = true

variable {sea : Seastar}

/-! ## What the laws say of a future -/

section
variable {c : sea.Conditions} {k k' o o' : Nat} {pred : Bool} {w : Wait}

theorem WakesWaiters.of_broadcast (h : sea.WakesWaiters)
    (hk : sea.future (sea.broadcast c o) k = some (o', w)) :
    (sea.future c k = some (o, .queued) ∧ o' = o ∧ w = .woken) ∨
      (sea.future c k = some (o', w) ∧ sea.future c k ≠ some (o, .queued)) := by
  by_cases hq : sea.future c k = some (o, .queued)
  · rw [h.broadcast c k o hq] at hk
    obtain ⟨rfl, rfl⟩ : o = o' ∧ Wait.woken = w := by simpa using hk
    exact Or.inl ⟨hq, rfl, rfl⟩
  · rw [h.broadcast_others c k o hq] at hk
    exact Or.inr ⟨hk, hq⟩

theorem WakesWaiters.of_destroy (h : sea.WakesWaiters)
    (hk : sea.future (sea.destroy c o) k = some (o', w)) :
    (sea.future c k = some (o, .queued) ∧ o' = o ∧ w = .broken) ∨
      (sea.future c k = some (o', w) ∧ sea.future c k ≠ some (o, .queued)) := by
  by_cases hq : sea.future c k = some (o, .queued)
  · rw [h.destroy c k o hq] at hk
    obtain ⟨rfl, rfl⟩ : o = o' ∧ Wait.broken = w := by simpa using hk
    exact Or.inl ⟨hq, rfl, rfl⟩
  · rw [h.destroy_others c k o hq] at hk
    exact Or.inr ⟨hk, hq⟩

end

/-! ## A Seastar that keeps the laws -/

structure PlainServer where
  accepts : Bool
  handling : Nat
  stopping : Bool

def plain : Seastar where
  Signals := Signal → SignalHandler
  Conditions := Nat → Option (Nat × Wait)
  Server := PlainServer
  signals _ := .own
  handleSignal t sig h sig' := if sig' = sig then h else t sig'
  handler t sig := t sig
  conditions _ := none
  wait c k o pred k' := if k' = k then some (o, if pred then .resolved else .queued) else c k'
  broadcast c o k := if c k = some (o, .queued) then some (o, .woken) else c k
  destroy c o k := if c k = some (o, .queued) then some (o, .broken) else c k
  rerun c k pred k' :=
    if k' = k then (c k).map fun w => (w.1, if pred then .resolved else .queued) else c k'
  future c k := c k
  server := ⟨false, 0, false⟩
  listen v := { v with accepts := true }
  stop v := { v with accepts := false, stopping := true }
  take v := if v.accepts then some { v with handling := v.handling + 1 } else none
  reply v := if v.handling = 0 then none else some { v with handling := v.handling - 1 }
  accepts v := v.accepts
  handling v := v.handling
  stopping v := v.stopping
  stopped v := v.stopping ∧ v.accepts = false ∧ v.handling = 0

theorem plain_handlesSignals : plain.HandlesSignals where
  atStart _ := rfl
  replaces _ _ _ := if_pos rfl
  others _ _ _ _ hne := if_neg hne

theorem plain_wakesWaiters : plain.WakesWaiters where
  atStart _ := rfl
  wait _ _ _ _ _ := if_pos rfl
  wait_others _ _ _ _ _ hne := if_neg hne
  broadcast _ _ _ hk := if_pos hk
  broadcast_others _ _ _ hk := if_neg hk
  destroy _ _ _ hk := if_pos hk
  destroy_others _ _ _ hk := if_neg hk
  rerun c k o pred hk := by
    have hk' : c k = some (o, .woken) := hk
    simp [plain, hk']
  rerun_others _ _ _ _ hne := if_neg hne

theorem plain_take {v v' : PlainServer} (h : plain.take v = some v') :
    v.accepts = true ∧ v' = { v with handling := v.handling + 1 } := by
  simp only [plain] at h
  split_ifs at h with haccepts
  exact ⟨haccepts, (Option.some.inj h).symm⟩

theorem plain_reply {v v' : PlainServer} (h : plain.reply v = some v') :
    v.handling ≠ 0 ∧ v' = { v with handling := v.handling - 1 } := by
  simp only [plain] at h
  split_ifs at h with hnone
  exact ⟨hnone, (Option.some.inj h).symm⟩

theorem plain_drains : plain.Drains where
  atStart := ⟨rfl, rfl⟩
  listen _ := rfl
  stop _ := ⟨nofun, rfl⟩
  take v v' h := by
    obtain ⟨haccepts, rfl⟩ := plain_take h
    exact ⟨haccepts, rfl⟩
  reply v v' h := by
    obtain ⟨hsome, rfl⟩ := plain_reply h
    exact (Nat.succ_pred_eq_of_ne_zero hsome).symm
  stopped v h := (of_decide_eq_true h).2

theorem plain_keepsListening : plain.KeepsListening where
  atStart := rfl
  listen _ := ⟨rfl, rfl⟩
  stop _ := rfl
  take v v' h := by
    obtain ⟨haccepts, rfl⟩ := plain_take h
    exact ⟨rfl, fun _ => haccepts⟩
  reply v v' h := by
    obtain ⟨-, rfl⟩ := plain_reply h
    exact ⟨rfl, fun _ => rfl⟩

theorem plain_progresses : plain.Progresses where
  reply v h := by
    have h' : v.handling ≠ 0 := h
    simp [plain, h']
  stopped v hstopping hnone htake := by
    refine decide_eq_true ⟨hstopping, Bool.eq_false_iff.2 fun haccepts => ?_, hnone⟩
    simp [plain, haccepts] at htake

end Seastar
end SeastarStarter
