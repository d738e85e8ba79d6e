import SeastarStarter.EventRouter
import SeastarStarter.Lib.Lts
import SeastarStarter.Lib.NodeMap

/-!
# The dispatch loop of `event_router::call` on the live container

`EventRouter.lean` has what a call invokes; here is how (INCLUDE/EVENTS.h:26-37):
`parallel_for_each` walks `dispatch_container` itself, calls the handler of the entry its
iterator stands on, and advances when that handler has returned its future. `call` takes no
lock, so between two steps of a loop the router may be changed: by the handler, in the part of
it that runs before its first suspension, and between loops by any other fiber.

| here | there |
| --- | --- |
| `Loop`           | a running loop: the entry its iterator stands on, and whether the iterator is still valid |
| `Act.call`       | `call(event)` up to the first handler; an empty container returns at once (`:28-31`) |
| `Act.attach`, `Act.detach` | `attach` (`:39-45`), `detach` (`:52-61`); `~event_router_RAII` is the detach of its handle (`:90-94`) |
| `Act.ret ready`  | the innermost running handler returns its future, and the loop does `++it` |
| `Act.finish i`   | a suspended invocation completes; what it runs in between are acts of their own |
| `undefined`      | `++it` was done on an invalid iterator |

One reactor thread runs all of this, so the running loops form a stack. Erasing an entry
invalidates the iterators on it, an insertion that rehashes invalidates all of them.
-/

namespace SeastarStarter

open UnorderedMap Lts

structure Loop where
  /-- Which `call` of the run this is. -/
  call : Nat
  it : Nat
  valid : Bool

/-- The handler of entry `entry`, invoked by `call`. -/
structure Invocation where
  call : Nat
  entry : Nat
deriving DecidableEq

structure Reactor (H : Type) where
  nextHandle : SizeT
  container : NodeMap SizeT H
  calls : Nat
  /-- Innermost first. -/
  loops : List Loop
  /-- Invocations whose future is not resolved. -/
  pending : List Invocation
  /-- Every invocation there has been, the latest first. -/
  invoked : List Invocation
  undefined : Bool

inductive Act (H : Type) where
  | call
  | attach (handler : H) (pl : Placement)
  | detach (handle : SizeT)
  | ret (ready : Bool)
  | finish (i : Invocation)

def Loop.invalidate (l : Loop) : Loop := { l with valid := false }

def Loop.erased (entry : Nat) (l : Loop) : Loop := if l.it = entry then l.invalidate else l

namespace Reactor

variable {H : Type}

/-- A router with any counter and any content, nothing running. -/
def idle (nextHandle : SizeT) (container : NodeMap SizeT H) : Reactor H :=
  ⟨nextHandle, container, 0, [], [], [], false⟩

/-- The loop of `call` reaches entry `n`. -/
def invoke (s : Reactor H) (call : Nat) (n : Node SizeT H) (outer : List Loop) : Reactor H :=
  { s with
    loops := ⟨call, n.id, true⟩ :: outer
    pending := ⟨call, n.id⟩ :: s.pending
    invoked := ⟨call, n.id⟩ :: s.invoked }

def call (s : Reactor H) : Reactor H :=
  let s' := { s with calls := s.calls + 1 }
  match s.container.nodes with
  | [] => s'
  | n :: _ => s'.invoke s.calls n s.loops

def attach (s : Reactor H) (handler : H) (pl : Placement) : Option (Reactor H) :=
  (s.container.emplace s.nextHandle handler pl).map fun container =>
    { s with
      nextHandle := s.nextHandle + 1
      container := container
      loops := if s.container.Rehashes s.nextHandle then s.loops.map Loop.invalidate else s.loops }

def detach (s : Reactor H) (handle : SizeT) : Reactor H :=
  match s.container.find? handle with
  | none => s
  | some n =>
    { s with
      nextHandle := s.nextHandle - 1
      container := s.container.erase handle
      loops := s.loops.map (Loop.erased n.id) }

/-- The innermost loop goes on: `++it`, then the next handler or the end of the loop. -/
def advance (s : Reactor H) (l : Loop) (outer : List Loop) : Reactor H :=
  if l.valid then
    match s.container.after l.it with
    | none => { s with loops := outer }
    | some n => s.invoke l.call n outer
  else { s with undefined := true }

def ret (s : Reactor H) (ready : Bool) : Option (Reactor H) :=
  match s.loops with
  | [] => none
  | l :: outer =>
    let pending := if ready then s.pending.erase ⟨l.call, l.it⟩ else s.pending
    some ({ s with pending := pending }.advance l outer)

def finish (s : Reactor H) (i : Invocation) : Option (Reactor H) :=
  if s.loops.isEmpty && s.pending.contains i then some { s with pending := s.pending.erase i }
  else none

def perform (s : Reactor H) : Act H → Option (Reactor H)
  | .call => some s.call
  | .attach handler pl => s.attach handler pl
  | .detach handle => some (s.detach handle)
  | .ret ready => s.ret ready
  | .finish i => s.finish i

/-- Nothing is said of what happens after an undefined `++it`. -/
def step (s : Reactor H) (a : Act H) : Option (Reactor H) :=
  if s.undefined then none else s.perform a

/-! ## What a step does -/

variable {s s' : Reactor H} {a : Act H}

theorem step_some : step s a = some s' ↔ s.undefined = false ∧ s.perform a = some s' := by
  unfold step
  cases s.undefined <;> simp

theorem call_cases (s : Reactor H) :
    (s.container.nodes = [] ∧ s.call = { s with calls := s.calls + 1 }) ∨
    ∃ n rest, s.container.nodes = n :: rest ∧
      s.call = { s with calls := s.calls + 1 }.invoke s.calls n s.loops := by
  unfold call
  cases h : s.container.nodes with
  | nil => exact .inl ⟨rfl, rfl⟩
  | cons n rest => exact .inr ⟨n, rest, rfl, rfl⟩

theorem attach_some {handler : H} {pl : Placement} (h : s.attach handler pl = some s') :
    ∃ container, s.container.emplace s.nextHandle handler pl = some container ∧
      s' = { s with
        nextHandle := s.nextHandle + 1
        container := container
        loops := if s.container.Rehashes s.nextHandle then s.loops.map Loop.invalidate else s.loops } := by
  obtain ⟨container, hc, rfl⟩ := Option.map_eq_some_iff.1 h
  exact ⟨container, hc, rfl⟩

theorem detach_cases (s : Reactor H) (handle : SizeT) :
    (¬ s.container.contains handle ∧ s.detach handle = s) ∨
    ∃ n, s.container.find? handle = some n ∧
      s.detach handle = { s with
        nextHandle := s.nextHandle - 1
        container := s.container.erase handle
        loops := s.loops.map (Loop.erased n.id) } := by
  unfold detach
  cases h : s.container.find? handle with
  | none => exact .inl ⟨NodeMap.find?_none.1 h, rfl⟩
  | some n => exact .inr ⟨n, rfl, rfl⟩

theorem ret_some {ready : Bool} (h : s.ret ready = some s') :
    ∃ l outer pending, s.loops = l :: outer ∧ pending.Sublist s.pending ∧
      s' = { s with pending := pending }.advance l outer := by
  unfold ret at h
  cases hl : s.loops with
  | nil => rw [hl] at h; cases h
  | cons l outer =>
    rw [hl] at h
    cases h
    refine ⟨l, outer, _, rfl, ?_, rfl⟩
    split
    · exact List.erase_sublist
    · exact List.Sublist.refl _

theorem advance_cases (s : Reactor H) (l : Loop) (outer : List Loop) :
    (l.valid = true ∧ s.container.after l.it = none ∧ s.advance l outer = { s with loops := outer }) ∨
    (∃ n, l.valid = true ∧ s.container.after l.it = some n ∧
      s.advance l outer = s.invoke l.call n outer) ∨
    (l.valid = false ∧ s.advance l outer = { s with undefined := true }) := by
  unfold advance
  cases hv : l.valid with
  | false => exact .inr (.inr ⟨rfl, rfl⟩)
  | true =>
    cases hn : s.container.after l.it with
    | none => exact .inl ⟨rfl, rfl, rfl⟩
    | some n => exact .inr (.inl ⟨n, rfl, rfl, rfl⟩)

theorem finish_some {i : Invocation} (h : s.finish i = some s') :
    i ∈ s.pending ∧ s' = { s with pending := s.pending.erase i } := by
  unfold finish at h
  split at h
  · rename_i hc
    cases h
    simp only [Bool.and_eq_true, List.contains_iff_mem] at hc
    exact ⟨hc.2, rfl⟩
  · cases h

@[simp] theorem call_container (s : Reactor H) : s.call.container = s.container := by
  rcases call_cases s with ⟨-, he⟩ | ⟨n, rest, -, he⟩ <;> (rw [he]; try rfl)

@[simp] theorem advance_container (s : Reactor H) (l : Loop) (outer : List Loop) :
    (s.advance l outer).container = s.container := by
  rcases advance_cases s l outer with ⟨-, -, he⟩ | ⟨n, -, -, he⟩ | ⟨-, he⟩ <;> (rw [he]; try rfl)

/-- What a step does to the container: nodes come only with an unused identity, and go only
with the detach of their handle. -/
theorem step_container (h : step s a = some s') :
    s.container.nextId ≤ s'.container.nextId ∧
    (∀ n ∈ s'.container.nodes, n ∈ s.container.nodes ∨ n.id = s.container.nextId) ∧
    ∀ n ∈ s.container.nodes, n ∈ s'.container.nodes ∨ a = .detach n.key := by
  have same : s'.container = s.container →
      s.container.nextId ≤ s'.container.nextId ∧
      (∀ n ∈ s'.container.nodes, n ∈ s.container.nodes ∨ n.id = s.container.nextId) ∧
      ∀ n ∈ s.container.nodes, n ∈ s'.container.nodes ∨ a = .detach n.key := by
    intro he
    rw [he]
    exact ⟨Nat.le_refl _, fun n hn => .inl hn, fun n hn => .inl hn⟩
  obtain ⟨-, hp⟩ := step_some.1 h
  cases a with
  | call =>
    cases hp
    exact same (call_container s)
  | attach handler pl =>
    obtain ⟨container, hc, rfl⟩ := attach_some hp
    exact ⟨NodeMap.nextId_le_of_emplace hc, fun n hn => NodeMap.mem_emplace hc hn,
      fun n hn => .inl (NodeMap.mem_of_emplace hc hn)⟩
  | detach handle =>
    cases hp
    rcases detach_cases s handle with ⟨-, he⟩ | ⟨m, -, he⟩
    · exact same (by rw [he])
    · rw [he]
      refine ⟨Nat.le_refl _, fun n hn => .inl (NodeMap.mem_erase.1 hn).1, fun n hn => ?_⟩
      by_cases hk : n.key = handle
      · exact .inr (by rw [hk])
      · exact .inl (NodeMap.mem_erase.2 ⟨hn, hk⟩)
  | ret ready =>
    obtain ⟨l, outer, pending, -, -, rfl⟩ := ret_some hp
    exact same (advance_container _ l outer)
  | finish i =>
    obtain ⟨-, rfl⟩ := finish_some hp
    exact same rfl

/-- What a step does to the invocations: it starts none, or one of an entry in the container
(which it leaves alone). -/
theorem step_invocations (h : step s a = some s') :
    (s'.invoked = s.invoked ∧ s'.pending.Sublist s.pending) ∨
    ∃ call n pending, n ∈ s.container.nodes ∧ s'.container = s.container ∧
      pending.Sublist s.pending ∧ s'.invoked = ⟨call, n.id⟩ :: s.invoked ∧
      s'.pending = ⟨call, n.id⟩ :: pending := by
  obtain ⟨-, hp⟩ := step_some.1 h
  cases a with
  | call =>
    cases hp
    rcases call_cases s with ⟨-, he⟩ | ⟨n, rest, hn, he⟩
    · rw [he]; exact .inl ⟨rfl, List.Sublist.refl _⟩
    · rw [he]
      exact .inr ⟨s.calls, n, s.pending, by rw [hn]; exact List.mem_cons_self, rfl,
        List.Sublist.refl _, rfl, rfl⟩
  | attach handler pl =>
    obtain ⟨container, hc, rfl⟩ := attach_some hp
    exact .inl ⟨rfl, List.Sublist.refl _⟩
  | detach handle =>
    cases hp
    rcases detach_cases s handle with ⟨-, he⟩ | ⟨m, -, he⟩ <;>
      (rw [he]; exact .inl ⟨rfl, List.Sublist.refl _⟩)
  | ret ready =>
    obtain ⟨l, outer, pending, -, hsub, rfl⟩ := ret_some hp
    rcases advance_cases { s with pending := pending } l outer with
      ⟨-, -, he⟩ | ⟨n, -, hn, he⟩ | ⟨-, he⟩
    · rw [he]; exact .inl ⟨rfl, hsub⟩
    · rw [he]
      exact .inr ⟨l.call, n, pending, NodeMap.mem_of_after hn, rfl, hsub, rfl, rfl⟩
    · rw [he]; exact .inl ⟨rfl, hsub⟩
  | finish i =>
    obtain ⟨-, rfl⟩ := finish_some hp
    exact .inl ⟨rfl, List.erase_sublist⟩

/-! ## Erased entries -/

/-- The identity `entry` has been used, and no node of the container has it. -/
def Gone (entry : Nat) (s : Reactor H) : Prop :=
  entry < s.container.nextId ∧ ∀ n ∈ s.container.nodes, n.id ≠ entry

theorem Gone.after_step {entry : Nat} (hg : Gone entry s) (h : step s a = some s') : Gone entry s' := by
  obtain ⟨hlt, hno⟩ := hg
  obtain ⟨hle, hnew, -⟩ := step_container h
  refine ⟨Nat.lt_of_lt_of_le hlt hle, fun n hn heq => ?_⟩
  rcases hnew n hn with hn | hn
  · exact hno n hn heq
  · omega

/-- An invocation of an erased entry is not started again, and is only ever resolved. -/
theorem Gone.count_step {i : Invocation} (hg : Gone i.entry s) (h : step s a = some s') :
    s'.invoked.count i = s.invoked.count i ∧ s'.pending.count i ≤ s.pending.count i := by
  rcases step_invocations h with ⟨he, hsub⟩ | ⟨call, n, pending, hn, -, hsub, he, hp⟩
  · rw [he]; exact ⟨rfl, hsub.count_le i⟩
  · have hne : (⟨call, n.id⟩ : Invocation) ≠ i := by
      rintro rfl; exact hg.2 n hn rfl
    rw [he, hp, List.count_cons_of_ne hne, List.count_cons_of_ne hne]
    exact ⟨rfl, hsub.count_le i⟩

theorem Gone.after_exec {i : Invocation} {acts : List (Act H)} (hg : Gone i.entry s)
    (h : exec step s acts = some s') :
    Gone i.entry s' ∧ s'.invoked.count i = s.invoked.count i ∧
      s'.pending.count i ≤ s.pending.count i := by
  refine exec_invariant (I := fun m => Gone i.entry m ∧ m.invoked.count i = s.invoked.count i ∧
    m.pending.count i ≤ s.pending.count i) ?_ ⟨hg, rfl, Nat.le_refl _⟩ h
  rintro m a m' ⟨hgm, hinv, hpen⟩ hs
  obtain ⟨hinv', hpen'⟩ := hgm.count_step hs
  exact ⟨hgm.after_step hs, hinv'.trans hinv, Nat.le_trans hpen' hpen⟩

theorem gone_detach {handle : SizeT} {n : Node SizeT H} (hn : s.container.find? handle = some n) :
    Gone n.id (s.detach handle) := by
  obtain ⟨hmem, hkey⟩ := NodeMap.find?_some.1 hn
  rcases detach_cases s handle with ⟨hno, -⟩ | ⟨m, -, he⟩
  · exact absurd (List.mem_map.2 ⟨n, hmem, hkey⟩) hno
  · rw [he]
    refine ⟨s.container.ids_lt n hmem, fun k hk hid => ?_⟩
    obtain ⟨hk, hne⟩ := NodeMap.mem_erase.1 hk
    exact hne ((NodeMap.eq_of_id hk hmem hid) ▸ hkey)

/-! ## The router behind it -/

/-- The loops and the iteration order left out. -/
def router (s : Reactor H) : EventRouter H := ⟨s.nextHandle, s.container.toMap⟩

/-- `attach` here is `event_router::attach`, wherever the new node lands. -/
theorem router_attach {handler : H} {pl : Placement} (h : s.attach handler pl = some s') :
    s'.router = (s.router.attach handler).2 := by
  obtain ⟨container, hc, rfl⟩ := attach_some h
  unfold router EventRouter.attach
  rw [NodeMap.toMap_emplace hc]

theorem router_detach (s : Reactor H) (handle : SizeT) :
    (s.detach handle).router = (s.router.detach handle).2 := by
  rcases detach_cases s handle with ⟨hno, he⟩ | ⟨n, hn, he⟩
  · rw [he, EventRouter.detach_of_notMem (mt NodeMap.mem_toMap.1 hno)]
  · obtain ⟨hmem, hkey⟩ := NodeMap.find?_some.1 hn
    have hin : handle ∈ s.router.dispatchContainer :=
      NodeMap.mem_toMap.2 (List.mem_map.2 ⟨n, hmem, hkey⟩)
    rw [he, EventRouter.detach_of_mem hin]
    unfold router
    rw [NodeMap.toMap_erase]

end Reactor
end SeastarStarter
