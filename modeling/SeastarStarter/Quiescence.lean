import SeastarStarter.Dispatch

/-!
# What a detach leaves running

`detach` erases an entry and returns; nothing in the router knows of the invocations that are
in flight. So after a detach (or the destruction of an `event_router_RAII`) the handler that
was removed may still be pending (`not_always_quiescent`). What does hold is in
`detach_leaves_only_started`: the removed handler is never started again, its invocations are
those that were in flight when `detach` ran and have not ended since, an invocation ceases to be
in flight only by its own end (`Ends`), and one in flight whose entry is gone was in flight when
the entry went.
-/

namespace SeastarStarter.Reactor

open UnorderedMap Lts

variable {H : Type} {s s' : Reactor H} {a : Act H} {i : Invocation}

/-- Every invocation in flight is of an entry that is still in `dispatch_container`. -/
def Quiescent (s : Reactor H) : Prop :=
  ∀ i ∈ s.pending, ∃ n ∈ s.container.nodes, n.id = i.entry

/-- Attach, call, the handler suspends, detach: the handler is still in flight. -/
theorem not_always_quiescent :
    ¬ ∀ acts : List (Act Unit), Always step Quiescent (idle 1 (NodeMap.empty 8)) acts := by
  intro h
  have hlast := (h [.attach () (.keep 0), .call, .ret false, .detach 1]).last rfl
  obtain ⟨n, hn, -⟩ := hlast ⟨0, 0⟩ (by decide)
  exact List.not_mem_nil hn

/-! ## How an invocation ends -/

/-- The step is the end of invocation `i`: its handler is the innermost running one and returns a
future that is resolved, or the future it is suspended on is resolved. -/
def Ends (s : Reactor H) (a : Act H) (i : Invocation) : Prop :=
  a = .finish i ∨ (a = .ret true ∧ ∃ l outer, s.loops = l :: outer ∧ i = ⟨l.call, l.it⟩)

theorem count_le_invoke {call : Nat} {n : Node SizeT H} {outer : List Loop} :
    s.pending.count i ≤ (s.invoke call n outer).pending.count i :=
  (List.sublist_cons_self _ _).count_le i

theorem count_le_advance {l : Loop} {outer : List Loop} :
    s.pending.count i ≤ (s.advance l outer).pending.count i := by
  rcases advance_cases s l outer with ⟨-, -, he⟩ | ⟨n, -, -, he⟩ | ⟨-, he⟩ <;> rw [he]
  exact count_le_invoke

/-- No step takes an invocation out of those in flight but its own end. -/
theorem ends_of_count_lt (h : step s a = some s') (hlt : s'.pending.count i < s.pending.count i) :
    Ends s a i := by
  obtain ⟨-, hp⟩ := step_some.1 h
  cases a with
  | call =>
    cases hp
    rcases call_cases s with ⟨-, he⟩ | ⟨n, rest, -, he⟩
    · rw [he] at hlt
      exact absurd hlt (Nat.lt_irrefl _)
    · have hle : s.pending.count i ≤ s.call.pending.count i := by
        rw [he]
        exact count_le_invoke (s := { s with calls := s.calls + 1 })
      omega
  | attach handler pl =>
    obtain ⟨container, -, rfl⟩ := attach_some hp
    exact absurd hlt (Nat.lt_irrefl _)
  | detach handle =>
    cases hp
    rcases detach_cases s handle with ⟨-, he⟩ | ⟨n, -, he⟩ <;> rw [he] at hlt <;>
      exact absurd hlt (Nat.lt_irrefl _)
  | ret ready =>
    simp only [perform, ret] at hp
    cases hl : s.loops with
    | nil =>
      rw [hl] at hp
      cases hp
    | cons l outer =>
      rw [hl] at hp
      obtain rfl := Option.some.inj hp
      have hcount := Nat.lt_of_le_of_lt count_le_advance hlt
      cases ready with
      | false => exact absurd hcount (Nat.lt_irrefl _)
      | true =>
        by_cases hi : i = ⟨l.call, l.it⟩
        · exact .inr ⟨rfl, l, outer, hl, hi⟩
        · simp only [if_true, List.count_erase_of_ne hi] at hcount
          exact absurd hcount (Nat.lt_irrefl _)
  | finish j =>
    obtain ⟨-, rfl⟩ := finish_some hp
    by_cases hi : i = j
    · exact .inl (by rw [hi])
    · simp only [List.count_erase_of_ne hi] at hlt
      exact absurd hlt (Nat.lt_irrefl _)

/-! ## Entries that are erased while they run -/

/-- The run `acts` erased the entry of `i` while `i` was in flight. -/
def ErasedInFlight (start : Reactor H) (acts : List (Act H)) (i : Invocation) : Prop :=
  ∃ pre handle post m n, acts = pre ++ .detach handle :: post ∧ exec step start pre = some m ∧
    m.container.find? handle = some n ∧ n.id = i.entry ∧ i ∈ m.pending

theorem ErasedInFlight.snoc {start : Reactor H} {acts : List (Act H)} {i : Invocation}
    (h : ErasedInFlight start acts i) (a : Act H) : ErasedInFlight start (acts ++ [a]) i := by
  obtain ⟨pre, handle, post, m, n, rfl, hm, hn, hid, hi⟩ := h
  exact ⟨pre, handle, post ++ [a], m, n, by simp, hm, hn, hid, hi⟩

/-- An invocation in flight has its entry in the container, or lost it while in flight. -/
theorem pending_present_or_erased {start : Reactor H} (hstart : start.pending = [])
    {acts : List (Act H)} (hex : exec step start acts = some s) :
    ∀ i ∈ s.pending, (∃ n ∈ s.container.nodes, n.id = i.entry) ∨ ErasedInFlight start acts i := by
  induction acts using List.reverseRecOn generalizing s with
  | nil =>
    cases hex
    intro i hi
    rw [hstart] at hi
    cases hi
  | append_singleton acts a ih =>
    obtain ⟨m, hm, ha⟩ := exec_snoc_some.1 hex
    intro i hi
    rcases step_invocations ha with ⟨-, hsub⟩ | ⟨call, n, pending, hn, hc, hsub, -, hp⟩
    · have him := hsub.subset hi
      rcases ih hm i him with ⟨n, hn, hid⟩ | herased
      · rcases (step_container ha).2.2 n hn with hn' | rfl
        · exact .inl ⟨n, hn', hid⟩
        · -- this very step is the detach that takes the entry of `i` away
          exact .inr ⟨acts, n.key, [], m, n, rfl, hm, NodeMap.find?_some.2 ⟨hn, rfl⟩, hid, him⟩
      · exact .inr (herased.snoc a)
    · rw [hp] at hi
      rw [hc]
      rcases List.mem_cons.1 hi with rfl | hi
      · exact .inl ⟨n, hn, rfl⟩
      · have him := hsub.subset hi
        rcases ih hm i him with hin | herased
        · exact .inl hin
        · exact .inr (herased.snoc a)

/-- A detach that erases entry `n` in state `m`, and a later state `s`: the invocations of `n`
that there are in `s` were all started before, and those in flight were in flight in `m`. -/
def OnlyStarted (m s : Reactor H) (n : Node SizeT H) : Prop :=
  ∀ i : Invocation, i.entry = n.id →
    s.invoked.count i = m.invoked.count i ∧ s.pending.count i ≤ m.pending.count i

/-- **After a detach.** In every run from a router with nothing running: a detach that erases
an entry neither waits for nor drops an invocation; from then on the handler it removed is not
started again and what is in flight of it was so at the detach; no invocation, of that handler or
another one, ceases to be in flight but by its own end; and at the end of the run every
invocation in flight belongs to an entry of the container or to one erased while the
invocation was in flight. -/
theorem detach_leaves_only_started (nextHandle : SizeT) (container : NodeMap SizeT H)
    (acts : List (Act H)) :
    (∀ pre handle post m n s, acts = pre ++ .detach handle :: post →
      exec step (idle nextHandle container) pre = some m → m.container.find? handle = some n →
      exec step m (.detach handle :: post) = some s →
        (m.detach handle).pending = m.pending ∧ OnlyStarted m s n) ∧
    Along step (fun m a => ∀ m', step m a = some m' →
      ∀ i : Invocation, m'.pending.count i < m.pending.count i → Ends m a i)
      (idle nextHandle container) acts ∧
    ∀ s, exec step (idle nextHandle container) acts = some s → ∀ i ∈ s.pending,
      (∃ n ∈ s.container.nodes, n.id = i.entry) ∨
        ErasedInFlight (idle nextHandle container) acts i := by
  refine ⟨fun pre handle post m n s _ _ hn hs => ?_,
    fun _ a _ m _ _ m' hstep i hlt => ends_of_count_lt hstep hlt, fun s hs => ?_⟩
  · have hpend : (m.detach handle).pending = m.pending ∧ (m.detach handle).invoked = m.invoked := by
      rcases detach_cases m handle with ⟨-, he⟩ | ⟨k, -, he⟩ <;> rw [he] <;> exact ⟨rfl, rfl⟩
    refine ⟨hpend.1, fun i hi => ?_⟩
    obtain ⟨m', hm', hrest⟩ := exec_cons_some.1 hs
    obtain ⟨-, hperf⟩ := step_some.1 hm'
    cases hperf
    have hgone : Gone i.entry (m.detach handle) := hi ▸ gone_detach hn
    obtain ⟨-, hinv, hpen⟩ := hgone.after_exec hrest
    rw [hpend.2] at hinv
    rw [hpend.1] at hpen
    exact ⟨hinv, hpen⟩
  · exact pending_present_or_erased rfl hs

end SeastarStarter.Reactor
