import SeastarStarter.Reentrancy

/-!
# Calls come to an end

The loop of `call` (EVENTS.h:33) may meet entries that are attached while it runs, so it is not
clear from its code that it ends. Where the iterators are kept, a call invokes each entry at most
once, and all it can meet are the entries that were there and those attached since
(`invocations_le`). Once the router is left alone, every running loop ends and every handler's
future resolves after a number of steps that the state tells (`calls_end`).
-/

namespace UnorderedMap.NodeMap

variable {K V : Type*}

/-- How many nodes come after the node `id`. -/
def rest (m : NodeMap K V) (id : Nat) : Nat := (m.nodes.dropWhile fun n => n.id ≠ id).tail.length

theorem rest_eq {m : NodeMap K V} {A B : List (Node K V)} {cur : Node K V}
    (h : m.nodes = A ++ cur :: B) : m.rest cur.id = B.length := by
  have hA : ∀ n ∈ A, decide (n.id ≠ cur.id) = true := by
    intro n hn
    have hids := m.ids
    rw [h, List.map_append, List.map_cons] at hids
    have hne := List.disjoint_of_nodup_append hids (List.mem_map_of_mem hn)
    simpa using fun heq => hne (List.mem_cons.2 (.inl heq))
  unfold rest
  rw [h, List.dropWhile_append_of_pos hA]
  simp

/-- `++it` leaves one node fewer to come. -/
theorem rest_after {m : NodeMap K V} {id : Nat} {n : Node K V} (h : m.after id = some n) :
    m.rest n.id + 1 = m.rest id := by
  unfold after at h
  have hsplit := List.takeWhile_append_dropWhile (p := fun n : Node K V => n.id ≠ id) (l := m.nodes)
  cases hdrop : m.nodes.dropWhile fun n => n.id ≠ id with
  | nil =>
    rw [hdrop] at h
    cases h
  | cons cur B =>
    rw [hdrop] at h hsplit
    cases B with
    | nil => cases h
    | cons n' B =>
      obtain rfl := Option.some.inj h
      have hnodes : m.nodes = (m.nodes.takeWhile (fun n => n.id ≠ id) ++ [cur]) ++ n' :: B :=
        hsplit.symm.trans (by simp)
      rw [rest_eq hnodes, rest, hdrop]
      rfl

end UnorderedMap.NodeMap

namespace SeastarStarter.Reactor

open UnorderedMap Lts NodeMap

variable {H : Type} {s s' m : Reactor H} {a : Act H}

/-! ## How many handlers a call invokes -/

/-- `attach`, the one act that brings new entries. -/
def isAttach : Act H → Bool
  | .attach _ _ => true
  | _ => false

theorem nextId_of_emplace {map map' : NodeMap SizeT H} {k : SizeT} {v : H} {pl : Placement}
    (h : map.emplace k v pl = some map') : map'.nextId ≤ map.nextId + 1 := by
  rcases emplace_cases h with ⟨-, rfl⟩ | ⟨hk, -, -, rfl⟩ | ⟨hk, capacity, -, rfl⟩
  · exact Nat.le_succ _
  · exact Nat.le_refl _
  · exact Nat.le_refl _

/-- The acts in which a handler returns or its future resolves. -/
def isReturn : Act H → Bool
  | .ret _ => true
  | .finish _ => true
  | _ => false

theorem kept_return (s : Reactor H) (ha : isReturn a = true) : IteratorsKept s a := by
  cases a with
  | ret ready => trivial
  | finish i => trivial
  | call => trivial
  | attach handler pl => cases ha
  | detach handle => cases ha

theorem along_kept_returns {acts : List (Act H)} (h : ∀ a ∈ acts, isReturn a = true) :
    Along step IteratorsKept s acts :=
  (along_of_forall_mem h).mono fun s _ ha => kept_return s ha

/-- New identities come from attaches only. -/
theorem nextId_step (h : step s a = some s') :
    s'.container.nextId ≤ s.container.nextId + (isAttach a).toNat := by
  obtain ⟨-, hp⟩ := step_some.1 h
  cases a with
  | attach handler pl =>
    obtain ⟨container, hc, rfl⟩ := attach_some hp
    exact nextId_of_emplace hc
  | call =>
    cases hp
    simp
  | detach handle =>
    cases hp
    rcases detach_cases s handle with ⟨-, he⟩ | ⟨n, -, he⟩ <;> simp [he, erase]
  | ret ready =>
    obtain ⟨l, outer, pending, -, -, rfl⟩ := ret_some hp
    simp
  | finish i =>
    obtain ⟨-, rfl⟩ := finish_some hp
    simp

theorem nextId_exec {acts : List (Act H)} (hex : exec step s acts = some s') :
    s'.container.nextId ≤ s.container.nextId + acts.countP isAttach := by
  induction acts generalizing s with
  | nil =>
    cases hex
    simp
  | cons a acts ih =>
    obtain ⟨m, hm, hrest⟩ := exec_cons_some.1 hex
    have hstep := nextId_step hm
    have hih := ih hrest
    by_cases ha : isAttach a = true <;> simp [ha] at hstep ⊢ <;> omega

/-- Since the call made in `m`, the entries are those of then and new ones, and so are the entries
the call has invoked. -/
structure Known (m s : Reactor H) : Prop where
  nodes : ∀ n ∈ s.container.nodes, n.id ∈ m.container.nodes.map Node.id ∨ m.container.nextId ≤ n.id
  invoked : ∀ i ∈ s.invoked, i.call = m.calls →
    i.entry ∈ m.container.nodes.map Node.id ∨ m.container.nextId ≤ i.entry
  nextId : m.container.nextId ≤ s.container.nextId

theorem Known.step (hk : Known m s) (h : step s a = some s') : Known m s' := by
  obtain ⟨hle, hnew, -⟩ := step_container h
  refine ⟨fun n hn => ?_, fun i hi hcall => ?_, Nat.le_trans hk.nextId hle⟩
  · rcases hnew n hn with hn | hid
    · exact hk.nodes n hn
    · exact Or.inr (hid ▸ hk.nextId)
  · rcases step_invocations h with ⟨he, -⟩ | ⟨call, n, pending, hn, -, -, he, -⟩
    · exact hk.invoked i (he ▸ hi) hcall
    · rw [he] at hi
      rcases List.mem_cons.1 hi with rfl | hi
      · exact hk.nodes n hn
      · exact hk.invoked i hi hcall

/-- The entries that `call` has invoked, the latest first. -/
def entriesOf (s : Reactor H) (call : Nat) : List Nat :=
  (s.invoked.filter fun i => i.call = call).map Invocation.entry

theorem mem_entriesOf {call e : Nat} : e ∈ s.entriesOf call ↔ ⟨call, e⟩ ∈ s.invoked := by
  simp only [entriesOf, List.mem_map, List.mem_filter, decide_eq_true_eq]
  constructor
  · rintro ⟨i, ⟨hi, rfl⟩, rfl⟩
    exact hi
  · intro h
    exact ⟨_, ⟨h, rfl⟩, rfl⟩

theorem count_entriesOf (call e : Nat) : (s.entriesOf call).count e = s.visits call e := by
  unfold entriesOf visits
  induction s.invoked with
  | nil => rfl
  | cons i invoked ih =>
    by_cases hcall : i.call = call
    · by_cases he : i.entry = e
      · have hi : i = ⟨call, e⟩ := by cases i; simp_all
        simp [hi, ih]
      · have hi : i ≠ ⟨call, e⟩ := fun heq => he (by rw [heq])
        simp [hcall, he, hi, ih, List.count_cons_of_ne]
    · have hi : i ≠ ⟨call, e⟩ := fun heq => hcall (by rw [heq])
      simp [hcall, hi, ih, List.count_cons_of_ne]

/-- **A call invokes no more handlers than there were entries when it began and attaches since**,
in every run whose acts leave the iterators of the running loops alone. -/
theorem invocations_le (nextHandle : SizeT) (container : NodeMap SizeT H) (pre post : List (Act H))
    (hkept : Along step IteratorsKept (idle nextHandle container) (pre ++ .call :: post))
    (hpre : exec step (idle nextHandle container) pre = some m)
    (hpost : exec step m (.call :: post) = some s) :
    (s.entriesOf m.calls).Nodup ∧
      (s.entriesOf m.calls).length ≤ m.container.nodes.length + post.countP isAttach := by
  have hwm : WF m := by
    have hall := always_of_along (fun _ _ _ h hk hs => WF.after_step h hk hs)
      (wf_idle nextHandle container) hkept
    exact hall pre (.call :: post) m rfl hpre
  obtain ⟨m₁, hm₁, hrest⟩ := exec_cons_some.1 hpost
  have hkeptm : Along step IteratorsKept m (.call :: post) := by
    intro p a q k hp hk
    exact hkept (pre ++ p) a q k (by rw [hp]; simp) (exec_append_some.2 ⟨m, hpre, hk⟩)
  obtain ⟨hk₁, hkpost⟩ := along_cons.1 hkeptm
  obtain ⟨-, hperf⟩ := step_some.1 hm₁
  cases hperf
  have hknown : Known m m := by
    refine ⟨fun n hn => Or.inl (List.mem_map_of_mem hn), fun i hi hcall => ?_, Nat.le_refl _⟩
    exact absurd (hwm.invoked_lt i hi).1 (by omega)
  have hfinal : WF s ∧ Progress m.calls (m.container.nodes.map Node.id) s ∧ Known m s := by
    refine exec_along (I := fun k => WF k ∧ Progress m.calls (m.container.nodes.map Node.id) k ∧
      Known m k) (fun k a k' hI hk hs => ?_)
      ⟨hwm.after_step hk₁ hm₁, progress_call hwm, hknown.step hm₁⟩ (hkpost _ hm₁) hrest
    exact ⟨hI.1.after_step hk hs, hI.2.1.after_step hI.1 hk hs, hI.2.2.step hs⟩
  obtain ⟨hw, hprogress, hknown⟩ := hfinal
  have hnodup : (s.entriesOf m.calls).Nodup := by
    rw [List.nodup_iff_count_le_one]
    intro e
    rw [count_entriesOf]
    exact hprogress.once e
  refine ⟨hnodup, ?_⟩
  -- the old entries, and the identities given out since
  have hsubset : s.entriesOf m.calls ⊆ m.container.nodes.map Node.id ++
      (List.range (s.container.nextId - m.container.nextId)).map (m.container.nextId + ·) := by
    intro e he
    have hinvoked := mem_entriesOf.1 he
    rcases hknown.invoked _ hinvoked rfl with hold | hnew
    · exact List.mem_append_left _ hold
    · have hlt := (hw.invoked_lt _ hinvoked).2
      refine List.mem_append_right _ (List.mem_map.2 ⟨e - m.container.nextId, ?_, ?_⟩)
      · rw [List.mem_range]
        dsimp only at hnew hlt
        omega
      · dsimp only at hnew
        omega
  have hlength := (List.subperm_of_subset hnodup hsubset).length_le
  have hids : s.container.nextId ≤ m.container.nextId + post.countP isAttach := by
    have h := nextId_exec hrest
    rwa [call_container] at h
  simp only [List.length_append, List.length_map, List.length_range] at hlength
  omega

/-- One entry, whose handler attaches another one: the call invokes both of them. -/
theorem invocations_le_attached : ∃ s : Reactor Unit,
    (s.entriesOf 0).Nodup ∧ (s.entriesOf 0).length ≤ 1 + 1 ∧ s.entriesOf 0 = [1, 0] := by
  obtain ⟨s, hs, hentries⟩ : ∃ s, (exec step (idle 1 (NodeMap.empty 8) : Reactor Unit)
      [.attach () (.keep 0), .call, .attach () (.keep 1), .ret true, .ret true] = some s) ∧
      s.entriesOf 0 = [1, 0] := ⟨_, rfl, by decide⟩
  obtain ⟨m, hm, hrest⟩ := exec_cons_some.1 hs
  cases hm
  obtain ⟨h₁, h₂⟩ := invocations_le (H := Unit) 1 (NodeMap.empty 8) [.attach () (.keep 0)]
    [.attach () (.keep 1), .ret true, .ret true]
    (along_cons.2 ⟨fun h => absurd rfl h, fun m hm => by
      cases hm
      refine along_cons.2 ⟨trivial, fun m hm => ?_⟩
      cases hm
      refine along_cons.2 ⟨fun _ => by decide, fun m hm => ?_⟩
      exact along_kept_returns (by simp [isReturn])⟩)
    rfl hrest
  exact ⟨s, h₁, h₂, hentries⟩

/-! ## Where the router is left alone -/

/-- The steps the running loops have left: each handler to come returns and may leave a future
to resolve. -/
def toCome (container : NodeMap SizeT H) : List Loop → Nat
  | [] => 0
  | l :: loops => 2 * container.rest l.it + 1 + toCome container loops

/-- The steps that are left where nothing is called, attached or detached any more. -/
def work (s : Reactor H) : Nat := toCome s.container s.loops + s.pending.length

/-- **The step of `calls_end`**: a return, or a future that resolves, is one step less. -/
theorem work_step (hw : WF s) (ha : isReturn a = true) (h : step s a = some s') :
    s'.work < s.work := by
  obtain ⟨-, hp⟩ := step_some.1 h
  cases a with
  | ret ready =>
    obtain ⟨l, outer, pending, hl, hsub, rfl⟩ := ret_some hp
    have hlength := hsub.length_le
    have hvalid : l.valid = true := hw.valid l (by rw [hl]; exact List.mem_cons_self)
    rcases advance_cases { s with pending := pending } l outer with
      ⟨-, -, he⟩ | ⟨n, -, hn, he⟩ | ⟨hv, -⟩
    · rw [he]
      simp only [work, hl, toCome]
      omega
    · -- one handler fewer to come, and perhaps one more in flight
      have hrest : s.container.rest n.id + 1 = s.container.rest l.it := NodeMap.rest_after hn
      rw [he]
      simp only [work, invoke, hl, toCome, List.length_cons]
      omega
    · rw [hvalid] at hv
      cases hv
  | finish i =>
    obtain ⟨hi, rfl⟩ := finish_some hp
    have hlength := List.length_erase_of_mem hi
    have hpos := List.length_pos_of_mem hi
    simp only [work]
    omega
  | call => cases ha
  | attach handler pl => cases ha
  | detach handle => cases ha

/-- A router on which a loop runs or a handler is in flight has a step to take. -/
theorem return_enabled (hw : WF s) (h : s.loops ≠ [] ∨ s.pending ≠ []) :
    ∃ a : Act H, isReturn a = true ∧ (step s a).isSome = true := by
  cases hloops : s.loops with
  | cons l outer =>
    refine ⟨.ret true, rfl, ?_⟩
    simp [step, hw.defined, perform, ret, hloops]
  | nil =>
    have hpending : s.pending ≠ [] := h.resolve_left (absurd hloops)
    obtain ⟨i, pending, hp⟩ := List.exists_cons_of_ne_nil hpending
    refine ⟨.finish i, rfl, ?_⟩
    simp [step, hw.defined, perform, finish, hloops, hp]

/-- **Calls end.** After any run whose acts left the iterators of the running loops alone, once
nothing more is called, attached or detached: the handlers can return and their futures resolve
`m.work` times at most, and where none of them can any more every loop is over and every
invocation resolved. -/
theorem calls_end (nextHandle : SizeT) (container : NodeMap SizeT H) (pre post : List (Act H))
    (hkept : Along step IteratorsKept (idle nextHandle container) pre)
    (hpre : exec step (idle nextHandle container) pre = some m)
    (hreturns : ∀ a ∈ post, isReturn a = true) (hpost : exec step m post = some s) :
    s.undefined = false ∧ post.length + s.work ≤ m.work ∧
      ((∀ a : Act H, isReturn a = true → step s a = none) → s.loops = [] ∧ s.pending = []) := by
  have hwm : WF m := exec_along (fun _ _ _ h hk hs => WF.after_step h hk hs)
    (wf_idle nextHandle container) hkept hpre
  have halong : Along step (fun _ a => isReturn a = true) m post := along_of_forall_mem hreturns
  have hws : WF s := exec_along (fun k a _ h ha hs => h.after_step (kept_return k ha) hs) hwm halong hpost
  refine ⟨hws.defined, ?_, fun hstuck => ?_⟩
  · refine exec_potential_along work (fun k a k' h ha hs => ?_) hwm halong hpost
    exact ⟨h.after_step (kept_return k ha) hs, work_step h ha hs⟩
  · by_contra hne
    have hbusy : s.loops ≠ [] ∨ s.pending ≠ [] := by
      by_contra hnone
      push Not at hnone
      exact hne hnone
    obtain ⟨a, ha, henabled⟩ := return_enabled hws hbusy
    rw [hstuck a ha] at henabled
    cases henabled

/-- Two entries; the first handler suspends, the second one is ready at once. -/
theorem calls_end_suspended : ∃ m s : Reactor Unit,
    m.work = 4 ∧ s.undefined = false ∧ 3 + s.work ≤ m.work ∧
      ((∀ a : Act Unit, isReturn a = true → step s a = none) → s.loops = [] ∧ s.pending = []) := by
  obtain ⟨h₁, h₂, h₃⟩ := calls_end (H := Unit) 1 (NodeMap.empty 8)
    [.attach () (.keep 0), .attach () (.keep 1), .call] [.ret false, .ret true, .finish ⟨0, 0⟩]
    (along_cons.2 ⟨fun h => absurd rfl h, fun m hm => by
      cases hm
      refine along_cons.2 ⟨fun h => absurd rfl h, fun m hm => ?_⟩
      exact along_cons.2 ⟨trivial, fun _ _ => along_nil⟩⟩)
    rfl (by simp [isReturn]) rfl
  exact ⟨_, _, by decide, h₁, h₂, h₃⟩

end SeastarStarter.Reactor
