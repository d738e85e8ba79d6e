import SeastarStarter.Dispatch

/-!
# Handlers that change the router they are called from

`call` walks `dispatch_container` without the lock that `attach` and `detach` take, so a
handler may erase the entry whose handler it is, or make the container rehash, while the loop
stands on it; the `++it` that follows is undefined (`not_always_safe`: a handler that detaches
itself). `dispatch_safe_iff` says that these two are all there is: in a run whose acts leave the
iterators of the running loops alone, no `++it` is undefined and every call invokes each
handler that was there when it began, and was not detached before its turn, exactly once.

The invariant is `Progress`: where the walk of one call stands (`NodeMap.Standing`), for a
container that grows and shrinks around it.
-/

namespace SeastarStarter.Reactor

open UnorderedMap Lts NodeMap

variable {H : Type} {s s' : Reactor H} {a : Act H}

/-- The act erases no entry that a running loop stands on, and does not rehash under one. -/
def IteratorsKept (s : Reactor H) : Act H → Prop
  | .attach _ _ => s.loops ≠ [] → ¬ s.container.Rehashes s.nextHandle
  | .detach handle => ∀ n, s.container.find? handle = some n → ∀ l ∈ s.loops, l.it ≠ n.id
  | _ => True

/-- Entry `n` is detached by the acts `post` that follow the call made in `m`, before that call
has invoked it. -/
def DetachedBeforeTurn (m : Reactor H) (post : List (Act H)) (n : Node SizeT H) : Prop :=
  ∃ before after k, post = before ++ .detach n.key :: after ∧
    exec step m (.call :: before) = some k ∧ n ∈ k.container.nodes ∧ ⟨m.calls, n.id⟩ ∉ k.invoked

/-- A call whose loop is over has invoked every entry that was there when it began exactly
once, or not at all if the entry was detached before its turn. -/
def EachOnce (start : Reactor H) (acts : List (Act H)) : Prop :=
  ∀ pre post m s, acts = pre ++ .call :: post → exec step start pre = some m →
    exec step m (.call :: post) = some s → (∀ l ∈ s.loops, l.call ≠ m.calls) →
    ∀ n ∈ m.container.nodes, s.invoked.count ⟨m.calls, n.id⟩ = 1 ∨
      s.invoked.count ⟨m.calls, n.id⟩ = 0 ∧ DetachedBeforeTurn m post n

def DispatchSafe (start : Reactor H) (acts : List (Act H)) : Prop :=
  Always step (fun s => s.undefined = false) start acts ∧ EachOnce start acts

/-- One handler, which detaches itself before it returns. -/
theorem not_always_safe :
    ¬ ∀ (nextHandle : SizeT) (container : NodeMap SizeT Unit) (acts : List (Act Unit)),
      DispatchSafe (idle nextHandle container) acts := by
  intro h
  have hlast := (h 1 (NodeMap.empty 8) [.attach () (.keep 0), .call, .detach 1, .ret true]).1.last rfl
  exact absurd hlast (by decide)

/-! ## Acts that leave the iterators alone -/

/-- The loops of different calls, all of them on valid iterators, and a history of the past. -/
structure WF (s : Reactor H) : Prop where
  defined : s.undefined = false
  valid : ∀ l ∈ s.loops, l.valid = true
  calls_lt : ∀ l ∈ s.loops, l.call < s.calls
  calls_nodup : (s.loops.map Loop.call).Nodup
  invoked_lt : ∀ i ∈ s.invoked, i.call < s.calls ∧ i.entry < s.container.nextId

theorem wf_idle (nextHandle : SizeT) (container : NodeMap SizeT H) : WF (idle nextHandle container) :=
  ⟨rfl, fun _ h => absurd h List.not_mem_nil, fun _ h => absurd h List.not_mem_nil, List.nodup_nil,
    fun _ h => absurd h List.not_mem_nil⟩

theorem loops_erased {n : Node SizeT H} (h : ∀ l ∈ s.loops, l.it ≠ n.id) :
    s.loops.map (Loop.erased n.id) = s.loops := by
  conv_rhs => rw [← List.map_id s.loops]
  exact List.map_congr_left fun l hl => if_neg (h l hl)

/-- What a kept attach leaves of the loops: all of them. -/
theorem loops_attach (hkept : s.loops ≠ [] → ¬ s.container.Rehashes s.nextHandle) :
    (if s.container.Rehashes s.nextHandle then s.loops.map Loop.invalidate else s.loops) = s.loops := by
  split
  · rename_i hr
    by_cases hl : s.loops = []
    · rw [hl]; rfl
    · exact absurd hr (hkept hl)
  · rfl

theorem WF.after_invoke (hw : WF s) {call : Nat} {n : Node SizeT H} {outer : List Loop}
    (hn : n ∈ s.container.nodes) (hcall : call < s.calls) (houter : outer.Sublist s.loops)
    (hnew : call ∉ outer.map Loop.call) : WF (s.invoke call n outer) := by
  refine ⟨hw.defined, fun l hl => ?_, fun l hl => ?_, ?_, fun i hi => ?_⟩
  · rcases List.mem_cons.1 hl with rfl | hl
    · rfl
    · exact hw.valid l (houter.subset hl)
  · rcases List.mem_cons.1 hl with rfl | hl
    · exact hcall
    · exact hw.calls_lt l (houter.subset hl)
  · exact List.nodup_cons.2 ⟨hnew, hw.calls_nodup.sublist (houter.map _)⟩
  · rcases List.mem_cons.1 hi with rfl | hi
    · exact ⟨hcall, s.container.ids_lt n hn⟩
    · exact hw.invoked_lt i hi

/-- The state in which `call` invokes its first handler. -/
theorem WF.count_call (hw : WF s) : WF { s with calls := s.calls + 1 } :=
  ⟨hw.defined, hw.valid, fun l hl => Nat.lt_succ_of_lt (hw.calls_lt l hl), hw.calls_nodup,
    fun i hi => ⟨Nat.lt_succ_of_lt (hw.invoked_lt i hi).1, (hw.invoked_lt i hi).2⟩⟩

theorem WF.call_notMem (hw : WF s) : s.calls ∉ s.loops.map Loop.call := by
  intro hmem
  obtain ⟨l, hl, heq⟩ := List.mem_map.1 hmem
  exact Nat.ne_of_lt (hw.calls_lt l hl) heq

theorem WF.outer_ne (hw : WF s) {l : Loop} {outer : List Loop} (hl : s.loops = l :: outer) :
    ∀ l' ∈ outer, l'.call ≠ l.call := by
  intro l' hl' heq
  have hnd := hw.calls_nodup
  rw [hl, List.map_cons, List.nodup_cons] at hnd
  exact hnd.1 (heq ▸ List.mem_map_of_mem hl')

theorem WF.after_step (hw : WF s) (hkept : IteratorsKept s a) (h : step s a = some s') : WF s' := by
  obtain ⟨-, hp⟩ := step_some.1 h
  cases a with
  | call =>
    cases hp
    rcases call_cases s with ⟨-, he⟩ | ⟨n, rest, hn, he⟩
    · rw [he]; exact hw.count_call
    · rw [he]
      exact hw.count_call.after_invoke (by rw [hn]; exact List.mem_cons_self) (Nat.lt_succ_self _)
        (List.Sublist.refl _) hw.call_notMem
  | attach handler pl =>
    obtain ⟨container, hc, rfl⟩ := attach_some hp
    rw [loops_attach hkept]
    exact ⟨hw.defined, hw.valid, hw.calls_lt, hw.calls_nodup, fun i hi => ⟨(hw.invoked_lt i hi).1,
      Nat.lt_of_lt_of_le (hw.invoked_lt i hi).2 (NodeMap.nextId_le_of_emplace hc)⟩⟩
  | detach handle =>
    cases hp
    rcases detach_cases s handle with ⟨-, he⟩ | ⟨n, hn, he⟩
    · rw [he]; exact hw
    · rw [he, loops_erased (hkept n hn)]
      exact ⟨hw.defined, hw.valid, hw.calls_lt, hw.calls_nodup, hw.invoked_lt⟩
  | ret ready =>
    obtain ⟨l, outer, pending, hl, -, rfl⟩ := ret_some hp
    have hwp : WF { s with pending := pending } :=
      ⟨hw.defined, hw.valid, hw.calls_lt, hw.calls_nodup, hw.invoked_lt⟩
    have hmem : l ∈ s.loops := by rw [hl]; exact List.mem_cons_self
    have hsub : outer.Sublist s.loops := by rw [hl]; exact List.sublist_cons_self l outer
    rcases advance_cases { s with pending := pending } l outer with
      ⟨-, -, he⟩ | ⟨n, -, hn, he⟩ | ⟨hv, -⟩
    · rw [he]
      exact ⟨hw.defined, fun l' hl' => hw.valid l' (hsub.subset hl'),
        fun l' hl' => hw.calls_lt l' (hsub.subset hl'), hw.calls_nodup.sublist (hsub.map _),
        hw.invoked_lt⟩
    · rw [he]
      refine hwp.after_invoke (NodeMap.mem_of_after hn) (hw.calls_lt l hmem) hsub fun hin => ?_
      obtain ⟨l', hl', heq⟩ := List.mem_map.1 hin
      exact hw.outer_ne hl l' hl' heq
    · rw [hw.valid l hmem] at hv; cases hv
  | finish i =>
    obtain ⟨-, rfl⟩ := finish_some hp
    exact ⟨hw.defined, hw.valid, hw.calls_lt, hw.calls_nodup, hw.invoked_lt⟩

/-! ### The progress of one call -/

/-- How often `call` has invoked the entry `e`. -/
def visits (s : Reactor H) (call e : Nat) : Nat := s.invoked.count ⟨call, e⟩

/-- Call `c`, which began when the container had the entries `olds`. -/
structure Progress (c : Nat) (olds : List Nat) (s : Reactor H) : Prop where
  began : c < s.calls
  olds_lt : ∀ e ∈ olds, e < s.container.nextId
  once : ∀ e, s.visits c e ≤ 1
  running : ∀ l ∈ s.loops, l.call = c → Standing olds (s.visits c) s.container.nodes l.it
  ended : (∀ l ∈ s.loops, l.call ≠ c) → ∀ n ∈ s.container.nodes, n.id ∈ olds → s.visits c n.id = 1

theorem visits_invoke_self (s : Reactor H) (call : Nat) (n : Node SizeT H) (outer : List Loop) :
    (s.invoke call n outer).visits call n.id = s.visits call n.id + 1 := List.count_cons_self

theorem visits_invoke_ne (s : Reactor H) {call c e : Nat} {n : Node SizeT H} (outer : List Loop)
    (h : c ≠ call ∨ e ≠ n.id) : (s.invoke call n outer).visits c e = s.visits c e := by
  refine List.count_cons_of_ne fun heq => ?_
  obtain ⟨rfl, rfl⟩ := Invocation.mk.inj heq
  rcases h with h | h <;> exact h rfl

/-- An entry that call `c` has yet to see the light of day for has not been invoked. -/
theorem WF.visits_zero (hw : WF s) {c e : Nat} (h : s.calls ≤ c ∨ s.container.nextId ≤ e) :
    s.visits c e = 0 := by
  refine List.count_eq_zero.2 fun hmem => ?_
  have hlt := hw.invoked_lt _ hmem
  rcases h with h | h <;> simp only at hlt <;> omega

/-- **A call begins**: the walk stands on the first entry. -/
theorem progress_call (hw : WF s) : Progress s.calls (s.container.nodes.map Node.id) s.call := by
  have holds : ∀ e ∈ s.container.nodes.map Node.id, e < s.container.nextId := by
    intro e he
    obtain ⟨n, hn, rfl⟩ := List.mem_map.1 he
    exact s.container.ids_lt n hn
  have hzero : ∀ e, s.visits s.calls e = 0 := fun e => hw.visits_zero (.inl (Nat.le_refl _))
  rcases call_cases s with ⟨hnil, he⟩ | ⟨n, rest, hn, he⟩
  · rw [he]
    refine ⟨Nat.lt_succ_self _, holds, fun e => (hzero e).trans_le (Nat.zero_le _), ?_, ?_⟩
    · exact fun l hl heq => absurd heq (Nat.ne_of_lt (hw.calls_lt l hl))
    · intro _ n hn
      rw [hnil] at hn
      cases hn
  · rw [he]
    have hself := visits_invoke_self { s with calls := s.calls + 1 } s.calls n s.loops
    have hother : ∀ e, e ≠ n.id →
        ({ s with calls := s.calls + 1 }.invoke s.calls n s.loops).visits s.calls e = 0 := by
      intro e hne
      rw [visits_invoke_ne _ _ (.inr hne)]
      exact hzero e
    have hone : ({ s with calls := s.calls + 1 }.invoke s.calls n s.loops).visits s.calls n.id = 1 := by
      rw [hself]
      exact congrArg (· + 1) (hzero n.id)
    refine ⟨Nat.lt_succ_self _, holds, fun e => ?_, fun l hl heq => ?_, fun hno => ?_⟩
    · by_cases hne : e = n.id
      · subst hne; rw [hone]
      · rw [hother e hne]; exact Nat.zero_le _
    · rcases List.mem_cons.1 hl with rfl | hl
      · refine ⟨[], n, rest, hn, rfl, fun x hx => hother x.id fun hid => ?_, fun x hx _ => ?_⟩
        · have hids := s.container.ids
          rw [hn, List.map_cons, List.nodup_cons] at hids
          exact hids.1 (hid ▸ List.mem_map_of_mem hx)
        · simp only [List.nil_append, List.mem_singleton] at hx
          subst hx
          exact hone
      · exact absurd heq (Nat.ne_of_lt (hw.calls_lt l hl))
    · exact absurd rfl (hno ⟨s.calls, n.id, true⟩ List.mem_cons_self)

/-- Another call, or an outer loop, invokes an entry. -/
theorem Progress.invoke_other {c : Nat} {olds : List Nat} (hp : Progress c olds s) {call : Nat}
    {n : Node SizeT H} {outer : List Loop} (hne : c ≠ call) (hsub : outer.Sublist s.loops)
    (hcov : ∀ l ∈ s.loops, l.call = c → l ∈ outer) : Progress c olds (s.invoke call n outer) := by
  have hv : (s.invoke call n outer).visits c = s.visits c :=
    funext fun e => visits_invoke_ne s outer (.inl hne)
  refine ⟨hp.began, hp.olds_lt, fun e => by rw [hv]; exact hp.once e, fun l hl heq => ?_, fun hno => ?_⟩
  · rw [hv]
    rcases List.mem_cons.1 hl with rfl | hl
    · exact absurd heq.symm hne
    · exact hp.running l (hsub.subset hl) heq
  · rw [hv]
    refine hp.ended fun l hl heq => ?_
    exact hno l (List.mem_cons_of_mem _ (hcov l hl heq)) heq

theorem Progress.after_attach {c : Nat} {olds : List Nat} (hw : WF s) (hp : Progress c olds s)
    {handler : H} {pl : Placement} {container : NodeMap SizeT H}
    (hkept : s.loops ≠ [] → ¬ s.container.Rehashes s.nextHandle)
    (hc : s.container.emplace s.nextHandle handler pl = some container) :
    Progress c olds { s with nextHandle := s.nextHandle + 1, container := container } := by
  have hle := NodeMap.nextId_le_of_emplace hc
  refine ⟨hp.began, fun e he => Nat.lt_of_lt_of_le (hp.olds_lt e he) hle, hp.once, fun l hl heq => ?_,
    fun hno n hn hold => ?_⟩
  · have hr := hkept (List.ne_nil_of_mem hl)
    have hst := hp.running l hl heq
    rcases NodeMap.emplace_keep hc hr with rfl | ⟨n, pos, hid, hnodes⟩
    · exact hst
    · dsimp only
      rw [hnodes]
      refine hst.insert (fun hold => ?_) (hw.visits_zero (.inr (Nat.le_of_eq hid.symm))) pos
      exact Nat.lt_irrefl _ (hid ▸ hp.olds_lt n.id hold)
  · rcases NodeMap.mem_emplace hc hn with hn | hid
    · exact hp.ended hno n hn hold
    · exact absurd (hid ▸ hp.olds_lt n.id hold) (Nat.lt_irrefl _)

theorem Progress.after_detach {c : Nat} {olds : List Nat} (hp : Progress c olds s) {handle : SizeT}
    {n : Node SizeT H} (hn : s.container.find? handle = some n) (hkept : ∀ l ∈ s.loops, l.it ≠ n.id) :
    Progress c olds { s with nextHandle := s.nextHandle - 1, container := s.container.erase handle } := by
  obtain ⟨hmem, hkey⟩ := NodeMap.find?_some.1 hn
  refine ⟨hp.began, hp.olds_lt, hp.once, fun l hl heq => ?_, fun hno x hx => ?_⟩
  · refine (hp.running l hl heq).filter fun x hx hit => ?_
    have hxn : x.id ≠ n.id := fun h => hkept l hl (hit.symm.trans h)
    refine decide_eq_true fun hk => hxn ?_
    rw [NodeMap.eq_of_key hx hmem (hk.trans hkey.symm)]
  · exact hp.ended hno x (NodeMap.mem_erase.1 hx).1

theorem Progress.after_advance {c : Nat} {olds : List Nat} (hw : WF s) (hp : Progress c olds s)
    {l : Loop} {outer : List Loop} (hl : s.loops = l :: outer) : Progress c olds (s.advance l outer) := by
  have hmem : l ∈ s.loops := by rw [hl]; exact List.mem_cons_self
  have hsub : outer.Sublist s.loops := by rw [hl]; exact List.sublist_cons_self l outer
  have hcov : ∀ l' ∈ s.loops, l'.call = c → l.call ≠ c → l' ∈ outer := by
    intro l' hl' heq hne
    rw [hl] at hl'
    rcases List.mem_cons.1 hl' with rfl | hl'
    · exact absurd heq hne
    · exact hl'
  rcases advance_cases s l outer with ⟨-, hafter, he⟩ | ⟨n, -, hafter, he⟩ | ⟨hv, -⟩
  · rw [he]
    refine ⟨hp.began, hp.olds_lt, hp.once, fun l' hl' => hp.running l' (hsub.subset hl'), fun hno => ?_⟩
    by_cases hlc : l.call = c
    · exact (hp.running l hmem hlc).finish hafter
    · exact hp.ended fun l' hl' heq => hno l' (hcov l' hl' heq hlc) heq
  · rw [he]
    by_cases hlc : l.call = c
    · subst hlc
      have hself := visits_invoke_self s l.call n outer
      have hother : ∀ e, e ≠ n.id → (s.invoke l.call n outer).visits l.call e = s.visits l.call e :=
        fun e hne => visits_invoke_ne s outer (.inr hne)
      obtain ⟨hzero, hst⟩ := (hp.running l hmem rfl).advance hafter hself hother
      refine ⟨hp.began, hp.olds_lt, fun e => ?_, fun l' hl' heq => ?_, fun hno => ?_⟩
      · by_cases hne : e = n.id
        · subst hne; rw [hself, hzero]
        · rw [hother e hne]; exact hp.once e
      · rcases List.mem_cons.1 hl' with rfl | hl'
        · exact hst
        · exact absurd heq (hw.outer_ne hl l' hl')
      · exact absurd rfl (hno ⟨l.call, n.id, true⟩ List.mem_cons_self)
    · exact hp.invoke_other (Ne.symm hlc) hsub fun l' hl' heq => hcov l' hl' heq hlc
  · rw [hw.valid l hmem] at hv; cases hv

theorem Progress.after_step {c : Nat} {olds : List Nat} (hw : WF s) (hp : Progress c olds s)
    (hkept : IteratorsKept s a) (h : step s a = some s') : Progress c olds s' := by
  obtain ⟨-, hperf⟩ := step_some.1 h
  cases a with
  | call =>
    cases hperf
    have hp' : Progress c olds { s with calls := s.calls + 1 } :=
      ⟨Nat.lt_succ_of_lt hp.began, hp.olds_lt, hp.once, hp.running, hp.ended⟩
    rcases call_cases s with ⟨-, he⟩ | ⟨n, rest, -, he⟩
    · rw [he]; exact hp'
    · rw [he]
      exact hp'.invoke_other (Nat.ne_of_lt hp.began) (List.Sublist.refl _) fun l hl _ => hl
  | attach handler pl =>
    obtain ⟨container, hc, rfl⟩ := attach_some hperf
    rw [loops_attach hkept]
    exact hp.after_attach hw hkept hc
  | detach handle =>
    cases hperf
    rcases detach_cases s handle with ⟨-, he⟩ | ⟨n, hn, he⟩
    · rw [he]; exact hp
    · rw [he, loops_erased (hkept n hn)]
      exact hp.after_detach hn (hkept n hn)
  | ret ready =>
    obtain ⟨l, outer, pending, hl, -, rfl⟩ := ret_some hperf
    have hwp : WF { s with pending := pending } :=
      ⟨hw.defined, hw.valid, hw.calls_lt, hw.calls_nodup, hw.invoked_lt⟩
    have hpp : Progress c olds { s with pending := pending } :=
      ⟨hp.began, hp.olds_lt, hp.once, hp.running, hp.ended⟩
    exact hpp.after_advance hwp hl
  | finish i =>
    obtain ⟨-, rfl⟩ := finish_some hperf
    exact ⟨hp.began, hp.olds_lt, hp.once, hp.running, hp.ended⟩

/-! ### Whole runs -/

/-- An entry that a run makes disappear is erased by one of its detaches. -/
theorem exists_detach {n : Node SizeT H} {acts : List (Act H)} (hn : n ∈ s.container.nodes)
    (hex : exec step s acts = some s') (hno : n ∉ s'.container.nodes) :
    ∃ before after k, acts = before ++ .detach n.key :: after ∧ exec step s before = some k ∧
      n ∈ k.container.nodes ∧ exec step k (.detach n.key :: after) = some s' := by
  induction acts generalizing s with
  | nil => cases hex; exact absurd hn hno
  | cons a acts ih =>
    obtain ⟨m, hm, hrest⟩ := exec_cons_some.1 hex
    rcases (step_container hm).2.2 n hn with hnm | rfl
    · obtain ⟨before, after, k, rfl, hk, hnk, hlast⟩ := ih hnm hrest
      exact ⟨a :: before, after, k, rfl, exec_cons_some.2 ⟨m, hm, hk⟩, hnk, hlast⟩
    · exact ⟨[], acts, s, rfl, rfl, hn, hex⟩

/-- Invocations are never forgotten. -/
theorem invoked_sublist {acts : List (Act H)} (hex : exec step s acts = some s') :
    s.invoked.Sublist s'.invoked := by
  refine exec_invariant (I := fun m => s.invoked.Sublist m.invoked) ?_ (List.Sublist.refl _) hex
  intro m a m' hsub hs
  rcases step_invocations hs with ⟨he, -⟩ | ⟨call, n, pending, -, -, -, he, -⟩
  · rw [he]; exact hsub
  · rw [he]; exact hsub.cons _

theorem eachOnce_of_kept {start : Reactor H} {acts : List (Act H)} (hw : WF start)
    (hkept : Along step IteratorsKept start acts) : EachOnce start acts := by
  intro pre post m s heq hpre hex hover n hn
  have hwm : WF m := by
    have hall := always_of_along (fun _ _ _ h hk hs => WF.after_step h hk hs) hw hkept
    exact hall pre (.call :: post) m heq hpre
  have hrest : Along step IteratorsKept m (.call :: post) := by
    intro p a q k hp hk
    refine hkept (pre ++ p) a q k (by rw [heq, hp]; simp) ?_
    exact exec_append_some.2 ⟨m, hpre, hk⟩
  obtain ⟨m₁, hm₁, hpost⟩ := exec_cons_some.1 hex
  obtain ⟨-, hperf⟩ := step_some.1 hm₁
  cases hperf
  obtain ⟨hk₁, hkpost⟩ := along_cons.1 hrest
  have hfinal : WF s ∧ Progress m.calls (m.container.nodes.map Node.id) s := by
    refine exec_along (I := fun k => WF k ∧ Progress m.calls (m.container.nodes.map Node.id) k)
      (fun k a k' hI hk hs => ?_) ⟨hwm.after_step hk₁ hm₁, progress_call hwm⟩ (hkpost _ hm₁) hpost
    exact ⟨hI.1.after_step hk hs, hI.2.after_step hI.1 hk hs⟩
  obtain ⟨-, hp⟩ := hfinal
  have hold : n.id ∈ m.container.nodes.map Node.id := List.mem_map_of_mem hn
  by_cases hin : n ∈ s.container.nodes
  · exact .inl (hp.ended hover n hin hold)
  · have hncall : n ∈ m.call.container.nodes := by rw [call_container]; exact hn
    obtain ⟨before, after, k, rfl, hk, hnk, hlast⟩ := exists_detach hncall hpost hin
    have hfind : k.container.find? n.key = some n := NodeMap.find?_some.2 ⟨hnk, rfl⟩
    by_cases hinv : (⟨m.calls, n.id⟩ : Invocation) ∈ k.invoked
    · -- its turn came before the detach: one invocation then, and none since
      left
      have hpos := List.count_pos_iff.2 ((invoked_sublist hlast).subset hinv)
      have hone := hp.once n.id
      unfold visits at hone
      omega
    · right
      refine ⟨?_, before, after, k, rfl, exec_cons_some.2 ⟨m.call, hm₁, hk⟩, hnk, hinv⟩
      obtain ⟨k₁, hk₁', hafter⟩ := exec_cons_some.1 hlast
      obtain ⟨-, hperf'⟩ := step_some.1 hk₁'
      cases hperf'
      have hgone : Gone (⟨m.calls, n.id⟩ : Invocation).entry (k.detach n.key) := gone_detach hfind
      have hsame : (k.detach n.key).invoked = k.invoked := by
        rcases detach_cases k n.key with ⟨-, he⟩ | ⟨x, -, he⟩ <;> rw [he]
      rw [(hgone.after_exec hafter).2.1, hsame]
      exact List.count_eq_zero.2 hinv

/-! ## Acts that do not -/

/-- A loop whose `++it` will be, or has been, undefined. -/
def Doomed (s : Reactor H) : Prop := (∃ l ∈ s.loops, l.valid = false) ∨ s.undefined = true

theorem Doomed.after_step (hd : Doomed s) (h : step s a = some s') : Doomed s' := by
  obtain ⟨hdef, hp⟩ := step_some.1 h
  obtain ⟨l, hl, hv⟩ | hu := hd
  swap
  · rw [hdef] at hu; cases hu
  cases a with
  | call =>
    cases hp
    rcases call_cases s with ⟨-, he⟩ | ⟨n, rest, -, he⟩
    · rw [he]; exact .inl ⟨l, hl, hv⟩
    · rw [he]; exact .inl ⟨l, List.mem_cons_of_mem _ hl, hv⟩
  | attach handler pl =>
    obtain ⟨container, -, rfl⟩ := attach_some hp
    refine .inl ?_
    dsimp only
    split
    · exact ⟨l.invalidate, List.mem_map_of_mem hl, rfl⟩
    · exact ⟨l, hl, hv⟩
  | detach handle =>
    cases hp
    rcases detach_cases s handle with ⟨-, he⟩ | ⟨n, -, he⟩
    · rw [he]; exact .inl ⟨l, hl, hv⟩
    · rw [he]
      refine .inl ⟨l.erased n.id, List.mem_map_of_mem hl, ?_⟩
      unfold Loop.erased
      split
      · rfl
      · exact hv
  | ret ready =>
    obtain ⟨top, outer, pending, htop, -, rfl⟩ := ret_some hp
    rw [htop] at hl
    rcases advance_cases { s with pending := pending } top outer with
      ⟨hvt, -, he⟩ | ⟨n, hvt, -, he⟩ | ⟨-, he⟩
    · rcases List.mem_cons.1 hl with rfl | hl
      · rw [hvt] at hv; cases hv
      · rw [he]; exact .inl ⟨l, hl, hv⟩
    · rcases List.mem_cons.1 hl with rfl | hl
      · rw [hvt] at hv; cases hv
      · rw [he]; exact .inl ⟨l, List.mem_cons_of_mem _ hl, hv⟩
    · rw [he]; exact .inr rfl
  | finish i =>
    obtain ⟨-, rfl⟩ := finish_some hp
    exact .inl ⟨l, hl, hv⟩

theorem doomed_of_not_kept (hkept : ¬ IteratorsKept s a) (h : step s a = some s') : Doomed s' := by
  obtain ⟨-, hp⟩ := step_some.1 h
  cases a with
  | attach handler pl =>
    obtain ⟨container, -, rfl⟩ := attach_some hp
    simp only [IteratorsKept, ne_eq, not_forall, not_not] at hkept
    obtain ⟨hne, hr⟩ := hkept
    obtain ⟨l, outer, hl⟩ := List.exists_cons_of_ne_nil hne
    refine .inl ⟨l.invalidate, ?_, rfl⟩
    rw [if_pos hr, hl]
    exact List.mem_cons_self
  | detach handle =>
    cases hp
    simp only [IteratorsKept, not_forall, ne_eq, not_not] at hkept
    obtain ⟨n, hn, l, hl, hit⟩ := hkept
    rcases detach_cases s handle with ⟨hno, -⟩ | ⟨n', hn', he⟩
    · rw [NodeMap.find?_none.2 hno] at hn; cases hn
    · rw [hn] at hn'
      cases hn'
      rw [he]
      refine .inl ⟨l.erased n.id, List.mem_map_of_mem hl, ?_⟩
      unfold Loop.erased
      rw [if_pos hit]
      rfl
  | call => exact absurd trivial hkept
  | ret ready => exact absurd trivial hkept
  | finish i => exact absurd trivial hkept

/-- **When dispatch is safe.** For every content and iteration order of the router and every
run of calls, attaches, detaches and returning handlers: if no act erases the entry that a
running loop stands on and none rehashes under a running loop, no `++it` is undefined and each
call invokes each of its entries once; and a run whose loops are over (or that came to an
undefined `++it`) is safe only if all its acts were such. -/
theorem dispatch_safe_iff (nextHandle : SizeT) (container : NodeMap SizeT H) (acts : List (Act H)) :
    (Along step IteratorsKept (idle nextHandle container) acts →
      DispatchSafe (idle nextHandle container) acts) ∧
    ∀ s, exec step (idle nextHandle container) acts = some s → s.loops = [] ∨ s.undefined = true →
      DispatchSafe (idle nextHandle container) acts →
      Along step IteratorsKept (idle nextHandle container) acts := by
  constructor
  · intro hkept
    have hall := always_of_along (fun _ _ _ h hk hs => WF.after_step h hk hs)
      (wf_idle nextHandle container) hkept
    exact ⟨hall.mono fun _ hw => hw.defined, eachOnce_of_kept (wf_idle nextHandle container) hkept⟩
  · intro s hex hover hsafe pre a post m heq hpre
    by_contra hkept
    rw [heq] at hex
    obtain ⟨m', hm', hrest⟩ := exec_append_some.1 hex
    rw [hpre] at hm'
    cases hm'
    obtain ⟨m₁, hm₁, hpost⟩ := exec_cons_some.1 hrest
    have hdoomed : Doomed s :=
      exec_invariant (fun _ _ _ hd hs => Doomed.after_step hd hs) (doomed_of_not_kept hkept hm₁) hpost
    have hdef : s.undefined = false := hsafe.1.last (heq ▸ hex)
    rcases hover with hnil | hu
    · obtain ⟨l, hl, -⟩ | hu := hdoomed
      · rw [hnil] at hl; cases hl
      · rw [hdef] at hu; cases hu
    · rw [hdef] at hu; cases hu

end SeastarStarter.Reactor
