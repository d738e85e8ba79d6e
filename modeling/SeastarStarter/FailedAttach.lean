import Mathlib.Logic.Function.Basic
import SeastarStarter.EventRouter
import SeastarStarter.Lib.Lts

/-!
# Objects whose attach failed

`Scopes` runs the constructions and destructions of any number of `event_router_RAII` objects on
one router. How the attach of each object ends is a parameter, `fate`. A run is compared with the
one in which the objects whose attach failed do not occur at all (`surviving`).

The constructor's `catch` undoes nothing, since the handle it looks at is assigned only when
`attach` returns: a number taken by a failed attach stays taken.
-/

namespace SeastarStarter

open UnorderedMap Lts EventRouter

inductive ScopeOp (Name H : Type) where
  | construct (name : Name) (handler : H)
  | destroy (name : Name)

namespace ScopeOp

variable {Name H : Type}

def name : ScopeOp Name H → Name
  | .construct name _ => name
  | .destroy name => name

end ScopeOp

inductive ScopeStatus where
  | unborn
  | alive (raii : EventRouterRAII)
  | destroyed (raii : EventRouterRAII)
deriving DecidableEq

structure Scopes (Name H : Type) where
  router : EventRouter H
  status : Name → ScopeStatus

namespace Scopes

variable {Name H : Type} [DecidableEq Name] {maxSize : SizeT} {fate : Name → AttachOutcome}

def fresh : Scopes Name H := ⟨.fresh, fun _ => .unborn⟩

def step (maxSize : SizeT) (fate : Name → AttachOutcome) (s : Scopes Name H) :
    ScopeOp Name H → Option (Scopes Name H)
  | .construct name handler =>
    if s.status name = .unborn ∧ Possible maxSize s.router (fate name) then
      let (raii, router) := EventRouterRAII.construct s.router handler (fate name)
      some ⟨router, Function.update s.status name (.alive raii)⟩
    else none
  | .destroy name =>
    match s.status name with
    | .alive raii =>
      some ⟨raii.destroy s.router, Function.update s.status name (.destroyed raii)⟩
    | .unborn => none
    | .destroyed _ => none

/-- The run without the objects whose attach failed. -/
def surviving (fate : Name → AttachOutcome) (ops : List (ScopeOp Name H)) :
    List (ScopeOp Name H) :=
  ops.filter fun op => fate op.name = .returns

/-- `s'` is what `s` would be without the objects whose attach failed: the same router, and the
same handles in the same objects. -/
structure SameBut (fate : Name → AttachOutcome) (s s' : Scopes Name H) : Prop where
  router : s'.router = s.router
  status : ∀ name, fate name = .returns → s'.status name = s.status name

/-- At every point of the run it is as if the objects whose attach failed were not there. -/
def NoTrace (maxSize : SizeT) (fate : Name → AttachOutcome) (ops : List (ScopeOp Name H)) : Prop :=
  ∀ pre post s, ops = pre ++ post → exec (step maxSize fate) fresh pre = some s →
    ∃ s', exec (step maxSize fate) fresh (surviving fate pre) = some s' ∧ SameBut fate s s'

/-- No attach fails with its number taken, and no object whose attach failed is destroyed while
2^64 - 1 is the handle of a live one. -/
def LeavesNoTrace (fate : Name → AttachOutcome) (s : Scopes Name H) : ScopeOp Name H → Prop
  | .construct name _ => fate name ≠ .emplaceThrows
  | .destroy name => fate name ≠ .returns → -1 ∉ s.router.dispatchContainer

/-! ## What a step does -/

theorem step_construct {s m : Scopes Name H} {name : Name} {handler : H}
    (h : step maxSize fate s (.construct name handler) = some m) :
    s.status name = .unborn ∧ Possible maxSize s.router (fate name) ∧
      m = ⟨(EventRouterRAII.construct s.router handler (fate name)).2,
        Function.update s.status name
          (.alive (EventRouterRAII.construct s.router handler (fate name)).1)⟩ := by
  simp only [step] at h
  split at h
  · rename_i hcond
    cases h
    exact ⟨hcond.1, hcond.2, rfl⟩
  · cases h

theorem step_destroy {s m : Scopes Name H} {name : Name}
    (h : step maxSize fate s (.destroy name) = some m) :
    ∃ raii, s.status name = .alive raii ∧
      m = ⟨raii.destroy s.router, Function.update s.status name (.destroyed raii)⟩ := by
  simp only [step] at h
  split at h
  · rename_i raii halive
    cases h
    exact ⟨raii, halive, rfl⟩
  · cases h
  · cases h

/-- An object whose attach failed has the handle -1, for as long as it lives. -/
def Sentinels (fate : Name → AttachOutcome) (s : Scopes Name H) : Prop :=
  ∀ name raii, fate name ≠ .returns → s.status name = .alive raii → raii.handle = -1

omit [DecidableEq Name] in
theorem sentinels_fresh : Sentinels fate (fresh : Scopes Name H) := by
  intro name raii _ h
  cases h

theorem Sentinels.step {s m : Scopes Name H} {op : ScopeOp Name H} (hI : Sentinels fate s)
    (h : step maxSize fate s op = some m) : Sentinels fate m := by
  intro name raii hfails halive
  cases op with
  | construct other handler =>
    obtain ⟨-, -, rfl⟩ := step_construct h
    simp only at halive
    by_cases hname : name = other
    · subst hname
      rw [Function.update_self, ScopeStatus.alive.injEq] at halive
      rw [← halive]
      exact EventRouterRAII.construct_fails hfails
    · rw [Function.update_of_ne hname] at halive
      exact hI name raii hfails halive
  | destroy other =>
    obtain ⟨_, -, rfl⟩ := step_destroy h
    simp only at halive
    by_cases hname : name = other
    · subst hname
      rw [Function.update_self] at halive
      cases halive
    · rw [Function.update_of_ne hname] at halive
      exact hI name raii hfails halive

/-! ## Failures that leave no trace -/

theorem SameBut.skip {s m s' : Scopes Name H} {name : Name} {status : ScopeStatus}
    (hS : SameBut fate s s') (hfails : fate name ≠ .returns) (hrouter : m.router = s.router)
    (hstatus : m.status = Function.update s.status name status) : SameBut fate m s' := by
  refine ⟨hS.router.trans hrouter.symm, fun other hother => ?_⟩
  have hne : other ≠ name := by
    rintro rfl
    exact hfails hother
  rw [hstatus, Function.update_of_ne hne]
  exact hS.status other hother

theorem SameBut.update {s s' : Scopes Name H} {name : Name} {router : EventRouter H}
    {status : ScopeStatus} (hS : SameBut fate s s') :
    SameBut fate ⟨router, Function.update s.status name status⟩
      ⟨router, Function.update s'.status name status⟩ := by
  refine ⟨rfl, fun other hother => ?_⟩
  simp only
  by_cases hname : other = name
  · subst hname
    rw [Function.update_self, Function.update_self]
  · rw [Function.update_of_ne hname, Function.update_of_ne hname]
    exact hS.status other hother

/-- An operation on an object that is kept does the same with and without the others. -/
theorem SameBut.step {s m s' : Scopes Name H} {op : ScopeOp Name H} (hS : SameBut fate s s')
    (hkept : fate op.name = .returns) (h : step maxSize fate s op = some m) :
    ∃ m', Scopes.step maxSize fate s' op = some m' ∧ SameBut fate m m' := by
  have hstatus := hS.status op.name hkept
  cases op with
  | construct name handler =>
    obtain ⟨hunborn, hpossible, rfl⟩ := step_construct h
    rw [← hS.router] at hpossible ⊢
    exact ⟨_, if_pos ⟨hstatus.trans hunborn, hpossible⟩, hS.update⟩
  | destroy name =>
    obtain ⟨raii, halive, rfl⟩ := step_destroy h
    rw [← hS.router]
    refine ⟨_, ?_, hS.update⟩
    simp only [ScopeOp.name] at hstatus
    simp only [Scopes.step, hstatus, halive]

/-- An operation on an object whose attach failed leaves the rest as it is. -/
theorem SameBut.step_failed {s m s' : Scopes Name H} {op : ScopeOp Name H}
    (hS : SameBut fate s s') (hI : Sentinels fate s) (hfails : fate op.name ≠ .returns)
    (hop : LeavesNoTrace fate s op) (h : Scopes.step maxSize fate s op = some m) :
    SameBut fate m s' := by
  cases op with
  | construct name handler =>
    obtain ⟨-, -, rfl⟩ := step_construct h
    refine hS.skip hfails ?_ rfl
    -- of the two failures only the one before the body leaves the router alone
    cases hfate : fate name with
    | returns => exact absurd hfate hfails
    | copyThrows => rw [EventRouterRAII.construct_copyThrows]
    | emplaceThrows => exact absurd hfate hop
  | destroy name =>
    obtain ⟨raii, halive, rfl⟩ := step_destroy h
    refine hS.skip hfails ?_ rfl
    apply EventRouterRAII.destroy_of_notMem
    rw [hI name raii hfails halive]
    exact hop hfails

omit [DecidableEq Name] in
theorem surviving_cons_kept {op : ScopeOp Name H} {ops : List (ScopeOp Name H)}
    (h : fate op.name = .returns) : surviving fate (op :: ops) = op :: surviving fate ops := by
  simp [surviving, h]

omit [DecidableEq Name] in
theorem surviving_cons_failed {op : ScopeOp Name H} {ops : List (ScopeOp Name H)}
    (h : fate op.name ≠ .returns) : surviving fate (op :: ops) = surviving fate ops := by
  simp [surviving, h]

omit [DecidableEq Name] in
theorem surviving_snoc_failed {op : ScopeOp Name H} {ops : List (ScopeOp Name H)}
    (h : fate op.name ≠ .returns) : surviving fate (ops ++ [op]) = surviving fate ops := by
  simp [surviving, h]

theorem SameBut.exec {ops : List (ScopeOp Name H)} {s m s' : Scopes Name H}
    (hS : SameBut fate s s') (hI : Sentinels fate s)
    (hops : Along (Scopes.step maxSize fate) (LeavesNoTrace fate) s ops)
    (h : Lts.exec (Scopes.step maxSize fate) s ops = some m) :
    ∃ m', Lts.exec (Scopes.step maxSize fate) s' (surviving fate ops) = some m' ∧
      SameBut fate m m' := by
  induction ops generalizing s s' with
  | nil =>
    cases h
    exact ⟨s', rfl, hS⟩
  | cons op ops ih =>
    obtain ⟨n, hn, hrest⟩ := exec_cons_some.1 h
    obtain ⟨hop, hops⟩ := along_cons.1 hops
    by_cases hkept : fate op.name = .returns
    · obtain ⟨n', hn', hS'⟩ := hS.step hkept hn
      obtain ⟨m', hm', hsame⟩ := ih hS' (hI.step hn) (hops n hn) hrest
      rw [surviving_cons_kept hkept]
      exact ⟨m', exec_cons_some.2 ⟨n', hn', hm'⟩, hsame⟩
    · rw [surviving_cons_failed hkept]
      exact ih (hS.step_failed hI hkept hop hn) (hI.step hn) (hops n hn) hrest

/-! ## The others do -/

/-- The step after which a trace is seen. -/
theorem NoTrace.step {ops pre post : List (ScopeOp Name H)} {op : ScopeOp Name H}
    {m n : Scopes Name H} (h : NoTrace maxSize fate ops) (hsplit : ops = pre ++ op :: post)
    (hm : exec (Scopes.step maxSize fate) fresh pre = some m)
    (hn : Scopes.step maxSize fate m op = some n) (hfails : fate op.name ≠ .returns) :
    n.router = m.router := by
  obtain ⟨s', hs', hS⟩ := h pre (op :: post) m hsplit hm
  obtain ⟨t', ht', hT⟩ := h (pre ++ [op]) post n (by rw [hsplit]; simp)
    (exec_snoc_some.2 ⟨m, hm, hn⟩)
  rw [surviving_snoc_failed hfails, hs'] at ht'
  cases ht'
  exact hT.router.symm.trans hS.router

theorem nextHandle_succ_ne (n : SizeT) : n + 1 ≠ n := by bv_omega

theorem nextHandle_pred_ne (n : SizeT) : n - 1 ≠ n := by bv_omega

/-- **When a failed registration leaves no trace.** The run passes through the same routers and
hands out the same handles as the run without the failed objects, exactly when each failure comes
before the number is taken and no object without a handle is destroyed while 2^64 - 1 is live. -/
theorem noTrace_iff (ops : List (ScopeOp Name H)) (s : Scopes Name H)
    (hrun : exec (step maxSize fate) fresh ops = some s) :
    NoTrace maxSize fate ops ↔ Along (step maxSize fate) (LeavesNoTrace fate) fresh ops := by
  constructor
  · intro h pre op post m hsplit hm
    have hI : Sentinels fate m := exec_invariant (fun _ _ _ hI hs => hI.step hs) sentinels_fresh hm
    rw [hsplit] at hrun
    obtain ⟨m', hm', hrest⟩ := exec_append_some.1 hrun
    rw [hm] at hm'
    cases hm'
    obtain ⟨n, hn, -⟩ := exec_cons_some.1 hrest
    cases op with
    | construct name handler =>
      intro hfate
      have hsame := h.step hsplit hm hn (by simp [ScopeOp.name, hfate])
      obtain ⟨-, -, rfl⟩ := step_construct hn
      rw [hfate, EventRouterRAII.construct_emplaceThrows] at hsame
      exact nextHandle_succ_ne _ (congrArg EventRouter.nextHandle hsame)
    | destroy name =>
      intro hfails hmem
      have hsame := h.step hsplit hm hn hfails
      obtain ⟨raii, halive, rfl⟩ := step_destroy hn
      simp only [EventRouterRAII.destroy] at hsame
      rw [hI name raii hfails halive, detach_of_mem hmem] at hsame
      exact nextHandle_pred_ne _ (congrArg EventRouter.nextHandle hsame)
  · intro h pre post m hsplit hm
    have hsame : SameBut fate (fresh : Scopes Name H) fresh := ⟨rfl, fun _ _ => rfl⟩
    rw [hsplit] at h
    exact hsame.exec sentinels_fresh h.of_append hm

/-- A failure while the handler was copied for the call: the object after it gets handle 1. -/
theorem noTrace_copyThrows :
    NoTrace 8 (fun name : Bool => bif name then .copyThrows else .returns)
      [.construct true (), .construct false (), .destroy true] :=
  (noTrace_iff _ _ rfl).2 (by
    refine along_cons.2 ⟨nofun, fun m hm => along_cons.2 ⟨nofun, fun n hn => ?_⟩⟩
    cases hm
    cases hn
    refine along_cons.2 ⟨fun _ => ?_, fun _ _ => along_nil⟩
    decide)

/-- After a failure in `emplace` the next object gets handle 2 instead of 1. -/
theorem not_always_noTrace :
    ¬ ∀ (fate : Bool → AttachOutcome) (ops : List (ScopeOp Bool Unit)) (s : Scopes Bool Unit),
      exec (step 8 fate) fresh ops = some s → NoTrace 8 fate ops := by
  intro h
  have htrace := h (fun name => bif name then .emplaceThrows else .returns)
    [.construct true (), .construct false ()] _ rfl
  obtain ⟨s', hs', hsame⟩ := htrace [.construct true (), .construct false ()] [] _ rfl rfl
  cases hs'
  exact absurd (hsame.status false rfl) (by decide)

end Scopes
end SeastarStarter
