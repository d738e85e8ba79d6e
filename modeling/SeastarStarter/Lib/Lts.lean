import Mathlib.Algebra.Order.BigOperators.Group.Finset
import Mathlib.Data.List.Induction

/-!
# Runs of a labelled transition system

A system is a step function `step : σ → α → Option σ`: the label `a` says which party moves and
how, `none` says that the move is not enabled. `exec` performs a list of labels, and the two
run predicates speak about everything that happens on the way: `Along` about the steps (the
state a step is taken in and its label), `Always` about the states.

* `exec_invariant`, `always_of_invariant`: what every step preserves holds after every run.
* `exec_history`: the same for what is said of a state and the run that led to it.
* `exec_along`, `always_of_along`: the same for the runs whose steps all meet a condition.
* `exec_potential`, `exec_potential_along`: a potential that every step, or every step of a kind,
  lowers bounds the length of a run; `exec_budget` is the same where some steps draw on it and
  others fill it up.
* `exec_map`, `exec_filterMap`: what a function shows of a system is a system again.
-/

namespace Lts

variable {σ α : Type*} {step : σ → α → Option σ} {s s' : σ} {a : α} {as bs : List α}

/-- The state after performing `as` in order; `none` once a label is not enabled. -/
def exec (step : σ → α → Option σ) (s : σ) (as : List α) : Option σ := as.foldlM step s

@[simp] theorem exec_nil : exec step s [] = some s := rfl

@[simp] theorem exec_cons : exec step s (a :: as) = (step s a).bind (exec step · as) := rfl

theorem exec_cons_some :
    exec step s (a :: as) = some s' ↔ ∃ m, step s a = some m ∧ exec step m as = some s' := by
  rw [exec_cons, Option.bind_eq_some_iff]

theorem exec_append : exec step s (as ++ bs) = (exec step s as).bind (exec step · bs) := by
  unfold exec
  rw [List.foldlM_append]
  rfl

theorem exec_append_some :
    exec step s (as ++ bs) = some s' ↔ ∃ m, exec step s as = some m ∧ exec step m bs = some s' := by
  rw [exec_append, Option.bind_eq_some_iff]

theorem exec_snoc_some :
    exec step s (as ++ [a]) = some s' ↔ ∃ m, exec step s as = some m ∧ step m a = some s' := by
  rw [exec_append_some]
  simp

/-! ## What holds at every step, and in every state, of a run -/

/-- `C` holds of every step that the run `as` takes from `s`. -/
def Along (step : σ → α → Option σ) (C : σ → α → Prop) (s : σ) (as : List α) : Prop :=
  ∀ pre a post m, as = pre ++ a :: post → exec step s pre = some m → C m a

/-- `P` holds in every state that the run `as` passes through from `s`. -/
def Always (step : σ → α → Option σ) (P : σ → Prop) (s : σ) (as : List α) : Prop :=
  ∀ pre post m, as = pre ++ post → exec step s pre = some m → P m

variable {C D : σ → α → Prop} {P Q I : σ → Prop}

@[simp] theorem along_nil : Along step C s [] := by
  intro pre a post m h
  simp at h

theorem along_cons :
    Along step C s (a :: as) ↔ C s a ∧ ∀ m, step s a = some m → Along step C m as := by
  constructor
  · intro h
    refine ⟨h [] a as s rfl rfl, fun m hm pre b post m' heq hpre => ?_⟩
    exact h (a :: pre) b post m' (by rw [heq]; rfl) (exec_cons_some.2 ⟨m, hm, hpre⟩)
  · rintro ⟨hs, hrest⟩ pre b post m heq hpre
    cases pre with
    | nil =>
      obtain ⟨rfl, -⟩ := List.cons.inj heq
      cases hpre
      exact hs
    | cons c pre =>
      obtain ⟨rfl, htl⟩ := List.cons.inj heq
      obtain ⟨m', hm', hex⟩ := exec_cons_some.1 hpre
      exact hrest m' hm' pre b post m htl hex

@[simp] theorem always_nil : Always step P s [] ↔ P s := by
  constructor
  · intro h; exact h [] [] s rfl rfl
  · intro hP pre post m heq hpre
    obtain ⟨rfl, -⟩ := List.append_eq_nil_iff.1 heq.symm
    cases hpre
    exact hP

theorem Along.mono (hCD : ∀ s a, C s a → D s a) (h : Along step C s as) : Along step D s as :=
  fun pre a post m heq hpre => hCD m a (h pre a post m heq hpre)

theorem Along.and (hC : Along step C s as) (hD : Along step D s as) :
    Along step (fun s a => C s a ∧ D s a) s as :=
  fun pre a post m heq hpre => ⟨hC pre a post m heq hpre, hD pre a post m heq hpre⟩

theorem Along.of_append (h : Along step C s (as ++ bs)) : Along step C s as :=
  fun pre a post m heq hpre => h pre a (post ++ bs) m (by rw [heq]; simp) hpre

/-- A condition on the labels alone. -/
theorem along_of_forall_mem {L : α → Prop} (h : ∀ a ∈ as, L a) :
    Along step (fun _ a => L a) s as :=
  fun pre a post m heq _ => h a (by simp [heq])

theorem Always.mono (hPQ : ∀ s, P s → Q s) (h : Always step P s as) : Always step Q s as :=
  fun pre post m heq hpre => hPQ m (h pre post m heq hpre)

theorem Always.last (h : Always step P s as) (hex : exec step s as = some s') : P s' :=
  h as [] s' (by simp) hex

/-- What holds in every state of a run holds after each of its steps. -/
theorem Always.along_next (h : Always step P s as) :
    Along step (fun s a => ∀ s', step s a = some s' → P s') s as := by
  intro pre a post m heq hpre s' hs'
  exact h (pre ++ [a]) post s' (by rw [heq]; simp) (exec_snoc_some.2 ⟨m, hpre, hs'⟩)

/-! ## Induction over runs -/

theorem exec_along (hstep : ∀ s a s', I s → C s a → step s a = some s' → I s')
    (hI : I s) (hC : Along step C s as) (hex : exec step s as = some s') : I s' := by
  induction as generalizing s with
  | nil => cases hex; exact hI
  | cons a as ih =>
    obtain ⟨m, hm, hrest⟩ := exec_cons_some.1 hex
    obtain ⟨hCs, hCrest⟩ := along_cons.1 hC
    exact ih (hstep s a m hI hCs hm) (hCrest m hm) hrest

theorem always_of_along (hstep : ∀ s a s', I s → C s a → step s a = some s' → I s')
    (hI : I s) (hC : Along step C s as) : Always step I s as := by
  intro pre post m heq hpre
  rw [heq] at hC
  exact exec_along hstep hI hC.of_append hpre

theorem exec_invariant (hstep : ∀ s a s', I s → step s a = some s' → I s')
    (hI : I s) (hex : exec step s as = some s') : I s' :=
  exec_along (C := fun _ _ => True) (fun s a s' h _ => hstep s a s' h) hI
    (fun _ _ _ _ _ _ => trivial) hex

theorem always_of_invariant (hstep : ∀ s a s', I s → step s a = some s' → I s')
    (hI : I s) : Always step I s as :=
  fun _ _ _ _ hpre => exec_invariant hstep hI hpre

/-- A label of a longer run is its last one or one of the run before. -/
theorem snoc_eq_append_cons {pre post : List α} {b : α} :
    as ++ [b] = pre ++ a :: post ↔
      (post = [] ∧ as = pre ∧ b = a) ∨ ∃ post', post = post' ++ [b] ∧ as = pre ++ a :: post' := by
  constructor
  · intro h
    rcases List.eq_nil_or_concat post with rfl | ⟨post, c, rfl⟩
    · obtain ⟨hpre, ha⟩ := List.append_inj' h rfl
      exact Or.inl ⟨rfl, hpre, (List.cons.inj ha).1⟩
    · have h' : as ++ [b] = (pre ++ a :: post) ++ [c] := by simpa using h
      obtain ⟨hpre, hb⟩ := List.append_inj' h' rfl
      obtain rfl := (List.cons.inj hb).1
      exact Or.inr ⟨post, by simp, hpre⟩
  · rintro (⟨rfl, rfl, rfl⟩ | ⟨post', rfl, rfl⟩)
    · rfl
    · simp

/-- An invariant of the state together with the run that led to it. -/
theorem exec_history {I : List α → σ → Prop} (hI : I [] s)
    (hstep : ∀ pre a m m', exec step s pre = some m → I pre m → step m a = some m' →
      I (pre ++ [a]) m')
    (hex : exec step s as = some s') : I as s' := by
  induction as using List.reverseRecOn generalizing s' with
  | nil => cases hex; exact hI
  | append_singleton pre a ih =>
    obtain ⟨m, hpre, hm⟩ := exec_snoc_some.1 hex
    exact hstep pre a m s' hpre (ih hpre) hm

/-- What an invariant says of every step it is about holds along the run. -/
theorem along_of_always (hP : Always step P s as) (h : ∀ s a, P s → C s a) : Along step C s as :=
  fun pre a post m heq hpre => h m a (hP pre (a :: post) m heq hpre)

/-- A potential that the steps of a kind lower, in the states of an invariant. -/
theorem exec_potential_along (f : σ → Nat)
    (hstep : ∀ s a s', I s → C s a → step s a = some s' → I s' ∧ f s' < f s)
    (hI : I s) (hC : Along step C s as) (hex : exec step s as = some s') :
    as.length + f s' ≤ f s := by
  induction as generalizing s with
  | nil => cases hex; simp
  | cons a as ih =>
    obtain ⟨m, hm, hrest⟩ := exec_cons_some.1 hex
    obtain ⟨hCs, hCrest⟩ := along_cons.1 hC
    obtain ⟨hIm, hlt⟩ := hstep s a m hI hCs hm
    have hle := ih hIm (hCrest m hm) hrest
    simp only [List.length_cons]
    omega

theorem exec_potential (f : σ → Nat) (hstep : ∀ s a s', step s a = some s' → f s' < f s)
    (hex : exec step s as = some s') : as.length + f s' ≤ f s :=
  exec_potential_along (I := fun _ => True) (C := fun _ _ => True) f
    (fun s a s' _ _ h => ⟨trivial, hstep s a s' h⟩) trivial (fun _ _ _ _ _ _ => trivial) hex

/-- A potential that sums over the parties, after a step that changes the share of one. -/
theorem sum_of_ne {ι : Type*} [Fintype ι] [DecidableEq ι] {f g : ι → Nat} {i : ι}
    (h : ∀ j, j ≠ i → g j = f j) : ∑ j, g j + f i = ∑ j, f j + g i := by
  have hrest : ∑ j ∈ Finset.univ.erase i, g j = ∑ j ∈ Finset.univ.erase i, f j :=
    Finset.sum_congr rfl fun j hj => h j (Finset.ne_of_mem_erase hj)
  have hg := Finset.sum_erase_add Finset.univ g (Finset.mem_univ i)
  have hf := Finset.sum_erase_add Finset.univ f (Finset.mem_univ i)
  omega

/-- A budget: in the states of an invariant, the labels of one kind draw on it, and each of those
of another one adds at most `k` to it. -/
theorem exec_budget_mul (f : σ → Nat) (k : Nat) (draws fills : α → Bool)
    (hinv : ∀ s a s', I s → step s a = some s' → I s')
    (hstep : ∀ s a s', I s → step s a = some s' →
      f s' + (draws a).toNat ≤ f s + k * (fills a).toNat)
    (hI : I s) (hex : exec step s as = some s') :
    f s' + as.countP draws ≤ f s + k * as.countP fills := by
  induction as generalizing s with
  | nil => cases hex; simp
  | cons a as ih =>
    obtain ⟨m, hm, hrest⟩ := exec_cons_some.1 hex
    have hle := hstep s a m hI hm
    have hrest := ih (hinv s a m hI hm) hrest
    by_cases hd : draws a = true <;> by_cases hf : fills a = true <;>
      simp [hd, hf, Nat.mul_succ] at hle ⊢ <;> omega

theorem exec_budget (f : σ → Nat) (draws fills : α → Bool)
    (hinv : ∀ s a s', I s → step s a = some s' → I s')
    (hstep : ∀ s a s', I s → step s a = some s' → f s' + (draws a).toNat ≤ f s + (fills a).toNat)
    (hI : I s) (hex : exec step s as = some s') :
    f s' + as.countP draws ≤ f s + as.countP fills := by
  simpa using exec_budget_mul f 1 draws fills hinv (by simpa using hstep) hI hex

/-! ## A system seen through a function of its state -/

section map
variable {τ : Type*} {step' : τ → α → Option τ} {f : σ → τ}

theorem exec_map (hf : ∀ s a, (step s a).map f = step' (f s) a) (s : σ) (as : List α) :
    (exec step s as).map f = exec step' (f s) as := by
  induction as generalizing s with
  | nil => rfl
  | cons a as ih =>
    rw [exec_cons, exec_cons, ← hf]
    cases step s a with
    | none => rfl
    | some m => exact ih m

/-- A condition on what `f` shows of the state can be checked on the system that `f` shows. -/
theorem along_map (hf : ∀ s a, (step s a).map f = step' (f s) a) {C : τ → α → Prop} :
    Along step (fun s a => C (f s) a) s as ↔ Along step' C (f s) as := by
  constructor
  · intro h pre a post m heq hpre
    rw [← exec_map hf] at hpre
    obtain ⟨m', hm', rfl⟩ := Option.map_eq_some_iff.1 hpre
    exact h pre a post m' heq hm'
  · intro h pre a post m heq hpre
    exact h pre a post (f m) heq (by rw [← exec_map hf, hpre]; rfl)

end map

/-- A system of which `f` shows another one, in which only some of the steps are steps: `g` says
which. -/
theorem exec_filterMap {τ β : Type*} {step' : τ → β → Option τ} {f : σ → τ} {g : α → Option β}
    (hf : ∀ s a s', step s a = some s' →
      match g a with
      | none => f s' = f s
      | some b => step' (f s) b = some (f s'))
    (hex : exec step s as = some s') : exec step' (f s) (as.filterMap g) = some (f s') := by
  induction as generalizing s with
  | nil => cases hex; rfl
  | cons a as ih =>
    obtain ⟨m, hm, hrest⟩ := exec_cons_some.1 hex
    have hshown := hf s a m hm
    have hrest := ih hrest
    cases hg : g a with
    | none =>
      rw [hg] at hshown
      rw [List.filterMap_cons_none hg, ← hshown]
      exact hrest
    | some b =>
      rw [hg] at hshown
      rw [List.filterMap_cons_some hg]
      exact exec_cons_some.2 ⟨f m, hshown, hrest⟩

end Lts
