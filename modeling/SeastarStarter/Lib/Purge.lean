import SeastarStarter.Lib.OneAccess

/-!
# Tasks that cannot tell that others were there

Some of the tasks are *mine*, and `view` is what they see of the state. If the others leave the
view alone, and mine get by with it (`Unwinds`), then after any order of tasks the view, and the
outcome of each task of mine, are those of the order without the others (`view_purged`,
`outcome_purged`).
-/

namespace Tasks

variable {ι σ B V : Type*}

structure Unwinds (whole : ι → σ → B × σ) (view : σ → V) (mine : ι → Prop) : Prop where
  /-- What the others do is not seen. -/
  respects : ∀ i s, ¬ mine i → view (whole i s).2 = view s
  /-- What mine do depends on the view alone. -/
  outcome : ∀ i s s', mine i → view s = view s' → (whole i s).1 = (whole i s').1
  consistent : ∀ i s s', mine i → view s = view s' → view (whole i s).2 = view (whole i s').2

variable {whole : ι → σ → B × σ} {view : σ → V} {mine : ι → Prop} [DecidablePred mine]

theorem view_purged (h : Unwinds whole view mine) {s s' : σ} (hview : view s = view s')
    (order : List ι) : view (after whole s order) = view (after whole s' (order.filter mine)) := by
  induction order generalizing s s' with
  | nil => exact hview
  | cons i order ih =>
    by_cases hi : mine i
    · simpa [hi] using ih (h.consistent i s s' hi hview)
    · simpa [hi] using ih ((h.respects i s hi).trans hview)

variable [DecidableEq ι]

/-- Before a task of mine, the order without the others has those of mine that were before it. -/
theorem upTo_filter {i : ι} (hi : mine i) (order : List ι) :
    upTo (order.filter mine) i = (upTo order i).filter mine := by
  induction order with
  | nil => rfl
  | cons j order ih =>
    by_cases hji : j = i
    · subst hji
      simp [upTo, hi]
    · by_cases hj : mine j <;> simp [upTo, hji, hj, ih]

theorem outcome_purged (h : Unwinds whole view mine) {s s' : σ} (hview : view s = view s')
    (order : List ι) {i : ι} (hi : mine i) :
    (whole i (after whole s (upTo order i))).1 =
      (whole i (after whole s' (upTo (order.filter mine) i))).1 := by
  rw [upTo_filter hi]
  exact h.outcome i _ _ hi (view_purged h hview _)

end Tasks
