import Mathlib.Logic.Function.Basic
import SeastarStarter.Lib.Lts

/-!
# Tasks that access a shared state once

Any number of tasks take turns, step by step, on one shared state. `whole` is what a task does
when it has the state to itself. If each task touches what the others may touch in one of its
steps only (`OneAccess`), then whatever the schedule, the tasks do what they would do one after
the other, in the order of their accesses (`serial_of_exec`); and who has had its access keeps
its place in that order (`order_grows`).
-/

namespace Tasks

open Lts

variable {ι σ L B : Type*}

inductive Stage (L B : Type*) where
  | running (l : L)
  | finished (b : B)

structure Pool (ι σ L B : Type*) where
  shared : σ
  stage : ι → Stage L B
  /-- The tasks that have had their access, in the order of their accesses. -/
  order : List ι

def start (init : ι → L) (s : σ) : Pool ι σ L B := ⟨s, fun i => .running (init i), []⟩

/-- Whether a task has had its access. -/
def Stage.spent (spent : L → Bool) : Stage L B → Bool
  | .running l => spent l
  | .finished _ => true

def Stage.isFinished : Stage L B → Bool
  | .running _ => false
  | .finished _ => true

/-! ## Who comes before a task -/

section
variable [DecidableEq ι]

/-- The tasks before `i`. -/
def upTo : List ι → ι → List ι
  | [], _ => []
  | j :: order, i => if j = i then [] else j :: upTo order i

/-- Who comes later makes no difference. -/
theorem upTo_append {order later : List ι} {i : ι} (h : i ∈ order) :
    upTo (order ++ later) i = upTo order i := by
  induction order with
  | nil => simp at h
  | cons j order ih =>
    by_cases hj : j = i
    · simp [upTo, hj]
    · simp [upTo, hj, ih (by simpa [Ne.symm hj] using h)]

theorem upTo_snoc {order : List ι} {i : ι} (h : i ∉ order) : upTo (order ++ [i]) i = order := by
  induction order with
  | nil => simp [upTo]
  | cons j order ih =>
    obtain ⟨hj, hi⟩ : i ≠ j ∧ i ∉ order := by simpa using h
    simp [upTo, Ne.symm hj, ih hi]

/-- Who is in an order before `j` has come to be in it stays before `j`. -/
theorem mem_upTo_grown {order order' : List ι} (h : order <+: order') {i j : ι}
    (hi : i ∈ order) (hj : j ∉ order) : i ∈ upTo order' j := by
  obtain ⟨later, rfl⟩ := h
  induction order with
  | nil => simp at hi
  | cons k order ih =>
    obtain ⟨hk, hj⟩ : j ≠ k ∧ j ∉ order := by simpa using hj
    simp only [List.cons_append, upTo, Ne.symm hk, if_false, List.mem_cons]
    exact (List.mem_cons.1 hi).imp_right fun h => ih h hj

theorem upTo_prefix_order (order : List ι) (i : ι) : upTo order i <+: order := by
  induction order with
  | nil => exact List.prefix_rfl
  | cons k order ih =>
    by_cases hk : k = i
    · simp [upTo, hk]
    · simpa [upTo, hk] using ih

/-- Whoever is before a task has before it only what the task has before it as well. -/
theorem upTo_prefix_of_mem {order : List ι} {i j : ι} (h : i ∈ upTo order j) :
    upTo order i <+: upTo order j := by
  induction order with
  | nil => simp [upTo] at h
  | cons k order ih =>
    by_cases hkj : k = j
    · simp [upTo, hkj] at h
    · by_cases hki : k = i
      · simp [upTo, hki]
      · have hmem : i ∈ upTo order j := by simpa [upTo, hkj, Ne.symm hki] using h
        simpa [upTo, hkj, hki] using ih hmem

theorem notMem_upTo_of_mem {order : List ι} {i j : ι} (h : i ∈ upTo order j) :
    j ∉ upTo order i := by
  induction order with
  | nil => simp [upTo]
  | cons k order ih =>
    by_cases hkj : k = j
    · simp [upTo, hkj] at h
    · by_cases hki : k = i
      · simp [upTo, hki]
      · have hmem : i ∈ upTo order j := by simpa [upTo, hkj, Ne.symm hki] using h
        simpa [upTo, hki, Ne.symm hkj] using ih hmem

/-- Task `i` takes its next step. -/
def step (next : ι → L → σ → Stage L B × σ) (spent : L → Bool) (p : Pool ι σ L B) (i : ι) :
    Option (Pool ι σ L B) :=
  match p.stage i with
  | .finished _ => none
  | .running l =>
    some ⟨(next i l p.shared).2, Function.update p.stage i (next i l p.shared).1,
      if !spent l && (next i l p.shared).1.spent spent then p.order ++ [i] else p.order⟩

theorem step_some {next : ι → L → σ → Stage L B × σ} {spent : L → Bool} {p p' : Pool ι σ L B}
    {i : ι} (h : step next spent p i = some p') :
    ∃ l, p.stage i = .running l ∧
      p'.stage = Function.update p.stage i (next i l p.shared).1 := by
  unfold step at h
  cases hstage : p.stage i with
  | finished b => simp [hstage] at h
  | running l =>
    rw [hstage] at h
    obtain rfl := Option.some.inj h
    exact ⟨l, rfl, rfl⟩

theorem isSome_step {next : ι → L → σ → Stage L B × σ} {spent : L → Bool} {p : Pool ι σ L B}
    {i : ι} (h : (p.stage i).isFinished = false) : (step next spent p i).isSome = true := by
  unfold step
  cases hstage : p.stage i with
  | finished b => simp [hstage, Stage.isFinished] at h
  | running l => rfl

end

/-! ## The tasks one after the other -/

/-- The state after the tasks of `order`. -/
def after (whole : ι → σ → B × σ) (s : σ) (order : List ι) : σ :=
  order.foldl (fun s i => (whole i s).2) s

@[simp] theorem after_nil (whole : ι → σ → B × σ) (s : σ) : after whole s [] = s := rfl

@[simp] theorem after_append (whole : ι → σ → B × σ) (s : σ) (order order' : List ι) :
    after whole s (order ++ order') = after whole (after whole s order) order' := by
  simp [after]

@[simp] theorem after_cons (whole : ι → σ → B × σ) (s : σ) (i : ι) (order : List ι) :
    after whole s (i :: order) = after whole (whole i s).2 order := rfl

/-- The steps of the tasks make up `whole`: a task gets ready without changing the state, and
stays ready when another one has its access; its access does all that `whole` does; from then on
it only comes to its outcome. -/
structure OneAccess (next : ι → L → σ → Stage L B × σ) (spent : L → Bool)
    (whole : ι → σ → B × σ) (init : ι → L) (Ready : ι → L → σ → Prop) (Spent : ι → L → B → Prop) :
    Prop where
  ready_init : ∀ i s, Ready i (init i) s
  not_spent : ∀ i l s, Ready i l s → spent l = false
  spent : ∀ i l b, Spent i l b → spent l = true
  ready_step : ∀ i l s, Ready i l s →
    (∃ l', next i l s = (.running l', s) ∧ Ready i l' s) ∨
    (∃ l', next i l s = (.running l', (whole i s).2) ∧ Spent i l' (whole i s).1) ∨
    next i l s = (.finished (whole i s).1, (whole i s).2)
  spent_step : ∀ i l b s, Spent i l b →
    (∃ l', next i l s = (.running l', s) ∧ Spent i l' b) ∨ next i l s = (.finished b, s)
  steady : ∀ i j l s, Ready j l s → Ready j l (whole i s).2

variable {next : ι → L → σ → Stage L B × σ} {spent : L → Bool} {whole : ι → σ → B × σ}
  {init : ι → L} {Ready : ι → L → σ → Prop} {Spent : ι → L → B → Prop}

/-- The task will come, or has come, to `b`. -/
def ComesTo (Spent : ι → L → B → Prop) (i : ι) (b : B) : Stage L B → Prop
  | .running l => Spent i l b
  | .finished b' => b' = b

variable [DecidableEq ι]

/-- The pool is where the tasks of its order would have brought it one after the other. -/
structure Serial (whole : ι → σ → B × σ) (Ready : ι → L → σ → Prop) (Spent : ι → L → B → Prop)
    (s₀ : σ) (p : Pool ι σ L B) : Prop where
  shared : p.shared = after whole s₀ p.order
  nodup : p.order.Nodup
  ready : ∀ i, i ∉ p.order → ∃ l, p.stage i = .running l ∧ Ready i l p.shared
  comes : ∀ i, i ∈ p.order →
    ComesTo Spent i (whole i (after whole s₀ (upTo p.order i))).1 (p.stage i)

theorem serial_start (hone : OneAccess next spent whole init Ready Spent) (s : σ) :
    Serial whole Ready Spent s (start init s) :=
  ⟨rfl, List.nodup_nil, fun i _ => ⟨init i, rfl, hone.ready_init i s⟩, fun _ h => by cases h⟩

/-- A step of a task that has had its access. -/
theorem Serial.step_spent (hone : OneAccess next spent whole init Ready Spent) {s₀ : σ}
    {p p' : Pool ι σ L B} {i : ι} (h : Serial whole Ready Spent s₀ p) (hi : i ∈ p.order)
    (hstep : step next spent p i = some p') :
    Serial whole Ready Spent s₀ p' ∧ p'.order = p.order := by
  unfold step at hstep
  have hcomes := h.comes i hi
  cases hstage : p.stage i with
  | finished b => simp [hstage] at hstep
  | running l =>
    rw [hstage] at hcomes
    simp only [hstage, hone.spent i l _ hcomes, Bool.not_true, Bool.false_and,
      Bool.false_eq_true, if_false, Option.some.injEq] at hstep
    subst hstep
    have hnext : (next i l p.shared).2 = p.shared ∧
        ComesTo Spent i (whole i (after whole s₀ (upTo p.order i))).1 (next i l p.shared).1 := by
      rcases hone.spent_step i l _ p.shared hcomes with ⟨l', heq, hspent⟩ | heq <;> rw [heq]
      · exact ⟨rfl, hspent⟩
      · exact ⟨rfl, rfl⟩
    refine ⟨⟨hnext.1.trans h.shared, h.nodup, fun j hj => ?_, fun j hj => ?_⟩, rfl⟩
    · have hji : j ≠ i := fun heq => hj (heq ▸ hi)
      simp only [Function.update_of_ne hji, hnext.1]
      exact h.ready j hj
    · by_cases hji : j = i
      · subst hji
        simpa using hnext.2
      · simp only [Function.update_of_ne hji]
        exact h.comes j hj

/-- A step of a task that has not: it gets ready, or this is its access. -/
theorem Serial.step_ready (hone : OneAccess next spent whole init Ready Spent) {s₀ : σ}
    {p p' : Pool ι σ L B} {i : ι} (h : Serial whole Ready Spent s₀ p) (hi : i ∉ p.order)
    (hstep : step next spent p i = some p') :
    Serial whole Ready Spent s₀ p' ∧ (p'.order = p.order ∨ p'.order = p.order ++ [i]) := by
  obtain ⟨l, hstage, hready⟩ := h.ready i hi
  unfold step at hstep
  simp only [hstage, hone.not_spent i l _ hready, Bool.not_false, Bool.true_and,
    Option.some.injEq] at hstep
  -- the access of `i` in the state that the others have left
  have haccess : ∀ stage, next i l p.shared = (stage, (whole i p.shared).2) →
      stage.spent spent = true → ComesTo Spent i (whole i p.shared).1 stage →
      Serial whole Ready Spent s₀ p' ∧ (p'.order = p.order ∨ p'.order = p.order ++ [i]) := by
    intro stage hnext hspent hcomes
    simp only [hnext, hspent, if_true] at hstep
    subst hstep
    refine ⟨⟨?_, ?_, fun j hj => ?_, fun j hj => ?_⟩, Or.inr rfl⟩
    · simp [h.shared]
    · simpa [List.nodup_append, h.nodup] using fun j hj (heq : j = i) => hi (heq ▸ hj)
    · obtain ⟨hj, hji⟩ : j ∉ p.order ∧ j ≠ i := by simpa using hj
      simp only [Function.update_of_ne hji]
      obtain ⟨k, hk, hready⟩ := h.ready j hj
      exact ⟨k, hk, hone.steady i j k p.shared hready⟩
    · by_cases hji : j = i
      · subst hji
        simpa [upTo_snoc hi, ← h.shared] using hcomes
      · have hj : j ∈ p.order := by simpa [hji] using hj
        simp only [Function.update_of_ne hji, upTo_append hj]
        exact h.comes j hj
  rcases hone.ready_step i l p.shared hready with ⟨l', hnext, hready'⟩ | ⟨l', hnext, hspent⟩ | hnext
  · have hopen : (Stage.running l' : Stage L B).spent spent = false :=
      hone.not_spent i l' _ hready'
    simp only [hnext, hopen, Bool.false_eq_true, if_false] at hstep
    subst hstep
    refine ⟨⟨h.shared, h.nodup, fun j hj => ?_, fun j hj => ?_⟩, Or.inl rfl⟩
    · by_cases hji : j = i
      · subst hji
        exact ⟨l', by simp, hready'⟩
      · simp only [Function.update_of_ne hji]
        exact h.ready j hj
    · have hji : j ≠ i := fun heq => hi (heq ▸ hj)
      simp only [Function.update_of_ne hji]
      exact h.comes j hj
  · exact haccess _ hnext (hone.spent i l' _ hspent) hspent
  · exact haccess _ hnext rfl rfl

theorem Serial.step (hone : OneAccess next spent whole init Ready Spent) {s₀ : σ}
    {p p' : Pool ι σ L B} {i : ι} (h : Serial whole Ready Spent s₀ p)
    (hstep : Tasks.step next spent p i = some p') : Serial whole Ready Spent s₀ p' := by
  by_cases hi : i ∈ p.order
  · exact (h.step_spent hone hi hstep).1
  · exact (h.step_ready hone hi hstep).1

/-- **Every schedule is serial.** -/
theorem serial_of_exec (hone : OneAccess next spent whole init Ready Spent) {s₀ : σ}
    {schedule : List ι} {p : Pool ι σ L B}
    (hex : exec (step next spent) (start init s₀) schedule = some p) :
    Serial whole Ready Spent s₀ p :=
  exec_invariant (fun _ _ _ h hstep => h.step hone hstep) (serial_start hone s₀) hex

theorem order_grows_step {p p' : Pool ι σ L B} {i : ι} (hstep : step next spent p i = some p') :
    p.order <+: p'.order := by
  unfold step at hstep
  cases hstage : p.stage i with
  | finished b => simp [hstage] at hstep
  | running l =>
    simp only [hstage, Option.some.injEq] at hstep
    subst hstep
    simp only
    split
    · exact List.prefix_append _ _
    · exact List.prefix_rfl

/-- An access that is behind at one moment comes before those that are still ahead. -/
theorem order_grows {schedule : List ι} {p p' : Pool ι σ L B}
    (hex : exec (step next spent) p schedule = some p') : p.order <+: p'.order :=
  exec_invariant (I := fun q => p.order <+: q.order)
    (fun _ _ _ h hstep => h.trans (order_grows_step hstep)) List.prefix_rfl hex

end Tasks
