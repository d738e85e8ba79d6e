import Mathlib.Order.Defs.Unbundled

/-!
# Futures that change a state and may fail

`Fut ε σ α` is a coroutine seen from the outside: it changes a state `σ` and resolves to an `α`
or fails with an `ε`; what it did to the state before it failed stays done. A `co_await` is a
bind, `try`/`catch (...)` is `tryCatch`, and `thenWrapped` hands the resolved future to its
continuation. `run` gives outcome and state, and the lemmas compute it step by step.
-/

def Fut (ε σ α : Type) : Type := σ → Except ε α × σ

namespace Fut

variable {ε σ α β : Type}

/-- The outcome of a future started in `s`, and the state it leaves. -/
def run (m : Fut ε σ α) (s : σ) : Except ε α × σ := m s

instance : Monad (Fut ε σ) where
  pure a := fun s => (.ok a, s)
  bind m f := fun s =>
    match m.run s with
    | (.ok a, s') => (f a).run s'
    | (.error e, s') => (.error e, s')

instance : MonadExcept ε (Fut ε σ) where
  throw e := fun s => (.error e, s)
  tryCatch m k := fun s =>
    match m.run s with
    | (.ok a, s') => (.ok a, s')
    | (.error e, s') => (k e).run s'

/-- A computation that does not touch the state. -/
def ofExcept (x : Except ε α) : Fut ε σ α := fun s => (x, s)

def modify (f : σ → σ) : Fut ε σ Unit := fun s => (.ok (), f s)

/-- `f.then_wrapped(k)`: `k` gets the resolved future, failed or not. -/
def thenWrapped (m : Fut ε σ α) (k : Except ε α → Fut ε σ β) : Fut ε σ β :=
  fun s => (k (m.run s).1).run (m.run s).2

theorem ext {m m' : Fut ε σ α} (h : ∀ s, m.run s = m'.run s) : m = m' := funext h

@[simp] theorem run_pure (a : α) (s : σ) : (pure a : Fut ε σ α).run s = (.ok a, s) := rfl

@[simp] theorem run_throw (e : ε) (s : σ) : (throw e : Fut ε σ α).run s = (.error e, s) := rfl

@[simp] theorem run_ofExcept (x : Except ε α) (s : σ) : (ofExcept x).run s = (x, s) := rfl

@[simp] theorem run_modify (f : σ → σ) (s : σ) : (modify f : Fut ε σ Unit).run s = (.ok (), f s) := rfl

theorem run_bind (m : Fut ε σ α) (f : α → Fut ε σ β) (s : σ) :
    (m >>= f).run s = match m.run s with
      | (.ok a, s') => (f a).run s'
      | (.error e, s') => (.error e, s') := rfl

theorem run_bind_ok {m : Fut ε σ α} {f : α → Fut ε σ β} {s s' : σ} {a : α}
    (h : m.run s = (.ok a, s')) : (m >>= f).run s = (f a).run s' := by
  rw [run_bind, h]

theorem run_bind_error {m : Fut ε σ α} {f : α → Fut ε σ β} {s s' : σ} {e : ε}
    (h : m.run s = (.error e, s')) : (m >>= f).run s = (.error e, s') := by
  rw [run_bind, h]

theorem run_tryCatch (m : Fut ε σ α) (k : ε → Fut ε σ α) (s : σ) :
    (tryCatch m k).run s = match m.run s with
      | (.ok a, s') => (.ok a, s')
      | (.error e, s') => (k e).run s' := rfl

@[simp] theorem run_thenWrapped (m : Fut ε σ α) (k : Except ε α → Fut ε σ β) (s : σ) :
    (thenWrapped m k).run s = (k (m.run s).1).run (m.run s).2 := rfl

instance : LawfulMonad (Fut ε σ) := by
  refine LawfulMonad.mk' _ ?_ ?_ ?_
  · intro α m
    refine ext fun s => ?_
    show (match m.run s with | (.ok a, s') => (.ok a, s') | (.error e, s') => (.error e, s')) = m.run s
    rcases m.run s with ⟨e | a, s'⟩ <;> rfl
  · intros; rfl
  · intro α β γ m f g
    refine ext fun s => ?_
    rw [run_bind, run_bind, run_bind]
    rcases m.run s with ⟨e | a, s'⟩ <;> rfl

/-! ### Computations without state inside -/

@[simp] theorem ofExcept_pure (a : α) : (ofExcept (pure a) : Fut ε σ α) = pure a := rfl

@[simp] theorem ofExcept_ok (a : α) : (ofExcept (.ok a) : Fut ε σ α) = pure a := rfl

/-- Binds of stateless computations are binds of their `Except`s. -/
theorem ofExcept_bind (x : Except ε α) (f : α → Except ε β) :
    (ofExcept (x >>= f) : Fut ε σ β) = ofExcept x >>= fun a => ofExcept (f a) := by
  cases x <;> rfl

/-! ### What a future does to the state, whatever its outcome -/

/-- The state moves along `R`. -/
def Moves (R : σ → σ → Prop) (m : Fut ε σ α) : Prop := ∀ s, R s (m.run s).2

section
variable {R : σ → σ → Prop} [IsTrans σ R]

theorem Moves.bind {m : Fut ε σ α} {f : α → Fut ε σ β} (hm : Moves R m) (hf : ∀ a, Moves R (f a)) :
    Moves R (m >>= f) := by
  intro s
  have hs := hm s
  rw [run_bind]
  rcases hrun : m.run s with ⟨e | a, s'⟩
  · rw [hrun] at hs
    exact hs
  · rw [hrun] at hs
    exact trans_of R hs (hf a s')

theorem Moves.tryCatch {m : Fut ε σ α} {k : ε → Fut ε σ α} (hm : Moves R m)
    (hk : ∀ e, Moves R (k e)) : Moves R (tryCatch m k) := by
  intro s
  have hs := hm s
  rw [run_tryCatch]
  rcases hrun : m.run s with ⟨e | a, s'⟩
  · rw [hrun] at hs
    exact trans_of R hs (hk e s')
  · rw [hrun] at hs
    exact hs

theorem Moves.thenWrapped {m : Fut ε σ α} {k : Except ε α → Fut ε σ β} (hm : Moves R m)
    (hk : ∀ x, Moves R (k x)) : Moves R (thenWrapped m k) :=
  fun s => trans_of R (hm s) (hk _ _)

end

end Fut

/-! ### Outcomes as options -/

namespace Except

variable {ε α β : Type}

@[simp] theorem toOption_ok (a : α) : (.ok a : Except ε α).toOption = some a := rfl

@[simp] theorem toOption_pure (a : α) : (pure a : Except ε α).toOption = some a := rfl

@[simp] theorem toOption_error (e : ε) : (.error e : Except ε α).toOption = none := rfl

/-- Forgetting the errors commutes with binds. -/
@[simp] theorem toOption_bind (x : Except ε α) (f : α → Except ε β) :
    (x >>= f).toOption = x.toOption.bind fun a => (f a).toOption := by
  cases x <;> rfl

theorem toOption_eq_some {x : Except ε α} {a : α} : x.toOption = some a ↔ x = .ok a := by
  cases x with
  | error e => simp
  | ok b => simp

/-! ### What a bind came from -/

theorem bind_eq_ok {x : Except ε α} {f : α → Except ε β} {b : β} :
    (x >>= f) = .ok b ↔ ∃ a, x = .ok a ∧ f a = .ok b := by
  constructor
  · intro h
    cases x with
    | error e => cases h
    | ok a => exact ⟨a, rfl, h⟩
  · rintro ⟨a, rfl, h⟩
    exact h

theorem bind_eq_error {x : Except ε α} {f : α → Except ε β} {e : ε} :
    (x >>= f) = .error e ↔ x = .error e ∨ ∃ a, x = .ok a ∧ f a = .error e := by
  constructor
  · intro h
    cases x with
    | error e' => cases h; exact Or.inl rfl
    | ok a => exact Or.inr ⟨a, rfl, h⟩
  · rintro (rfl | ⟨a, rfl, h⟩)
    · rfl
    · exact h

end Except
