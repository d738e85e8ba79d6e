import Mathlib.Data.List.Basic

/-!
# UTF-8 validity of a byte string

The automaton of well-formed UTF-8 (no overlong form, no surrogate, nothing above U+10FFFF): a
byte string is valid when the automaton reads it from `start` back to `start`. Validity does
not change when a valid text is put before a string, or an ASCII text behind it.
-/

abbrev Bytes := List UInt8

namespace Utf8

/-- What is due: a new character, or continuation bytes (after `E0`, `ED`, `F0` and `F4` the
next one is held to a smaller range). -/
inductive State where
  | start | tail1 | tail2 | tail3 | afterE0 | afterED | afterF0 | afterF4
deriving DecidableEq

/-- The first byte of a character. -/
def lead (b : UInt8) : Option State :=
  if b < 0x80 then some .start
  else if b < 0xC2 then none
  else if b < 0xE0 then some .tail1
  else if b = 0xE0 then some .afterE0
  else if b = 0xED then some .afterED
  else if b < 0xF0 then some .tail2
  else if b = 0xF0 then some .afterF0
  else if b < 0xF4 then some .tail3
  else if b = 0xF4 then some .afterF4
  else none

def step : State → UInt8 → Option State
  | .start, b => lead b
  | .tail1, b => if 0x80 ≤ b ∧ b ≤ 0xBF then some .start else none
  | .tail2, b => if 0x80 ≤ b ∧ b ≤ 0xBF then some .tail1 else none
  | .tail3, b => if 0x80 ≤ b ∧ b ≤ 0xBF then some .tail2 else none
  | .afterE0, b => if 0xA0 ≤ b ∧ b ≤ 0xBF then some .tail1 else none
  | .afterED, b => if 0x80 ≤ b ∧ b ≤ 0x9F then some .tail1 else none
  | .afterF0, b => if 0x90 ≤ b ∧ b ≤ 0xBF then some .tail2 else none
  | .afterF4, b => if 0x80 ≤ b ∧ b ≤ 0x8F then some .tail2 else none

/-- The state after reading `bs`; `none` where a byte does not fit. -/
def read (s : State) (bs : Bytes) : Option State := bs.foldlM step s

def Valid (bs : Bytes) : Prop := read .start bs = some .start

instance (bs : Bytes) : Decidable (Valid bs) := inferInstanceAs (Decidable (_ = _))

def Ascii (bs : Bytes) : Prop := ∀ b ∈ bs, b < 0x80

instance (bs : Bytes) : Decidable (Ascii bs) := List.decidableBAll _ _

theorem read_append (s : State) (as bs : Bytes) :
    read s (as ++ bs) = (read s as).bind fun m => read m bs := List.foldlM_append

theorem read_cons (s : State) (b : UInt8) (bs : Bytes) :
    read s (b :: bs) = (step s b).bind fun m => read m bs := rfl

theorem Ascii.read_start {bs : Bytes} (h : Ascii bs) : read .start bs = some .start := by
  induction bs with
  | nil => rfl
  | cons b bs ih =>
    have hb : step .start b = some .start := if_pos (h b List.mem_cons_self)
    rw [read_cons, hb]
    exact ih fun x hx => h x (List.mem_cons_of_mem _ hx)

theorem Ascii.valid {bs : Bytes} (h : Ascii bs) : Valid bs := h.read_start

/-- Inside a character, no ASCII byte fits. -/
theorem start_of_step_ascii {s m : State} {b : UInt8} (hb : b < 0x80) (h : step s b = some m) :
    s = .start := by
  have hno : ∀ lo : UInt8, 0x80 ≤ lo → ¬ lo ≤ b := fun lo hlo hle =>
    UInt8.lt_irrefl _ (UInt8.lt_of_lt_of_le hb (UInt8.le_trans hlo hle))
  cases s with
  | start => rfl
  | tail1 | tail2 | tail3 | afterED | afterF4 =>
    rw [step, if_neg fun hr => hno 0x80 (by decide) hr.1] at h
    cases h
  | afterE0 =>
    rw [step, if_neg fun hr => hno 0xA0 (by decide) hr.1] at h
    cases h
  | afterF0 =>
    rw [step, if_neg fun hr => hno 0x90 (by decide) hr.1] at h
    cases h

/-- Behind a valid text, a string is valid or not by itself. -/
theorem Valid.append_iff {as bs : Bytes} (h : Valid as) : Valid (as ++ bs) ↔ Valid bs := by
  unfold Valid at *
  rw [read_append, h]
  rfl

/-- An ASCII text behind a string makes no difference. -/
theorem valid_append_ascii {as bs : Bytes} (h : Ascii bs) : Valid (as ++ bs) ↔ Valid as := by
  unfold Valid
  rw [read_append]
  cases hr : read .start as with
  | none => simp
  | some s =>
    rw [Option.bind_some, Option.some.injEq]
    constructor
    · intro hs
      cases bs with
      | nil => exact Option.some.inj hs
      | cons b bs =>
        rw [read_cons] at hs
        obtain ⟨m, hm, -⟩ := Option.bind_eq_some_iff.1 hs
        exact start_of_step_ascii (h b List.mem_cons_self) hm
    · rintro rfl
      exact h.read_start

end Utf8
