import SeastarStarter.ShardedMutex

/-!
# How the sections of `sharded_lock` end

`works_iff` says when a shard blocks itself. Here is what comes of all fibers in the end: the
moves are bounded by the number of fibers and by how often they suspend inside, and where a shard
has come to rest either all its fibers have left their sections, or its thread waits for a mutex
held by a fiber of the same shard that is suspended inside (`sections_end`). No shard ever waits
for another one.
-/

namespace SeastarStarter

open Lts

/-- The moves a fiber makes from a phase on, while it has the thread. -/
def Phase.toGo : Phase → Nat
  | .start => 3
  | .waiting => 2
  | .inside => 1
  | .finished => 0

def Move.isSuspend {Fiber : Type} : Move Fiber → Bool
  | .suspend _ => true
  | _ => false

namespace Reactors

variable {Shard Fiber : Type} [DecidableEq Shard] [DecidableEq Fiber] {shardOf : Fiber → Shard}
  {s s' : Reactors Shard Fiber} {move : Move Fiber}

/-- The fiber has to be resumed before it goes on. -/
def mustResume (shardOf : Fiber → Shard) (s : Reactors Shard Fiber) (f : Fiber) : Bool :=
  decide (s.phase f ≠ .finished ∧ s.running (shardOf f) ≠ some f)

def toGo (shardOf : Fiber → Shard) (s : Reactors Shard Fiber) (f : Fiber) : Nat :=
  (s.phase f).toGo + (s.mustResume shardOf f).toNat

/-- A thread moves on with the fiber that has it, before the move and after. -/
theorem running_of_step (h : step shardOf s move = some s') :
    (s.running (shardOf move.fiber) = none ∨ s.running (shardOf move.fiber) = some move.fiber) ∧
      (s'.running (shardOf move.fiber) = none ∨ s'.running (shardOf move.fiber) = some move.fiber) := by
  cases moved_of_step h with
  | resumed f hidle hphase => exact ⟨Or.inl hidle, Or.inr (Function.update_self _ _ _)⟩
  | entered f hrun hphase => exact ⟨Or.inr hrun, Or.inr (Function.update_self _ _ _)⟩
  | locked f hrun hphase hfree => exact ⟨Or.inr hrun, Or.inr (Function.update_self _ _ _)⟩
  | suspended f hrun hphase => exact ⟨Or.inr hrun, Or.inl (Function.update_self _ _ _)⟩
  | unlocked f hrun hphase => exact ⟨Or.inr hrun, Or.inl (Function.update_self _ _ _)⟩

/-- A move changes what there is to go for its own fiber only. -/
theorem toGo_of_ne (h : step shardOf s move = some s') {g : Fiber} (hne : g ≠ move.fiber) :
    s'.toGo shardOf g = s.toGo shardOf g := by
  have hphase := (step_frame h).2 g hne
  have hresume : s'.mustResume shardOf g = s.mustResume shardOf g := by
    unfold mustResume
    rw [hphase]
    by_cases hshard : shardOf g = shardOf move.fiber
    · -- neither before nor after the move has `g` the thread
      obtain ⟨hbefore, hafter⟩ := running_of_step h
      rw [hshard]
      rcases hbefore with hb | hb <;> rcases hafter with ha | ha <;>
        simp [hb, ha, Ne.symm hne]
    · rw [((step_frame h).1 _ hshard).2]
  unfold toGo
  rw [hphase, hresume]

/-- A move brings its fiber one step on; a fiber that suspends has to be resumed once more. -/
theorem toGo_self (h : step shardOf s move = some s') :
    s'.toGo shardOf move.fiber + (!move.isSuspend).toNat =
      s.toGo shardOf move.fiber + move.isSuspend.toNat := by
  cases moved_of_step h with
  | resumed f hidle hphase =>
    simp [toGo, mustResume, turn, Move.fiber, Move.isSuspend, hidle, hphase]
  | entered f hrun hphase =>
    simp [toGo, mustResume, turn, Move.fiber, Move.isSuspend, hrun, hphase, Phase.toGo]
  | locked f hrun hphase hfree =>
    simp [toGo, mustResume, turn, Move.fiber, Move.isSuspend, hrun, hphase, Phase.toGo]
  | suspended f hrun hphase =>
    simp [toGo, mustResume, turn, Move.fiber, Move.isSuspend, hrun, hphase, Phase.toGo]
  | unlocked f hrun hphase =>
    simp [toGo, mustResume, turn, Move.fiber, Move.isSuspend, hrun, hphase, Phase.toGo]

omit [DecidableEq Shard] in
theorem toGo_start (f : Fiber) : (start : Reactors Shard Fiber).toGo shardOf f = 4 := by
  simp [toGo, mustResume, start, Phase.toGo]

/-- **The step of `sections_end`**, for all fibers together. -/
theorem sum_toGo_step [Fintype Fiber] (h : step shardOf s move = some s') :
    ∑ f, s'.toGo shardOf f + (!move.isSuspend).toNat ≤
      ∑ f, s.toGo shardOf f + move.isSuspend.toNat := by
  have hsum := sum_of_ne (f := s.toGo shardOf) (g := s'.toGo shardOf) (i := move.fiber)
    fun g hne => toGo_of_ne h hne
  have hself := toGo_self h
  omega

/-- The thread of the shard waits for a mutex that a fiber of the same shard holds. -/
def Blocked (shardOf : Fiber → Shard) (s : Reactors Shard Fiber) (shard : Shard) : Prop :=
  ∃ f g, shardOf f = shard ∧ shardOf g = shard ∧ s.running shard = some f ∧
    s.phase f = .waiting ∧ s.mutexes shard = some g ∧ s.phase g = .inside

/-- Where no fiber of a shard can move, all are finished or the thread is blocked. -/
theorem blocked_of_rest (hI : Inv shardOf s) {shard : Shard}
    (hrest : ∀ move : Move Fiber, shardOf move.fiber = shard → step shardOf s move = none) :
    (∀ f, shardOf f = shard → s.phase f = .finished) ∨ Blocked shardOf s shard := by
  cases hrunning : s.running shard with
  | none =>
    left
    intro f hshard
    by_contra hunfinished
    have hresume := hrest (.resume f) hshard
    rw [step, hshard, if_pos ⟨hrunning, hunfinished⟩] at hresume
    cases hresume
  | some f =>
    obtain ⟨rfl, hphase⟩ := hI.runs shard f hrunning
    right
    cases hf : s.phase f with
    | start =>
      have hlock := hrest (.lock f) rfl
      rw [step, if_pos ⟨hrunning, hf⟩] at hlock
      cases hlock
    | waiting =>
      have hlocked := hrest (.locked f) rfl
      rw [step, if_pos ⟨hrunning, hf⟩, Option.map_eq_none_iff, Mutexes.lock_eq_none] at hlocked
      obtain ⟨g, hheld⟩ := Option.ne_none_iff_exists'.1 hlocked
      have hshard := hI.owners _ g hheld
      refine ⟨f, g, rfl, hshard, hrunning, hf, hheld, (hI.holds g).1 ?_⟩
      rw [hshard]
      exact hheld
    | inside =>
      have hunlock := hrest (.unlock f) rfl
      rw [step, if_pos ⟨hrunning, hf⟩] at hunlock
      cases hunlock
    | finished => exact absurd hf hphase

omit [DecidableEq Shard] [DecidableEq Fiber] in
/-- Where no fiber has met an obstruction, no thread is blocked. -/
theorem not_blocked (hW : WaitsForFree shardOf s) (shard : Shard) : ¬ Blocked shardOf s shard := by
  rintro ⟨f, g, rfl, -, -, hwaiting, hheld, -⟩
  rw [hW f hwaiting] at hheld
  cases hheld

/-- **How sections end.** In every run of finitely many fibers on any shards, the moves other than
suspensions are four for each fiber, and one for each suspension, at most. A shard on which no move
is possible any more has all its fibers finished, or its thread waits for a mutex that a suspended
fiber of the same shard holds, and then nothing ever happens on it again. The second does not come
about in runs in which no fiber comes to the constructor while another one of its shard is
inside. -/
theorem sections_end [Fintype Fiber] (moves : List (Move Fiber))
    (hrun : exec (step shardOf) start moves = some s) :
    moves.countP (fun move => !move.isSuspend) ≤
        4 * Fintype.card Fiber + moves.countP Move.isSuspend ∧
      ∀ shard, (∀ move : Move Fiber, shardOf move.fiber = shard → step shardOf s move = none) →
        ((∀ f, shardOf f = shard → s.phase f = .finished) ∨
          Blocked shardOf s shard ∧ ∀ later s', exec (step shardOf) s later = some s' →
            Stuck shardOf s' shard) ∧
        (Along (step shardOf) (Unobstructed shardOf) start moves →
          ∀ f, shardOf f = shard → s.phase f = .finished) := by
  have hI : Inv shardOf s := (always_inv moves).last hrun
  constructor
  · have hbudget := exec_budget (I := fun _ => True) (fun s => ∑ f, s.toGo shardOf f)
      (fun move => !move.isSuspend) Move.isSuspend (fun _ _ _ _ _ => trivial)
      (fun _ _ _ _ h => sum_toGo_step h) trivial hrun
    have hstart : ∑ f, (start : Reactors Shard Fiber).toGo shardOf f = 4 * Fintype.card Fiber := by
      simp [toGo_start, Nat.mul_comm]
    omega
  · intro shard hrest
    have hcases := blocked_of_rest hI hrest
    constructor
    · refine hcases.imp_right fun hblocked => ⟨hblocked, fun later s' hlater => ?_⟩
      obtain ⟨f, g, hf, -, -, hwaiting, -, -⟩ := hblocked
      exact stuck_forever ⟨⟨f, hf, by rw [hwaiting]; decide⟩, hrest⟩ hlater
    · intro halong
      have hboth : Inv shardOf s ∧ WaitsForFree shardOf s :=
        exec_along (I := fun s => Inv shardOf s ∧ WaitsForFree shardOf s)
          (fun _ _ _ hI hmove hs => ⟨hI.1.step hs, hI.2.step hI.1 hmove hs⟩) ⟨inv_start, nofun⟩
          halong hrun
      exact hcases.resolve_right (not_blocked hboth.2 shard)

/-- One shard, two fibers, the first of which suspends inside. -/
theorem sections_end_blocked : ∃ s : Reactors Unit Bool, Blocked (fun _ => ()) s () := by
  obtain ⟨s, hs, hinside, hrest⟩ : ∃ s : Reactors Unit Bool,
      exec (step fun _ => ()) start [.resume false, .lock false, .locked false, .suspend false,
        .resume true, .lock true] = some s ∧ s.phase false = .inside ∧
      ∀ move : Move Bool, () = () → step (fun _ => ()) s move = none := by
    refine ⟨_, rfl, rfl, fun move _ => ?_⟩
    cases move with
    | resume f => cases f <;> rfl
    | lock f => cases f <;> rfl
    | locked f => cases f <;> rfl
    | suspend f => cases f <;> rfl
    | unlock f => cases f <;> rfl
  obtain ⟨-, h⟩ := sections_end _ hs
  refine ⟨s, ((h () hrest).1.resolve_left fun hfinished => ?_).1⟩
  rw [hfinished false rfl] at hinside
  cases hinside

end Reactors
end SeastarStarter
