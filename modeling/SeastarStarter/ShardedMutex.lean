import Mathlib.Logic.Function.Basic
import SeastarStarter.Lib.Lts

/-!
# `sharded_mutex` and `sharded_lock` (main.cc:119-160)

| here | there |
| --- | --- |
| `Mutexes`         | `_mutexes`: the `std::mutex` of each shard, and the fiber that has locked it |
| `Mutexes.lock`    | `_mutexes.local().lock()` (`:133`): it returns only once the mutex is free |
| `Mutexes.unlock`  | `_mutexes.local().unlock()` (`:139`) |
| `Move.lock`, `Move.locked` | the constructor of `sharded_lock` (`:151-154`) is entered, and returns |
| `Move.unlock`     | its destructor (`:156-159`); the fiber ends |

A shard is one thread, which runs the fibers of its shard in turns: a fiber has the thread until
it suspends or ends, and while it waits in `std::mutex::lock` too. Fibers suspend only between
the constructor and the destructor.
-/

namespace SeastarStarter

open Lts

/-- The `std::mutex` of each shard: who has locked it. -/
abbrev Mutexes (Shard Fiber : Type) := Shard → Option Fiber

namespace Mutexes

variable {Shard Fiber : Type} [DecidableEq Shard]

/-- `std::mutex::lock`; `none` as long as it does not return. -/
def lock (mutexes : Mutexes Shard Fiber) (shard : Shard) (fiber : Fiber) :
    Option (Mutexes Shard Fiber) :=
  match mutexes shard with
  | none => some (Function.update mutexes shard (some fiber))
  | some _ => none

def unlock (mutexes : Mutexes Shard Fiber) (shard : Shard) : Mutexes Shard Fiber :=
  Function.update mutexes shard none

theorem lock_eq_none {mutexes : Mutexes Shard Fiber} {shard : Shard} {fiber : Fiber} :
    mutexes.lock shard fiber = none ↔ mutexes shard ≠ none := by
  unfold lock
  cases mutexes shard <;> simp

end Mutexes

inductive Phase where
  | start
  /-- In `std::mutex::lock`. -/
  | waiting
  /-- Between the constructor and the destructor. -/
  | inside
  | finished
deriving DecidableEq

inductive Move (Fiber : Type) where
  | resume (fiber : Fiber)
  | lock (fiber : Fiber)
  | locked (fiber : Fiber)
  | suspend (fiber : Fiber)
  | unlock (fiber : Fiber)

def Move.fiber {Fiber : Type} : Move Fiber → Fiber
  | .resume fiber | .lock fiber | .locked fiber | .suspend fiber | .unlock fiber => fiber

structure Reactors (Shard Fiber : Type) where
  mutexes : Mutexes Shard Fiber
  /-- The fiber that has the thread of the shard. -/
  running : Shard → Option Fiber
  phase : Fiber → Phase

namespace Reactors

variable {Shard Fiber : Type} [DecidableEq Shard] [DecidableEq Fiber] {shardOf : Fiber → Shard}

def start : Reactors Shard Fiber := ⟨fun _ => none, fun _ => none, fun _ => .start⟩

/-- What a move of `fiber` sets: its phase, and who has the thread of its shard. -/
def turn (shardOf : Fiber → Shard) (s : Reactors Shard Fiber) (fiber : Fiber) (phase : Phase)
    (running : Option Fiber) (mutexes : Mutexes Shard Fiber) : Reactors Shard Fiber :=
  ⟨mutexes, Function.update s.running (shardOf fiber) running, Function.update s.phase fiber phase⟩

def step (shardOf : Fiber → Shard) (s : Reactors Shard Fiber) :
    Move Fiber → Option (Reactors Shard Fiber)
  | .resume fiber =>
    if s.running (shardOf fiber) = none ∧ s.phase fiber ≠ .finished then
      some (s.turn shardOf fiber (s.phase fiber) (some fiber) s.mutexes)
    else none
  | .lock fiber =>
    if s.running (shardOf fiber) = some fiber ∧ s.phase fiber = .start then
      some (s.turn shardOf fiber .waiting (some fiber) s.mutexes)
    else none
  | .locked fiber =>
    if s.running (shardOf fiber) = some fiber ∧ s.phase fiber = .waiting then
      (s.mutexes.lock (shardOf fiber) fiber).map fun mutexes =>
        s.turn shardOf fiber .inside (some fiber) mutexes
    else none
  | .suspend fiber =>
    if s.running (shardOf fiber) = some fiber ∧ s.phase fiber = .inside then
      some (s.turn shardOf fiber .inside none s.mutexes)
    else none
  | .unlock fiber =>
    if s.running (shardOf fiber) = some fiber ∧ s.phase fiber = .inside then
      some (s.turn shardOf fiber .finished none (s.mutexes.unlock (shardOf fiber)))
    else none

/-- At most one fiber of a shard is between its constructor and its destructor. -/
def Exclusive (shardOf : Fiber → Shard) (s : Reactors Shard Fiber) : Prop :=
  ∀ f g, shardOf f = shardOf g → s.phase f = .inside → s.phase g = .inside → f = g

/-- The shard has unfinished fibers, and none of its fibers can make a move. -/
def Stuck (shardOf : Fiber → Shard) (s : Reactors Shard Fiber) (shard : Shard) : Prop :=
  (∃ fiber, shardOf fiber = shard ∧ s.phase fiber ≠ .finished) ∧
    ∀ move : Move Fiber, shardOf move.fiber = shard → step shardOf s move = none

/-- A fiber that comes to the constructor finds no fiber of its shard inside. -/
def Unobstructed (shardOf : Fiber → Shard) (s : Reactors Shard Fiber) : Move Fiber → Prop
  | .lock fiber => s.running (shardOf fiber) = some fiber → s.phase fiber = .start →
    ∀ other, shardOf other = shardOf fiber → s.phase other ≠ .inside
  | _ => True

/-! ## What a move does -/

/-- The state after a move, with what the move needed. -/
inductive Moved (shardOf : Fiber → Shard) (s : Reactors Shard Fiber) :
    Move Fiber → Reactors Shard Fiber → Prop
  | resumed (f : Fiber) (hidle : s.running (shardOf f) = none) (hphase : s.phase f ≠ .finished) :
      Moved shardOf s (.resume f) (s.turn shardOf f (s.phase f) (some f) s.mutexes)
  | entered (f : Fiber) (hrun : s.running (shardOf f) = some f) (hphase : s.phase f = .start) :
      Moved shardOf s (.lock f) (s.turn shardOf f .waiting (some f) s.mutexes)
  | locked (f : Fiber) (hrun : s.running (shardOf f) = some f) (hphase : s.phase f = .waiting)
      (hfree : s.mutexes (shardOf f) = none) :
      Moved shardOf s (.locked f)
        (s.turn shardOf f .inside (some f) (Function.update s.mutexes (shardOf f) (some f)))
  | suspended (f : Fiber) (hrun : s.running (shardOf f) = some f) (hphase : s.phase f = .inside) :
      Moved shardOf s (.suspend f) (s.turn shardOf f .inside none s.mutexes)
  | unlocked (f : Fiber) (hrun : s.running (shardOf f) = some f) (hphase : s.phase f = .inside) :
      Moved shardOf s (.unlock f)
        (s.turn shardOf f .finished none (Function.update s.mutexes (shardOf f) none))

theorem moved_of_step {s s' : Reactors Shard Fiber} {move : Move Fiber}
    (h : step shardOf s move = some s') : Moved shardOf s move s' := by
  cases move with
  | resume f =>
    obtain ⟨⟨hidle, hphase⟩, heq⟩ := Option.ite_none_right_eq_some.1 h
    cases heq
    exact .resumed f hidle hphase
  | lock f =>
    obtain ⟨⟨hrun, hphase⟩, heq⟩ := Option.ite_none_right_eq_some.1 h
    cases heq
    exact .entered f hrun hphase
  | locked f =>
    obtain ⟨⟨hrun, hphase⟩, heq⟩ := Option.ite_none_right_eq_some.1 h
    obtain ⟨mutexes, hlock, rfl⟩ := Option.map_eq_some_iff.1 heq
    unfold Mutexes.lock at hlock
    split at hlock
    · rename_i hfree
      cases hlock
      exact .locked f hrun hphase hfree
    · cases hlock
  | suspend f =>
    obtain ⟨⟨hrun, hphase⟩, heq⟩ := Option.ite_none_right_eq_some.1 h
    cases heq
    exact .suspended f hrun hphase
  | unlock f =>
    obtain ⟨⟨hrun, hphase⟩, heq⟩ := Option.ite_none_right_eq_some.1 h
    cases heq
    exact .unlocked f hrun hphase

/-! ## Who holds, who runs, who waits -/

structure Inv (shardOf : Fiber → Shard) (s : Reactors Shard Fiber) : Prop where
  holds : ∀ f, s.mutexes (shardOf f) = some f ↔ s.phase f = .inside
  owners : ∀ shard f, s.mutexes shard = some f → shardOf f = shard
  runs : ∀ shard f, s.running shard = some f → shardOf f = shard ∧ s.phase f ≠ .finished
  waits : ∀ f, s.phase f = .waiting → s.running (shardOf f) = some f

omit [DecidableEq Shard] [DecidableEq Fiber] in
theorem inv_start : Inv shardOf (start : Reactors Shard Fiber) :=
  ⟨fun _ => ⟨nofun, nofun⟩, nofun, nofun, nofun⟩

omit [DecidableEq Shard] [DecidableEq Fiber] in
/-- A fiber moves only on a thread that no other fiber has. -/
theorem shard_ne_of_running {s : Reactors Shard Fiber} {f g : Fiber}
    (hturn : s.running (shardOf f) = none ∨ s.running (shardOf f) = some f) (hgf : g ≠ f)
    (hrun : s.running (shardOf g) = some g) : shardOf g ≠ shardOf f := by
  intro heq
  rw [heq] at hrun
  rcases hturn with h | h
  · rw [h] at hrun
    cases hrun
  · rw [h] at hrun
    exact hgf (Option.some.inj hrun).symm

/-- A move sets the phase of one fiber and touches one shard, so this is all there is to check. -/
theorem Inv.turn {s : Reactors Shard Fiber} {f : Fiber} {phase : Phase}
    {running mutex : Option Fiber} (hI : Inv shardOf s)
    (hturn : s.running (shardOf f) = none ∨ s.running (shardOf f) = some f)
    (hself : mutex = some f ↔ phase = .inside)
    (howner : ∀ g, mutex = some g → shardOf g = shardOf f)
    (hothers : ∀ g, g ≠ f → shardOf g = shardOf f → (mutex = some g ↔ s.phase g = .inside))
    (hruns : ∀ g, running = some g → g = f ∧ phase ≠ .finished)
    (hwaits : phase = .waiting → running = some f) :
    Inv shardOf (s.turn shardOf f phase running (Function.update s.mutexes (shardOf f) mutex)) := by
  unfold Reactors.turn
  refine ⟨fun g => ?_, fun shard g hg => ?_, fun shard g hg => ?_, fun g hg => ?_⟩
  · by_cases hgf : g = f
    · subst hgf
      simpa using hself
    · by_cases hshard : shardOf g = shardOf f
      · simpa [hgf, hshard] using hothers g hgf hshard
      · simpa [hgf, hshard] using hI.holds g
  · by_cases hshard : shard = shardOf f
    · subst hshard
      simp only [Function.update_self] at hg
      exact howner g hg
    · simp only [Function.update_of_ne hshard] at hg
      exact hI.owners shard g hg
  · by_cases hshard : shard = shardOf f
    · subst hshard
      simp only [Function.update_self] at hg
      obtain ⟨rfl, hphase⟩ := hruns g hg
      simpa using hphase
    · simp only [Function.update_of_ne hshard] at hg
      have hrun := hI.runs shard g hg
      have hgf : g ≠ f := by
        rintro rfl
        exact hshard hrun.1.symm
      simpa [hgf] using hrun
  · by_cases hgf : g = f
    · subst hgf
      simp only [Function.update_self] at hg
      simpa using hwaits hg
    · simp only [Function.update_of_ne hgf] at hg
      have hrun := hI.waits g hg
      simpa [shard_ne_of_running hturn hgf hrun] using hrun

/-- A move that leaves the mutex of its shard alone sets it to what it is. -/
theorem turn_keep {s : Reactors Shard Fiber} {f : Fiber} {phase : Phase} {running : Option Fiber} :
    s.turn shardOf f phase running s.mutexes =
      s.turn shardOf f phase running
        (Function.update s.mutexes (shardOf f) (s.mutexes (shardOf f))) := by
  rw [Function.update_eq_self]

theorem Inv.step {s s' : Reactors Shard Fiber} {move : Move Fiber} (hI : Inv shardOf s)
    (h : step shardOf s move = some s') : Inv shardOf s' := by
  have hsame : ∀ f g, g ≠ f → shardOf g = shardOf f →
      (s.mutexes (shardOf f) = some g ↔ s.phase g = .inside) := by
    intro f g _ hshard
    rw [← hshard]
    exact hI.holds g
  cases moved_of_step h with
  | resumed f hidle hphase =>
    rw [turn_keep]
    refine hI.turn (Or.inl hidle) (hI.holds f) (hI.owners _) (hsame f) ?_ fun _ => rfl
    rintro g ⟨⟩
    exact ⟨rfl, hphase⟩
  | entered f hrun hphase =>
    rw [turn_keep]
    refine hI.turn (Or.inr hrun) ?_ (hI.owners _) (hsame f) ?_ fun _ => rfl
    · rw [hI.holds f, hphase]
      simp
    · rintro g ⟨⟩
      exact ⟨rfl, by decide⟩
  | locked f hrun hphase hfree =>
    refine hI.turn (Or.inr hrun) (by simp) ?_ (fun g hgf hshard => ?_) ?_ nofun
    · rintro g ⟨⟩
      rfl
    · rw [← hsame f g hgf hshard, hfree]
      simp [Ne.symm hgf]
    · rintro g ⟨⟩
      exact ⟨rfl, by decide⟩
  | suspended f hrun hphase =>
    rw [turn_keep]
    refine hI.turn (Or.inr hrun) ?_ (hI.owners _) (hsame f) nofun nofun
    rw [hI.holds f, hphase]
  | unlocked f hrun hphase =>
    refine hI.turn (Or.inr hrun) (by simp) nofun (fun g hgf hshard => ?_) nofun nofun
    rw [← hsame f g hgf hshard, (hI.holds f).2 hphase]
    simp [Ne.symm hgf]

omit [DecidableEq Shard] [DecidableEq Fiber] in
theorem Inv.exclusive {s : Reactors Shard Fiber} (hI : Inv shardOf s) : Exclusive shardOf s := by
  intro f g hshard hf hg
  have hholdf := (hI.holds f).2 hf
  have hholdg := (hI.holds g).2 hg
  rw [hshard, hholdg] at hholdf
  exact (Option.some.inj hholdf).symm

omit [DecidableEq Shard] [DecidableEq Fiber] in
/-- The mutex of a shard is free while no fiber of the shard is inside. -/
theorem Inv.free_of_none_inside {s : Reactors Shard Fiber} (hI : Inv shardOf s) {shard : Shard}
    (h : ∀ f, shardOf f = shard → s.phase f ≠ .inside) : s.mutexes shard = none := by
  cases hheld : s.mutexes shard with
  | none => rfl
  | some f =>
    obtain rfl := hI.owners shard f hheld
    exact absurd ((hI.holds f).1 hheld) (h f rfl)

/-! ## A fiber that finds its mutex held -/

/-- Whoever waits will get the mutex. -/
def WaitsForFree (shardOf : Fiber → Shard) (s : Reactors Shard Fiber) : Prop :=
  ∀ f, s.phase f = .waiting → s.mutexes (shardOf f) = none

theorem WaitsForFree.turn {s : Reactors Shard Fiber} {f : Fiber} {phase : Phase}
    {running mutex : Option Fiber} (hW : WaitsForFree shardOf s) (hI : Inv shardOf s)
    (hturn : s.running (shardOf f) = none ∨ s.running (shardOf f) = some f)
    (hself : phase = .waiting → mutex = none) :
    WaitsForFree shardOf
      (s.turn shardOf f phase running (Function.update s.mutexes (shardOf f) mutex)) := by
  unfold Reactors.turn
  intro g hg
  by_cases hgf : g = f
  · subst hgf
    simp only [Function.update_self] at hg
    simpa using hself hg
  · simp only [Function.update_of_ne hgf] at hg
    simpa [shard_ne_of_running hturn hgf (hI.waits g hg)] using hW g hg

theorem WaitsForFree.step {s s' : Reactors Shard Fiber} {move : Move Fiber}
    (hW : WaitsForFree shardOf s) (hI : Inv shardOf s) (hmove : Unobstructed shardOf s move)
    (h : step shardOf s move = some s') : WaitsForFree shardOf s' := by
  cases moved_of_step h with
  | resumed f hidle hphase =>
    rw [turn_keep]
    exact hW.turn hI (Or.inl hidle) (hW f)
  | entered f hrun hphase =>
    rw [turn_keep]
    exact hW.turn hI (Or.inr hrun) fun _ => hI.free_of_none_inside (hmove hrun hphase)
  | locked f hrun hphase hfree => exact hW.turn hI (Or.inr hrun) nofun
  | suspended f hrun hphase =>
    rw [turn_keep]
    exact hW.turn hI (Or.inr hrun) nofun
  | unlocked f hrun hphase => exact hW.turn hI (Or.inr hrun) nofun

theorem Inv.not_stuck {s : Reactors Shard Fiber} (hI : Inv shardOf s)
    (hW : WaitsForFree shardOf s) (shard : Shard) : ¬ Stuck shardOf s shard := by
  rintro ⟨⟨f, hshard, hunfinished⟩, hnone⟩
  cases hrunning : s.running shard with
  | none =>
    have hresume := hnone (.resume f) hshard
    rw [Reactors.step, hshard, if_pos ⟨hrunning, hunfinished⟩] at hresume
    cases hresume
  | some g =>
    obtain ⟨rfl, hphase⟩ := hI.runs shard g hrunning
    cases hg : s.phase g with
    | start =>
      have hlock := hnone (.lock g) rfl
      rw [Reactors.step, if_pos ⟨hrunning, hg⟩] at hlock
      cases hlock
    | waiting =>
      have hlocked := hnone (.locked g) rfl
      rw [Reactors.step, if_pos ⟨hrunning, hg⟩, Mutexes.lock, hW g hg] at hlocked
      cases hlocked
    | inside =>
      have hunlock := hnone (.unlock g) rfl
      rw [Reactors.step, if_pos ⟨hrunning, hg⟩] at hunlock
      cases hunlock
    | finished => exact hphase hg

/-- The thread waits for a mutex that only a fiber of the same thread could unlock. -/
theorem stuck_of_waiting {s : Reactors Shard Fiber} {f g : Fiber} (hwaiting : s.phase f = .waiting)
    (hrun : s.running (shardOf f) = some f) (hheld : s.mutexes (shardOf f) = some g) :
    Stuck shardOf s (shardOf f) := by
  -- whoever has the thread is `f`
  have hphase : ∀ other, shardOf other = shardOf f → s.running (shardOf other) = some other →
      s.phase other = .waiting := by
    intro other hshard hother
    rw [hshard, hrun] at hother
    cases hother
    exact hwaiting
  refine ⟨⟨f, rfl, by rw [hwaiting]; decide⟩, fun move hshard => ?_⟩
  cases move with
  | resume other =>
    simp only [Move.fiber] at hshard
    simp [step, hshard, hrun]
  | lock other =>
    refine if_neg fun hcond => ?_
    have := hphase other hshard hcond.1
    simp [hcond.2] at this
  | locked other =>
    simp only [Move.fiber] at hshard
    simp [step, Mutexes.lock, hshard, hheld]
  | suspend other =>
    refine if_neg fun hcond => ?_
    have := hphase other hshard hcond.1
    simp [hcond.2] at this
  | unlock other =>
    refine if_neg fun hcond => ?_
    have := hphase other hshard hcond.1
    simp [hcond.2] at this

/-- The constructor, entered while the mutex is held. -/
theorem stuck_of_lock {s : Reactors Shard Fiber} {f g : Fiber} (hphase : s.phase f = .start)
    (hrun : s.running (shardOf f) = some f) (hheld : s.mutexes (shardOf f) = some g) :
    ∃ s', step shardOf s (.lock f) = some s' ∧ Stuck shardOf s' (shardOf f) := by
  refine ⟨_, if_pos ⟨hrun, hphase⟩, stuck_of_waiting (g := g) ?_ ?_ hheld⟩
  · simp [turn]
  · simp [turn]

/-- What the lock is for: at most one fiber of a shard inside, and every shard goes on. -/
def Works (shardOf : Fiber → Shard) (s : Reactors Shard Fiber) : Prop :=
  Exclusive shardOf s ∧ ∀ shard, ¬ Stuck shardOf s shard

theorem always_inv (moves : List (Move Fiber)) :
    Always (step shardOf) (Inv shardOf) start moves :=
  always_of_invariant (fun _ _ _ hI h => Inv.step hI h) inv_start

/-- **When `sharded_lock` blocks its own shard.** For any number of shards and fibers and every
schedule: the lock works in every state of the run exactly when no fiber comes to its constructor
while another fiber of the shard, suspended, is inside. -/
theorem works_iff (moves : List (Move Fiber)) :
    Always (step shardOf) (Works shardOf) start moves ↔
      Along (step shardOf) (Unobstructed shardOf) start moves := by
  constructor
  · intro h pre move post m hsplit hm
    cases move with
    | lock f =>
      intro hrun hphase g hshard hinside
      have hI := always_inv moves pre (.lock f :: post) m hsplit hm
      have hheld := (hI.holds g).2 hinside
      rw [hshard] at hheld
      obtain ⟨s', hs', hstuck⟩ := stuck_of_lock hphase hrun hheld
      have hworks := h (pre ++ [.lock f]) post s' (by rw [hsplit]; simp)
        (exec_snoc_some.2 ⟨m, hm, hs'⟩)
      exact hworks.2 _ hstuck
    | resume f => trivial
    | locked f => trivial
    | suspend f => trivial
    | unlock f => trivial
  · intro h
    have hboth : Always (step shardOf) (fun s => Inv shardOf s ∧ WaitsForFree shardOf s) start moves :=
      always_of_along (fun _ _ _ hI hmove hs => ⟨hI.1.step hs, hI.2.step hI.1 hmove hs⟩)
        ⟨inv_start, nofun⟩ h
    exact hboth.mono fun s hs => ⟨hs.1.exclusive, hs.1.not_stuck hs.2⟩

/-- One shard: fiber `false` suspends inside, fiber `true` comes to the constructor, and the thread
on which `false` would go on is waiting for it. -/
theorem not_always_works :
    ¬ ∀ (Shard Fiber : Type) [DecidableEq Shard] [DecidableEq Fiber] (shardOf : Fiber → Shard)
      (moves : List (Move Fiber)), Always (step shardOf) (Works shardOf) start moves := by
  intro h
  have hworks := (h Unit Bool (fun _ => ()) [.resume false, .lock false, .locked false,
    .suspend false, .resume true, .lock true]).last rfl
  refine hworks.2 () (stuck_of_waiting (f := true) (g := false) ?_ ?_ ?_)
  · decide
  · decide
  · decide

/-! ## How it lasts, and how it is avoided -/

/-- Whether a move is possible is seen on its fiber and on its shard. -/
theorem step_eq_none_congr {s s' : Reactors Shard Fiber} {move : Move Fiber}
    (hmutex : s'.mutexes (shardOf move.fiber) = s.mutexes (shardOf move.fiber))
    (hrun : s'.running (shardOf move.fiber) = s.running (shardOf move.fiber))
    (hphase : s'.phase move.fiber = s.phase move.fiber) :
    step shardOf s' move = none ↔ step shardOf s move = none := by
  cases move <;>
    simp only [Move.fiber] at hmutex hrun hphase <;>
    simp [step, Mutexes.lock_eq_none, hmutex, hrun, hphase]

/-- A move leaves the other shards and the other fibers as they are. -/
theorem step_frame {s s' : Reactors Shard Fiber} {move : Move Fiber}
    (h : step shardOf s move = some s') :
    (∀ shard, shard ≠ shardOf move.fiber →
      s'.mutexes shard = s.mutexes shard ∧ s'.running shard = s.running shard) ∧
    ∀ f, f ≠ move.fiber → s'.phase f = s.phase f := by
  cases moved_of_step h with
  | resumed f hidle hphase =>
    exact ⟨fun shard hne => ⟨rfl, Function.update_of_ne hne _ _⟩,
      fun g hne => Function.update_of_ne hne _ _⟩
  | entered f hrun hphase =>
    exact ⟨fun shard hne => ⟨rfl, Function.update_of_ne hne _ _⟩,
      fun g hne => Function.update_of_ne hne _ _⟩
  | locked f hrun hphase hfree =>
    exact ⟨fun shard hne => ⟨Function.update_of_ne hne _ _, Function.update_of_ne hne _ _⟩,
      fun g hne => Function.update_of_ne hne _ _⟩
  | suspended f hrun hphase =>
    exact ⟨fun shard hne => ⟨rfl, Function.update_of_ne hne _ _⟩,
      fun g hne => Function.update_of_ne hne _ _⟩
  | unlocked f hrun hphase =>
    exact ⟨fun shard hne => ⟨Function.update_of_ne hne _ _, Function.update_of_ne hne _ _⟩,
      fun g hne => Function.update_of_ne hne _ _⟩

theorem Stuck.step {s s' : Reactors Shard Fiber} {move : Move Fiber} {shard : Shard}
    (hS : Stuck shardOf s shard) (h : step shardOf s move = some s') : Stuck shardOf s' shard := by
  have hother : shardOf move.fiber ≠ shard := by
    intro heq
    rw [hS.2 move heq] at h
    cases h
  obtain ⟨hmutex, hrun⟩ := (step_frame h).1 shard (Ne.symm hother)
  have hphase : ∀ f, shardOf f = shard → s'.phase f = s.phase f := by
    intro f hf
    refine (step_frame h).2 f ?_
    rintro rfl
    exact hother hf
  obtain ⟨⟨f, hf, hunfinished⟩, hnone⟩ := hS
  refine ⟨⟨f, hf, by rw [hphase f hf]; exact hunfinished⟩, fun move' hmove' => ?_⟩
  refine (step_eq_none_congr ?_ ?_ (hphase _ hmove')).2 (hnone move' hmove')
  · rw [hmove', hmutex]
  · rw [hmove', hrun]

/-- A shard that is stuck stays stuck: nobody else can unlock its mutex. -/
theorem stuck_forever {s s' : Reactors Shard Fiber} {moves : List (Move Fiber)} {shard : Shard}
    (hS : Stuck shardOf s shard) (h : exec (step shardOf) s moves = some s') :
    Stuck shardOf s' shard :=
  exec_invariant (I := fun s => Stuck shardOf s shard) (fun _ _ _ hS hs => hS.step hs) hS h

/-- Who is inside has the thread. -/
def InsideRuns (shardOf : Fiber → Shard) (s : Reactors Shard Fiber) : Prop :=
  ∀ f, s.phase f = .inside → s.running (shardOf f) = some f

theorem InsideRuns.turn {s : Reactors Shard Fiber} {f : Fiber} {phase : Phase}
    {running : Option Fiber} {mutexes : Mutexes Shard Fiber} (hR : InsideRuns shardOf s)
    (hturn : s.running (shardOf f) = none ∨ s.running (shardOf f) = some f)
    (hself : phase = .inside → running = some f) :
    InsideRuns shardOf (s.turn shardOf f phase running mutexes) := by
  unfold Reactors.turn
  intro g hg
  by_cases hgf : g = f
  · subst hgf
    simp only [Function.update_self] at hg
    simpa using hself hg
  · simp only [Function.update_of_ne hgf] at hg
    have hrun := hR g hg
    simpa [shard_ne_of_running hturn hgf hrun] using hrun

theorem InsideRuns.step {s s' : Reactors Shard Fiber} {move : Move Fiber}
    (hR : InsideRuns shardOf s) (hmove : ∀ f, move ≠ .suspend f)
    (h : step shardOf s move = some s') : InsideRuns shardOf s' := by
  cases moved_of_step h with
  | resumed f hidle hphase => exact hR.turn (Or.inl hidle) fun _ => rfl
  | entered f hrun hphase => exact hR.turn (Or.inr hrun) nofun
  | locked f hrun hphase hfree => exact hR.turn (Or.inr hrun) fun _ => rfl
  | suspended f hrun hphase => exact absurd rfl (hmove f)
  | unlocked f hrun hphase => exact hR.turn (Or.inr hrun) nofun

/-- Sections in which nothing suspends are safe: the lock obstructs only what suspends in it. -/
theorem unobstructed_of_no_suspend {moves : List (Move Fiber)}
    (h : ∀ move ∈ moves, ∀ f, move ≠ .suspend f) :
    Along (step shardOf) (Unobstructed shardOf) start moves := by
  have hruns : Always (step shardOf) (InsideRuns shardOf) start moves :=
    always_of_along (fun _ _ _ hR hmove hs => InsideRuns.step hR hmove hs) nofun
      (along_of_forall_mem h)
  refine along_of_always hruns fun s move hR => ?_
  cases move with
  | lock f =>
    intro hrun hphase g hshard hinside
    have hrung := hR g hinside
    rw [hshard, hrun] at hrung
    cases hrung
    rw [hphase] at hinside
    cases hinside
  | resume f => trivial
  | locked f => trivial
  | suspend f => trivial
  | unlock f => trivial

end Reactors
end SeastarStarter
