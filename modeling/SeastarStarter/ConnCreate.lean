import Mathlib.Algebra.Order.BigOperators.Group.Finset
import SeastarStarter.ConnLog

/-!
# Creating CONN_LOG

`has_collection` and `create_collection` are two steps of each shard. A server that answers
every command correctly still lets `create_collection` throw when two shards have both found no
collection. A run of such a server is given by the order in which the shards move.
-/

namespace SeastarStarter

/-- A shard that knows that the collection exists. -/
def Pc.pastCheck : Pc → Prop
  | .testCleared | .deleteMany | .setCleared | .insertOne | .done => True
  | _ => False

namespace ConnInit

variable {N : Nat}

/-- `create_collection` is issued only while there is no collection. -/
def CreatesAbsent (s : ConnInit N) (a : Act N) : Prop :=
  ∀ i, a = .run i → s.pc i = .createCollection → s.connLog = none

/-- A shard that finds no collection finds no other shard about to create it. -/
def ChecksAlone (s : ConnInit N) (a : Act N) : Prop :=
  ∀ i, a = .run i → s.pc i = .hasCollection → s.connLog = none → ∀ j, s.pc j ≠ .createCollection

/-- One shard at most is about to create the collection, and while it is, there is none. -/
structure Orderly (s : ConnInit N) : Prop where
  noneFailed : ∀ i, s.pc i ≠ .failed
  creates : ∀ i, s.pc i = .createCollection →
    s.connLog = none ∧ ∀ j, s.pc j = .createCollection → j = i
  exists_ : ∀ i, (s.pc i).pastCheck → s.connLog.isSome

theorem orderly_start (earlier : Option (List String)) : Orderly (start earlier : ConnInit N) :=
  ⟨nofun, nofun, nofun⟩

/-- A shard goes on past the check, and the collection is there. -/
theorem Orderly.advance {s s' : ConnInit N} (h : Orderly s) {i : Fin N} {pc : Pc}
    (hs' : s'.pc = Function.update s.pc i pc) (hpc : pc.pastCheck)
    (hother : ∀ j, j ≠ i → s.pc j ≠ .createCollection) (hlog : s'.connLog.isSome) : Orderly s' := by
  have hne : ∀ j, s'.pc j ≠ .createCollection := by
    intro j
    rw [hs']
    by_cases hj : j = i
    · subst hj
      rw [Function.update_self]
      rintro rfl
      exact hpc
    · rw [Function.update_of_ne hj]
      exact hother j hj
  refine ⟨fun j => ?_, fun j hj => absurd hj (hne j), fun _ _ => hlog⟩
  rw [hs']
  by_cases hj : j = i
  · subst hj
    rw [Function.update_self]
    rintro rfl
    exact hpc
  · rw [Function.update_of_ne hj]
    exact h.noneFailed j

theorem Orderly.none_creating {s : ConnInit N} (h : Orderly s) (hlog : s.connLog.isSome)
    (j : Fin N) : s.pc j ≠ .createCollection := by
  intro hj
  rw [(h.creates j hj).1] at hlog
  cases hlog

theorem Orderly.step {s s' : ConnInit N} {i : Fin N} (h : Orderly s)
    (halone : ChecksAlone s (.run i)) (hstep : step s (.run i) = some s') : Orderly s' := by
  cases step_move hstep with
  | sawNone _ hpc hlog =>
    have hnone := halone i rfl hpc hlog
    have hupdate : ∀ {j}, j ≠ i → (s.goto i .createCollection).pc j = s.pc j := fun hj => by simp [hj]
    have honly : ∀ j, (s.goto i .createCollection).pc j = .createCollection → j = i := by
      intro j hj
      by_contra hne
      exact hnone j (hupdate hne ▸ hj)
    refine ⟨fun j => ?_, fun j hj => ⟨hlog, fun k hk => ?_⟩, fun j hj => ?_⟩
    · by_cases hj : j = i
      · subst hj
        simp
      · rw [hupdate hj]
        exact h.noneFailed j
    · rw [honly j hj, honly k hk]
    · by_cases hji : j = i
      · subst hji
        rw [goto_pc, Function.update_self] at hj
        exact hj.elim
      · rw [hupdate hji] at hj
        exact h.exists_ j hj
  | sawSome _ hpc hlog => exact h.advance rfl trivial (fun j _ => h.none_creating hlog j) hlog
  | created _ hpc hlog =>
    exact h.advance rfl trivial (fun j hj hcreating => hj ((h.creates i hpc).2 j hcreating)) rfl
  | alreadyThere _ hpc hlog => exact absurd hpc (h.none_creating hlog i)
  | sawCleared _ hpc =>
    have hlog := h.exists_ i (by rw [hpc]; trivial)
    exact h.advance rfl trivial (fun j _ => h.none_creating hlog j) hlog
  | sawNotCleared _ hpc =>
    have hlog := h.exists_ i (by rw [hpc]; trivial)
    exact h.advance rfl trivial (fun j _ => h.none_creating hlog j) hlog
  | deleted _ hpc =>
    have hlog := h.exists_ i (by rw [hpc]; trivial)
    exact h.advance rfl trivial (fun j _ => h.none_creating hlog j) (by simpa using hlog)
  | flagged _ hpc =>
    have hlog := h.exists_ i (by rw [hpc]; trivial)
    exact h.advance rfl trivial (fun j _ => h.none_creating hlog j) hlog
  | inserted _ hpc =>
    have hlog := h.exists_ i (by rw [hpc]; trivial)
    exact h.advance rfl trivial (fun j _ => h.none_creating hlog j) rfl

/-- Some `create_collection` has met, or is going to meet, a collection. -/
def Doomed (s : ConnInit N) : Prop :=
  (∃ i, s.pc i = .failed) ∨ (∃ i, s.pc i = .createCollection ∧ s.connLog.isSome) ∨
    ∃ i j, i ≠ j ∧ s.pc i = .createCollection ∧ s.pc j = .createCollection

theorem Doomed.step {s s' : ConnInit N} {k : Fin N} (h : Doomed s)
    (hstep : step s (.run k) = some s') : Doomed s' := by
  -- a shard other than `k` keeps its statement
  have hkeep : ∀ {pc i}, i ≠ k → (s.goto k pc).pc i = s.pc i := fun hi => by simp [hi]
  -- a step that does not end a creation keeps what dooms the run
  have hother : ∀ {pc} {log : Option (List LogRecord)} {cleared},
      s.pc k ≠ .createCollection → s.pc k ≠ .failed → (s.connLog.isSome → log.isSome) →
      Doomed { s.goto k pc with connLog := log, cleared := cleared } := by
    intro pc log cleared hcreate hfailed hlog
    rcases h with ⟨i, hi⟩ | ⟨i, hi, hsome⟩ | ⟨i, j, hij, hi, hj⟩
    · have hik : i ≠ k := by rintro rfl; exact hfailed hi
      exact Or.inl ⟨i, (hkeep hik).trans hi⟩
    · have hik : i ≠ k := by rintro rfl; exact hcreate hi
      exact Or.inr (Or.inl ⟨i, (hkeep hik).trans hi, hlog hsome⟩)
    · have hik : i ≠ k := by rintro rfl; exact hcreate hi
      have hjk : j ≠ k := by rintro rfl; exact hcreate hj
      exact Or.inr (Or.inr ⟨i, j, hij, (hkeep hik).trans hi, (hkeep hjk).trans hj⟩)
  cases step_move hstep with
  | sawNone _ hpc => exact hother (by simp [hpc]) (by simp [hpc]) id
  | sawSome _ hpc => exact hother (by simp [hpc]) (by simp [hpc]) id
  | sawCleared _ hpc => exact hother (by simp [hpc]) (by simp [hpc]) id
  | sawNotCleared _ hpc => exact hother (by simp [hpc]) (by simp [hpc]) id
  | deleted _ hpc => exact hother (by simp [hpc]) (by simp [hpc]) (by simp)
  | flagged _ hpc => exact hother (by simp [hpc]) (by simp [hpc]) id
  | inserted _ hpc => exact hother (by simp [hpc]) (by simp [hpc]) fun _ => rfl
  | alreadyThere _ hpc hlog => exact Or.inl ⟨k, by simp⟩
  | created _ hpc hlog =>
    rcases h with ⟨i, hi⟩ | ⟨i, hi, hsome⟩ | ⟨i, j, hij, hi, hj⟩
    · have hik : i ≠ k := by rintro rfl; rw [hpc] at hi; cases hi
      exact Or.inl ⟨i, (hkeep hik).trans hi⟩
    · rw [hlog] at hsome
      cases hsome
    · -- of the two shards about to create it, one is left
      by_cases hik : i = k
      · have hjk : j ≠ k := by rintro rfl; exact hij hik
        exact Or.inr (Or.inl ⟨j, (hkeep hjk).trans hj, rfl⟩)
      · exact Or.inr (Or.inl ⟨i, (hkeep hik).trans hi, rfl⟩)

/-- A shard that checks beside one that is about to create the collection dooms the run. -/
theorem doomed_of_not_alone {s s' : ConnInit N} {a : Act N} (h : ¬ ChecksAlone s a)
    (hstep : step s a = some s') : Doomed s' := by
  unfold ChecksAlone at h
  push Not at h
  obtain ⟨i, rfl, hpc, hlog, j, hj⟩ := h
  have hs' : s' = s.goto i .createCollection := by
    simpa [ConnInit.step, hpc, hlog] using hstep.symm
  have hij : i ≠ j := by rintro rfl; rw [hpc] at hj; cases hj
  subst hs'
  exact Or.inr (Or.inr ⟨i, j, hij, by simp, by simp [hij.symm, hj]⟩)

/-! ## How long a run is -/

/-- How many statements a shard has before it, at most. -/
def Pc.left : Pc → Nat
  | .hasCollection => 5
  | .testCleared => 4
  | .deleteMany => 3
  | .createCollection | .setCleared => 2
  | .insertOne => 1
  | .done | .failed => 0

def left (s : ConnInit N) : Nat := ∑ i, Pc.left (s.pc i)

theorem left_goto {s : ConnInit N} {i : Fin N} {pc : Pc} (h : Pc.left pc < Pc.left (s.pc i)) :
    (s.goto i pc).left < s.left := by
  unfold left
  refine Finset.sum_lt_sum (fun j _ => ?_) ⟨i, Finset.mem_univ i, by simpa using h⟩
  by_cases hj : j = i
  · subst hj
    simpa using h.le
  · simp [hj]

theorem left_step {s s' : ConnInit N} {a : Act N} (hstep : step s a = some s') :
    s'.left < s.left := by
  cases step_move hstep with
  | threw i hdone hfailed =>
    refine left_goto ?_
    cases hpc : s.pc i <;> simp_all [Pc.left]
  | sawNone i hpc => exact left_goto (by rw [hpc]; decide)
  | sawSome i hpc => exact left_goto (by rw [hpc]; decide)
  | alreadyThere i hpc => exact left_goto (by rw [hpc]; decide)
  | sawCleared i hpc => exact left_goto (by rw [hpc]; decide)
  | sawNotCleared i hpc => exact left_goto (by rw [hpc]; decide)
  | created i hpc => exact left_goto (by rw [hpc]; decide)
  | deleted i hpc => exact left_goto (by rw [hpc]; decide)
  | flagged i hpc => exact left_goto (by rw [hpc]; decide)
  | inserted i hpc => exact left_goto (by rw [hpc]; decide)

theorem left_start (earlier : Option (List String)) : (start earlier : ConnInit N).left = 5 * N := by
  show ∑ _i : Fin N, 5 = 5 * N
  simp [Nat.mul_comm]

/-! ## What happens to a first start -/

/-- The run in which the shards move in this order, and the server answers correctly. -/
def correctRun (order : List (Fin N)) : List (Act N) := order.map .run

theorem along_correctRun (s : ConnInit N) (order : List (Fin N)) :
    Lts.Along step (fun _ a => ∃ i, a = .run i) s (correctRun order) := by
  refine Lts.along_of_forall_mem fun a ha => ?_
  obtain ⟨i, -, hi⟩ := List.mem_map.1 ha
  exact ⟨i, hi.symm⟩

section
variable {earlier : Option (List String)} {order : List (Fin N)}

theorem always_orderly (halone : Lts.Along step ChecksAlone (start earlier) (correctRun order)) :
    Lts.Always step Orderly (start earlier) (correctRun order) := by
  refine Lts.always_of_along ?_ (orderly_start earlier) (halone.and (along_correctRun _ order))
  rintro s _ s' h ⟨hs, i, rfl⟩ hstep
  exact h.step hs hstep

/-- Once two shards are about to create the collection, one fails. -/
theorem doomed_of_not_along {s : ConnInit N}
    (hrun : Lts.exec step (start earlier) (correctRun order) = some s)
    (hnot : ¬ Lts.Along step ChecksAlone (start earlier) (correctRun order)) : Doomed s := by
  unfold Lts.Along at hnot
  push Not at hnot
  obtain ⟨pre, a, post, m, heq, hpre, hm⟩ := hnot
  have hlabels := along_correctRun (start earlier) order
  rw [heq] at hrun hlabels
  obtain ⟨m₁, hm₁, hrest⟩ := Lts.exec_append_some.1 hrun
  obtain rfl := Option.some.inj (hpre.symm.trans hm₁)
  obtain ⟨m₂, hm₂, hrest⟩ := Lts.exec_cons_some.1 hrest
  have hafter : Lts.Along step (fun _ a => ∃ i, a = .run i) m₂ post := by
    refine Lts.along_of_forall_mem fun b hb => ?_
    obtain ⟨i, -, hi⟩ := List.mem_map.1 (heq ▸ by simp [hb] : b ∈ correctRun order)
    exact ⟨i, hi.symm⟩
  refine Lts.exec_along ?_ (doomed_of_not_alone hm hm₂) hafter hrest
  rintro s _ s' h ⟨i, rfl⟩ hstep
  exact h.step hstep

/-- A shard that cannot move is at an end. -/
theorem ended_of_stuck {s : ConnInit N} {i : Fin N} (h : step s (.run i) = none) :
    s.pc i = .done ∨ s.pc i = .failed := by
  unfold step at h
  dsimp only at h
  split at h
  · cases h
  · split at h <;> cases h
  · cases h
  · cases h
  · cases h
  · cases h
  · next hpc => exact Or.inl hpc
  · next hpc => exact Or.inr hpc

theorem safe_of_alone (halone : Lts.Along step ChecksAlone (start earlier) (correctRun order)) :
    Lts.Along step CreatesAbsent (start earlier) (correctRun order) ∧
      Lts.Always step (fun s => ∀ i, s.pc i ≠ .failed) (start earlier) (correctRun order) := by
  have horderly := always_orderly halone
  exact ⟨Lts.along_of_always horderly fun s a h i _ hi => (h.creates i hi).1,
    horderly.mono fun s h => h.noneFailed⟩

/-- At the end of a run no shard has failed exactly when each checked alone. -/
theorem all_done_iff {s : ConnInit N}
    (hrun : Lts.exec step (start earlier) (correctRun order) = some s)
    (hstuck : ∀ i, step s (.run i) = none) :
    (∀ i, s.pc i = .done) ↔ Lts.Along step ChecksAlone (start earlier) (correctRun order) := by
  constructor
  · intro hdone
    by_contra hnot
    rcases doomed_of_not_along hrun hnot with ⟨i, hi⟩ | ⟨i, hi, -⟩ | ⟨i, j, -, hi, -⟩
    all_goals
      rw [hdone i] at hi
      cases hi
  · intro halone i
    exact (ended_of_stuck (hstuck i)).resolve_right ((safe_of_alone halone).2.last hrun i)

theorem length_le_of_run {s : ConnInit N}
    (hrun : Lts.exec step (start earlier) (correctRun order) = some s) : order.length ≤ 5 * N := by
  have hlen := Lts.exec_potential left (fun _ _ _ => left_step) hrun
  rw [left_start, correctRun, List.length_map] at hlen
  omega

/-- **Creating CONN_LOG.** As long as no shard finds the collection absent beside one that is
about to create it, no `create_collection` meets a collection and no shard fails. Every run of a
correct server ends, and at the end of one all shards are done, with no `create_collection` on a
collection, exactly when no shard found the collection absent in this way. -/
theorem correct_run_iff (earlier : Option (List String)) (order : List (Fin N)) :
    (Lts.Along step ChecksAlone (start earlier) (correctRun order) →
      Lts.Along step CreatesAbsent (start earlier) (correctRun order) ∧
        Lts.Always step (fun s => ∀ i, s.pc i ≠ .failed) (start earlier) (correctRun order)) ∧
    ∀ s, Lts.exec step (start earlier) (correctRun order) = some s →
      order.length ≤ 5 * N ∧ ((∀ i, step s (.run i) = none) →
        ((Lts.Along step CreatesAbsent (start earlier) (correctRun order) ∧
            ∀ i, s.pc i = .done) ↔
          Lts.Along step ChecksAlone (start earlier) (correctRun order))) := by
  refine ⟨safe_of_alone, fun s hrun => ⟨length_le_of_run hrun, fun hstuck => ?_⟩⟩
  rw [all_done_iff hrun hstuck]
  constructor
  · rintro ⟨-, halone⟩
    exact halone
  · intro halone
    exact ⟨(safe_of_alone halone).1, halone⟩

end

/-- On a first start, two shards may both find no collection. -/
theorem not_always_creates_absent :
    ¬ ∀ N, 0 < N → ∀ (earlier : Option (List String)) (order : List (Fin N)),
      Lts.Along step CreatesAbsent (start earlier) (correctRun order) := by
  intro h
  have halong := h 2 (by decide) none [0, 1, 0, 1]
  have hlog := halong (correctRun [0, 1, 0]) (.run 1) [] _ rfl rfl 1 rfl rfl
  cases hlog

end ConnInit
end SeastarStarter
