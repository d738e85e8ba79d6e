import Mathlib.Logic.Function.Basic
import SeastarStarter.Lib.Lts

/-!
# The CONN_LOG step of `DBClients::Init` (INCLUDE/DB/DBClients.h:88-113)

`clients.invoke_on_all` runs the same lambda on `N` shards. A shard's `Pc` is the statement it
comes to next, and each of these statements is one step; `step` interleaves the shards in any
order. The collection and the flag `static bool cleared` are shared.

| here | DBClients.h |
|---|---|
| `hasCollection`, `createCollection` | `has_collection`, `create_collection` (92-95) |
| `testCleared`, `deleteMany`, `setCleared` | `if (!cleared && coll) { ... }` (99-104) |
| `insertOne` | `insert_one` (112) |

`coll` is never null there, so the test for it is left out.
-/

namespace SeastarStarter

/-- The next statement of a shard. `failed`: a command threw. -/
inductive Pc where
  | hasCollection | createCollection | testCleared | deleteMany | setCleared | insertOne
  | done | failed
deriving DecidableEq

/-- Where the shards stand as long as a collection that was there is as it was found. -/
def Pc.early : Pc → Prop
  | .hasCollection | .testCleared | .deleteMany | .failed => True
  | _ => False

/-- A document of CONN_LOG. The run that inserted it shows in its `_id`. -/
structure LogRecord where
  thisRun : Bool
  shardId : String
deriving DecidableEq

structure ConnInit (N : Nat) where
  /-- CONN_INIT.CONN_LOG, when it exists. -/
  connLog : Option (List LogRecord)
  cleared : Bool
  pc : Fin N → Pc

namespace ConnInit

variable {N : Nat}

/-- `make_document(kvp("SHARD_ID", to_string(this_shard_id())))` -/
def shardRecord (i : Fin N) : LogRecord := ⟨true, toString i.val⟩

/-- Before the first step: the collection is absent, or holds what earlier runs left. -/
def start (earlier : Option (List String)) : ConnInit N where
  connLog := earlier.map (·.map fun shardId => ⟨false, shardId⟩)
  cleared := false
  pc := fun _ => .hasCollection

/-- Shard `i` comes to another statement. -/
def goto (s : ConnInit N) (i : Fin N) (pc : Pc) : ConnInit N :=
  { s with pc := Function.update s.pc i pc }

inductive Act (N : Nat) where
  /-- Shard `i` performs its next statement; the server answers correctly. -/
  | run (i : Fin N)
  /-- The command that shard `i` issues next throws. -/
  | error (i : Fin N)

def step (s : ConnInit N) : Act N → Option (ConnInit N)
  | .run i =>
    match s.pc i with
    | .hasCollection => some (s.goto i (if s.connLog.isSome then .testCleared else .createCollection))
    | .createCollection =>
      match s.connLog with
      | none => some { s.goto i .insertOne with connLog := some [] }
      | some _ => some (s.goto i .failed)
    | .testCleared => some (s.goto i (if s.cleared then .insertOne else .deleteMany))
    | .deleteMany => some { s.goto i .setCleared with connLog := s.connLog.map fun _ => [] }
    | .setCleared => some { s.goto i .insertOne with cleared := true }
    | .insertOne =>
      some { s.goto i .done with connLog := some (s.connLog.getD [] ++ [shardRecord i]) }
    | .done | .failed => none
  | .error i =>
    match s.pc i with
    | .hasCollection | .createCollection | .deleteMany | .insertOne => some (s.goto i .failed)
    | _ => none

/-! ## What a step can do -/

/-- The steps, one by one. -/
inductive Move (s : ConnInit N) : Act N → ConnInit N → Prop where
  | sawNone (i : Fin N) (hpc : s.pc i = .hasCollection) (hlog : s.connLog = none) :
    Move s (.run i) (s.goto i .createCollection)
  | sawSome (i : Fin N) (hpc : s.pc i = .hasCollection) (hlog : s.connLog.isSome) :
    Move s (.run i) (s.goto i .testCleared)
  | created (i : Fin N) (hpc : s.pc i = .createCollection) (hlog : s.connLog = none) :
    Move s (.run i) { s.goto i .insertOne with connLog := some [] }
  | alreadyThere (i : Fin N) (hpc : s.pc i = .createCollection) (hlog : s.connLog.isSome) :
    Move s (.run i) (s.goto i .failed)
  | sawCleared (i : Fin N) (hpc : s.pc i = .testCleared) (hcleared : s.cleared = true) :
    Move s (.run i) (s.goto i .insertOne)
  | sawNotCleared (i : Fin N) (hpc : s.pc i = .testCleared) (hcleared : s.cleared = false) :
    Move s (.run i) (s.goto i .deleteMany)
  | deleted (i : Fin N) (hpc : s.pc i = .deleteMany) :
    Move s (.run i) { s.goto i .setCleared with connLog := s.connLog.map fun _ => [] }
  | flagged (i : Fin N) (hpc : s.pc i = .setCleared) :
    Move s (.run i) { s.goto i .insertOne with cleared := true }
  | inserted (i : Fin N) (hpc : s.pc i = .insertOne) :
    Move s (.run i)
      { s.goto i .done with connLog := some (s.connLog.getD [] ++ [shardRecord i]) }
  | threw (i : Fin N) (hdone : s.pc i ≠ .done) (hfailed : s.pc i ≠ .failed) :
    Move s (.error i) (s.goto i .failed)

theorem step_move {s s' : ConnInit N} {a : Act N} (h : step s a = some s') : Move s a s' := by
  cases a with
  | run i =>
    unfold step at h
    dsimp only at h
    split at h
    · next hpc =>
      obtain rfl := Option.some.inj h
      split_ifs with hlog
      · exact .sawSome i hpc hlog
      · exact .sawNone i hpc (Option.not_isSome_iff_eq_none.1 hlog)
    · next hpc =>
      split at h
      · next hlog => obtain rfl := Option.some.inj h; exact .created i hpc hlog
      · next log hlog =>
        obtain rfl := Option.some.inj h
        exact .alreadyThere i hpc (by rw [hlog]; rfl)
    · next hpc =>
      obtain rfl := Option.some.inj h
      split_ifs with hcleared
      · exact .sawCleared i hpc hcleared
      · exact .sawNotCleared i hpc (Bool.eq_false_iff.2 hcleared)
    · next hpc => obtain rfl := Option.some.inj h; exact .deleted i hpc
    · next hpc => obtain rfl := Option.some.inj h; exact .flagged i hpc
    · next hpc => obtain rfl := Option.some.inj h; exact .inserted i hpc
    · cases h
    · cases h
  | error i =>
    unfold step at h
    dsimp only at h
    split at h
    all_goals first
      | (obtain rfl := Option.some.inj h; exact .threw i (by simp [*]) (by simp [*]))
      | cases h

@[simp] theorem goto_pc (s : ConnInit N) (i : Fin N) (pc : Pc) :
    (s.goto i pc).pc = Function.update s.pc i pc := rfl

@[simp] theorem goto_connLog (s : ConnInit N) (i : Fin N) (pc : Pc) :
    (s.goto i pc).connLog = s.connLog := rfl

theorem shardRecord_injective {i j : Fin N} (h : shardRecord i = shardRecord j) : i = j := by
  have hid : toString i.val = toString j.val := congrArg LogRecord.shardId h
  rw [Nat.toString_eq_ofList_toDigits, Nat.toString_eq_ofList_toDigits, String.ofList_inj] at hid
  have hval := congrArg (Nat.ofDigitChars 10 · 0) hid
  simp only [Nat.ofDigitChars_ten_toDigits] at hval
  exact Fin.ext hval

/-- A shard that goes on to a statement other than the end changes nothing about who is done. -/
theorem done_goto {s : ConnInit N} {i : Fin N} {pc : Pc} (hi : s.pc i ≠ .done) (hpc : pc ≠ .done)
    (j : Fin N) : (s.goto i pc).pc j = .done ↔ s.pc j = .done := by
  by_cases hj : j = i
  · subst hj
    simp [hi, hpc]
  · simp [hj]

/-! ## The records of the run -/

/-- One record for each shard of this run, and no other. -/
def Exact (s : ConnInit N) : Prop :=
  ∃ log, s.connLog = some log ∧ (∀ i : Fin N, log.count (shardRecord i) = 1) ∧
    ∀ r ∈ log, ∃ i : Fin N, r = shardRecord i

/-- A `delete_many` comes while no shard has inserted its record. -/
def ClearsNoInsert (s : ConnInit N) (a : Act N) : Prop :=
  ∀ i, a = .run i → s.pc i = .deleteMany → ∀ j, s.pc j ≠ .done

/-- The records of exactly the shards that are done are there. -/
def Held (s : ConnInit N) : Prop :=
  ∀ i : Fin N, (s.connLog.getD []).count (shardRecord i) = if s.pc i = .done then 1 else 0

theorem held_start (earlier : Option (List String)) : Held (start earlier : ConnInit N) := by
  intro i
  have hpc : ¬ (start earlier : ConnInit N).pc i = .done := nofun
  rw [if_neg hpc]
  apply List.count_eq_zero_of_not_mem
  cases earlier with
  | none => simp [start]
  | some ids => simp [start, shardRecord]

theorem Held.goto {s : ConnInit N} (h : Held s) {i : Fin N} {pc : Pc} (hi : s.pc i ≠ .done)
    (hpc : pc ≠ .done) : Held (s.goto i pc) := by
  intro j
  simp only [done_goto hi hpc]
  exact h j

theorem Held.step {s s' : ConnInit N} {a : Act N} (h : Held s) (hkeep : ClearsNoInsert s a)
    (hstep : step s a = some s') : Held s' := by
  cases step_move hstep with
  | sawNone i hpc => exact h.goto (by simp [hpc]) (by decide)
  | sawSome i hpc => exact h.goto (by simp [hpc]) (by decide)
  | alreadyThere i hpc => exact h.goto (by simp [hpc]) (by decide)
  | sawCleared i hpc => exact h.goto (by simp [hpc]) (by decide)
  | sawNotCleared i hpc => exact h.goto (by simp [hpc]) (by decide)
  | flagged i hpc => exact h.goto (by simp [hpc]) (by decide)
  | threw i hdone => exact h.goto hdone (by decide)
  | created i hpc hlog =>
    -- the new collection is as empty as the absent one was
    have hgoto : Held (s.goto i .insertOne) := h.goto (by simp [hpc]) (by decide)
    intro j
    have hj := hgoto j
    rw [goto_connLog, hlog] at hj
    exact hj
  | deleted i hpc =>
    intro j
    have hj : s.pc j ≠ .done := hkeep i rfl hpc j
    have hj' : ¬ (s.goto i .setCleared).pc j = .done := by
      rwa [done_goto (by simp [hpc]) (by decide)]
    show (((s.connLog.map fun _ => []).getD [] : List LogRecord).count (shardRecord j)) =
      if (s.goto i .setCleared).pc j = .done then 1 else 0
    rw [if_neg hj']
    cases s.connLog <;> rfl
  | inserted i hpc =>
    intro j
    show ((s.connLog.getD [] ++ [shardRecord i]).count (shardRecord j)) =
      if (s.goto i .done).pc j = .done then 1 else 0
    rw [List.count_append, h j]
    by_cases hj : j = i
    · subst hj
      simp [hpc]
    · have hne : shardRecord i ≠ shardRecord j := fun he => hj (shardRecord_injective he).symm
      simp [hj, hne]

/-- The record of shard `j` was inserted and is gone. -/
def Lost (j : Fin N) (s : ConnInit N) : Prop :=
  s.pc j = .done ∧ (s.connLog.getD []).count (shardRecord j) = 0

theorem Lost.step {j : Fin N} {s s' : ConnInit N} {a : Act N} (h : Lost j s)
    (hstep : step s a = some s') : Lost j s' := by
  obtain ⟨hdone, hcount⟩ := h
  have hmoved : ∀ {i} pc, s.pc i ≠ .done → Lost j (s.goto i pc) := by
    intro i pc hi
    have hne : j ≠ i := fun he => hi (he ▸ hdone)
    exact ⟨by simp [hne, hdone], hcount⟩
  cases step_move hstep with
  | sawNone i hpc => exact hmoved _ (by simp [hpc])
  | sawSome i hpc => exact hmoved _ (by simp [hpc])
  | alreadyThere i hpc => exact hmoved _ (by simp [hpc])
  | sawCleared i hpc => exact hmoved _ (by simp [hpc])
  | sawNotCleared i hpc => exact hmoved _ (by simp [hpc])
  | flagged i hpc => exact hmoved _ (by simp [hpc])
  | threw i hi => exact hmoved _ hi
  | created i hpc => exact ⟨(hmoved .insertOne (by simp [hpc])).1, rfl⟩
  | deleted i hpc =>
    refine ⟨(hmoved .setCleared (by simp [hpc])).1, ?_⟩
    show ((s.connLog.map fun _ => []).getD [] : List LogRecord).count (shardRecord j) = 0
    cases s.connLog <;> rfl
  | inserted i hpc =>
    have hne : j ≠ i := fun he => by rw [← he, hdone] at hpc; cases hpc
    refine ⟨(hmoved .done (by simp [hpc])).1, ?_⟩
    show (s.connLog.getD [] ++ [shardRecord i]).count (shardRecord j) = 0
    have hne' : shardRecord i ≠ shardRecord j := fun he => hne (shardRecord_injective he).symm
    simp [hcount, hne']

/-- Either the collection holds records of this run only, or it is still as it was found. -/
def EarlierGone (s : ConnInit N) : Prop :=
  (∀ r ∈ s.connLog.getD [], ∃ i : Fin N, r = shardRecord i) ∨
    (s.connLog.isSome ∧ s.cleared = false ∧ ∀ i, (s.pc i).early)

theorem earlierGone_start (earlier : Option (List String)) :
    EarlierGone (start earlier : ConnInit N) := by
  cases earlier with
  | none => exact Or.inl (by simp [start])
  | some ids => exact Or.inr ⟨rfl, rfl, fun _ => trivial⟩

theorem EarlierGone.goto {s : ConnInit N} (h : EarlierGone s) {i : Fin N} {pc : Pc}
    (hpc : pc.early ∨ ¬ (s.pc i).early) : EarlierGone (s.goto i pc) := by
  rcases h with h | ⟨hlog, hcleared, h⟩
  · exact Or.inl h
  · refine Or.inr ⟨hlog, hcleared, fun j => ?_⟩
    by_cases hj : j = i
    · subst hj
      rw [goto_pc, Function.update_self]
      exact hpc.resolve_right (not_not.2 (h j))
    · rw [goto_pc, Function.update_of_ne hj]
      exact h j

theorem EarlierGone.step {s s' : ConnInit N} {a : Act N} (h : EarlierGone s)
    (hstep : step s a = some s') : EarlierGone s' := by
  cases step_move hstep with
  | sawSome i hpc => exact h.goto (Or.inl trivial)
  | sawNotCleared i hpc => exact h.goto (Or.inl trivial)
  | alreadyThere i hpc => exact h.goto (Or.inl trivial)
  | threw i => exact h.goto (Or.inl trivial)
  | created i hpc hlog => exact Or.inl (by simp)
  | deleted i hpc =>
    refine Or.inl ?_
    show ∀ r ∈ (s.connLog.map fun _ => []).getD [], _
    cases s.connLog <;> simp
  | sawNone i hpc hlog =>
    refine Or.inl ?_
    simp [hlog]
  | sawCleared i hpc hcleared =>
    rcases h with h | ⟨-, hnot, -⟩
    · exact Or.inl h
    · rw [hcleared] at hnot
      cases hnot
  | flagged i hpc =>
    rcases h with h | ⟨-, -, hearly⟩
    · exact Or.inl h
    · exact absurd (hearly i) (by rw [hpc]; exact id)
  | inserted i hpc =>
    rcases h with h | ⟨-, -, hearly⟩
    · refine Or.inl fun r hr => ?_
      rcases List.mem_append.1 hr with hr | hr
      · exact h r hr
      · exact ⟨i, List.mem_singleton.1 hr⟩
    · exact absurd (hearly i) (by rw [hpc]; exact id)

/-- **When CONN_LOG is exact.** In every run in which all shards finish, CONN_LOG ends up with one
record for each of them and no other exactly when no `delete_many` came after an insertion. -/
theorem exact_iff (hN : 0 < N) (earlier : Option (List String)) {as : List (Act N)}
    {s : ConnInit N} (hrun : Lts.exec step (start earlier) as = some s)
    (hdone : ∀ i, s.pc i = .done) :
    Exact s ↔ Lts.Along step ClearsNoInsert (start earlier) as := by
  constructor
  · rintro ⟨log, hlog, hone, -⟩ pre a post m heq hpre i rfl hpc j hj
    rw [heq] at hrun
    obtain ⟨m', hm', hrest⟩ := Lts.exec_append_some.1 hrun
    obtain rfl := Option.some.inj (hpre.symm.trans hm')
    obtain ⟨m', hm', hrest⟩ := Lts.exec_cons_some.1 hrest
    have hlost : Lost j m' := by
      have hm : m' = { m.goto i .setCleared with connLog := m.connLog.map fun _ => [] } := by
        simpa [step, hpc] using hm'.symm
      have hne : j ≠ i := fun he => by rw [← he, hj] at hpc; cases hpc
      subst hm
      refine ⟨by simp [hne, hj], ?_⟩
      show ((m.connLog.map fun _ => []).getD [] : List LogRecord).count (shardRecord j) = 0
      cases m.connLog <;> rfl
    have hend : Lost j s := Lts.exec_invariant (fun _ _ _ h hstep => h.step hstep) hlost hrest
    have hzero := hend.2
    rw [hlog, Option.getD_some, hone j] at hzero
    cases hzero
  · intro halong
    have hheld : Held s :=
      Lts.exec_along (fun _ _ _ h hkeep hstep => h.step hkeep hstep) (held_start earlier) halong hrun
    have hgone : EarlierGone s :=
      Lts.exec_invariant (fun _ _ _ h hstep => h.step hstep) (earlierGone_start earlier) hrun
    have hone : ∀ i : Fin N, (s.connLog.getD []).count (shardRecord i) = 1 := by
      intro i
      rw [hheld i, if_pos (hdone i)]
    have hmine := hgone.resolve_right fun ⟨_, _, hearly⟩ => by
      have h := hearly ⟨0, hN⟩
      rw [hdone] at h
      exact h
    cases hlog : s.connLog with
    | none =>
      have h := hone ⟨0, hN⟩
      rw [hlog] at h
      cases h
    | some log =>
      rw [hlog] at hone hmine
      exact ⟨log, hlog, hone, hmine⟩

/-- Shard 0 creates the collection and inserts its record; shard 1 finds the collection and the
flag not set, and clears it. -/
def lostRun : List (Act 2) :=
  [.run 0, .run 0, .run 0, .run 1, .run 1, .run 1, .run 1, .run 1]

/-- On a first start with two shards a record may get lost. -/
theorem not_always_exact :
    ¬ ∀ N, 0 < N → ∀ (earlier : Option (List String)) (as : List (Act N)) (s : ConnInit N),
      Lts.exec step (start earlier) as = some s → (∀ i, s.pc i = .done) → Exact s := by
  intro h
  have hrun : Lts.exec step (start none) lostRun = some _ := rfl
  obtain ⟨log, hlog, hone, -⟩ := h 2 (by decide) none lostRun _ hrun (by decide)
  obtain rfl := Option.some.inj hlog
  exact absurd (hone 0) (by decide)

theorem exact_iff_lostRun :
    Exact ((Lts.exec step (start none) lostRun).getD (start none)) ↔
      Lts.Along step ClearsNoInsert (start none) lostRun :=
  exact_iff (by decide) none rfl (by decide)

end ConnInit
end SeastarStarter
