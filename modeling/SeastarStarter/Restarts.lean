import SeastarStarter.DBClients

/-!
# CONN_LOG over many starts of the program

`cleared` is a variable of the process, CONN_LOG lives on the server: every start of the program
finds what the one before has left, however far that one came. A `Launch` is one start, with its
own number of shards, which ends at any moment and whose commands may throw. A document of CONN_LOG
does not say which start inserted it; its `_id` does, and `Record` keeps the number of the start.

* `log_of_one_launch`: CONN_LOG never holds records of two launches, and of one launch at most one
  record for each shard, so it does not grow from start to start.
* `relaunch`: a start that finds CONN_LOG does not fail on a server that answers correctly, however
  its shards are interleaved; it ends, and CONN_LOG then holds records of this start, and no other.
-/

namespace SeastarStarter

/-- A start of the program: what its shards do before the program ends. -/
structure Launch where
  shards : Nat
  acts : List (ConnInit.Act shards)

/-- A document of CONN_LOG, and the start of the program that inserted it. -/
structure Record where
  start : Nat
  shardId : String
deriving DecidableEq

/-- What outlives the program. -/
structure Server where
  /-- How often the program has been started. -/
  starts : Nat
  connLog : Option (List Record)

/-- What the next start finds of CONN_LOG. -/
def Server.shardIds (v : Server) : Option (List String) := v.connLog.map (·.map Record.shardId)

/-- Before the program is started for the first time. -/
def Server.before (earlier : Option (List String)) : Server :=
  ⟨0, earlier.map (·.map (Record.mk 0))⟩

namespace ConnInit

variable {N : Nat}

/-- The records of CONN_LOG at the end of start `n`: its own ones are new, and the others, if they
have not been deleted, are those that it found. -/
def stamp (n : Nat) : List Record → List LogRecord → List Record
  | found, ⟨true, shardId⟩ :: records => ⟨n, shardId⟩ :: stamp n found records
  | r :: found, ⟨false, _⟩ :: records => r :: stamp n found records
  | _, _ => []

/-- What a launch leaves of CONN_LOG. -/
def launch (v : Server) (l : Launch) : Option Server :=
  (Lts.exec step (start v.shardIds) l.acts).map fun s =>
    ⟨v.starts + 1, s.connLog.map (stamp (v.starts + 1) (v.connLog.getD []))⟩

theorem stamp_found (n : Nat) (found : List Record) :
    stamp n found (found.map fun r => ⟨false, r.shardId⟩) = found := by
  induction found with
  | nil => rfl
  | cons r found ih => rw [List.map_cons, stamp, ih]

theorem stamp_mine (n : Nat) (found : List Record) {records : List LogRecord}
    (hmine : ∀ r ∈ records, r.thisRun = true) :
    stamp n found records = records.map fun r => ⟨n, r.shardId⟩ := by
  induction records with
  | nil => cases found <;> rfl
  | cons r records ih =>
    obtain ⟨thisRun, shardId⟩ := r
    obtain rfl : thisRun = true := hmine _ List.mem_cons_self
    rw [List.map_cons, ← ih fun r hr => hmine r (List.mem_cons_of_mem _ hr)]
    cases found <;> rfl

/-! ## One launch -/

/-- CONN_LOG stays once it is there. -/
theorem isSome_step {s s' : ConnInit N} {a : Act N} (hlog : s.connLog.isSome)
    (h : step s a = some s') : s'.connLog.isSome := by
  cases step_move h with
  | sawNone i | sawSome i | alreadyThere i | sawCleared i | sawNotCleared i | flagged i | threw i =>
    exact hlog
  | created i => rfl
  | deleted i => simpa using hlog
  | inserted i => rfl

/-- All records are of this launch. -/
def Mine (s : ConnInit N) : Prop := ∀ r ∈ s.connLog.getD [], ∃ i : Fin N, r = shardRecord i

/-- A step that is no insertion leaves the records as they are, or none of them. -/
theorem connLog_step {s s' : ConnInit N} {a : Act N} (h : step s a = some s') :
    s'.connLog = s.connLog ∨ s'.connLog.getD [] = [] ∨
      ∃ i, s.pc i = .insertOne ∧ s'.connLog = some (s.connLog.getD [] ++ [shardRecord i]) := by
  cases step_move h with
  | sawNone i | sawSome i | alreadyThere i | sawCleared i | sawNotCleared i | flagged i | threw i =>
    exact Or.inl rfl
  | created i => exact Or.inr (Or.inl rfl)
  | deleted i =>
    refine Or.inr (Or.inl ?_)
    show (s.connLog.map fun _ => []).getD [] = []
    cases s.connLog <;> rfl
  | inserted i hpc => exact Or.inr (Or.inr ⟨i, hpc, rfl⟩)

/-- CONN_LOG is as this launch found it, or holds records of this launch only. -/
def FoundOrMine (earlier : Option (List String)) (s : ConnInit N) : Prop :=
  s.connLog = (start earlier : ConnInit N).connLog ∨ Mine s

theorem FoundOrMine.step {earlier : Option (List String)} {s s' : ConnInit N} {a : Act N}
    (hgone : EarlierGone s) (hI : FoundOrMine earlier s) (h : step s a = some s') :
    FoundOrMine earlier s' := by
  rcases connLog_step h with hsame | hempty | ⟨i, hpc, hlog⟩
  · unfold FoundOrMine Mine
    rw [hsame]
    exact hI
  · refine Or.inr fun r hr => ?_
    rw [hempty] at hr
    cases hr
  · -- who inserts knows that the earlier records are gone
    have hmine : Mine s := hgone.resolve_right fun ⟨_, _, hearly⟩ => by
      have hi := hearly i
      rw [hpc] at hi
      exact hi
    refine Or.inr fun r hr => ?_
    rw [hlog, Option.getD_some] at hr
    rcases List.mem_append.1 hr with hr | hr
    · exact hmine r hr
    · exact ⟨i, List.mem_singleton.1 hr⟩

/-- A shard has one record at most, and none before it is done. -/
def AtMostOne (s : ConnInit N) : Prop :=
  ∀ i : Fin N, (s.connLog.getD []).count (shardRecord i) ≤ if s.pc i = .done then 1 else 0

theorem AtMostOne.goto {s : ConnInit N} (h : AtMostOne s) {i : Fin N} {pc : Pc}
    (hi : s.pc i ≠ .done) (hpc : pc ≠ .done) : AtMostOne (s.goto i pc) := by
  intro j
  simp only [done_goto hi hpc]
  exact h j

theorem AtMostOne.of_empty {s : ConnInit N} (h : s.connLog.getD [] = []) : AtMostOne s := by
  intro i
  rw [h]
  exact Nat.zero_le _

theorem AtMostOne.step {s s' : ConnInit N} {a : Act N} (h : AtMostOne s)
    (hstep : step s a = some s') : AtMostOne s' := by
  cases step_move hstep with
  | sawNone i hpc => exact h.goto (by simp [hpc]) (by decide)
  | sawSome i hpc => exact h.goto (by simp [hpc]) (by decide)
  | alreadyThere i hpc => exact h.goto (by simp [hpc]) (by decide)
  | sawCleared i hpc => exact h.goto (by simp [hpc]) (by decide)
  | sawNotCleared i hpc => exact h.goto (by simp [hpc]) (by decide)
  | flagged i hpc => exact h.goto (by simp [hpc]) (by decide)
  | threw i hdone => exact h.goto hdone (by decide)
  | created i => exact AtMostOne.of_empty rfl
  | deleted i =>
    refine AtMostOne.of_empty ?_
    show (s.connLog.map fun _ => []).getD [] = []
    cases s.connLog <;> rfl
  | inserted i hpc =>
    intro j
    show ((s.connLog.getD [] ++ [shardRecord i]).count (shardRecord j)) ≤
      if (s.goto i .done).pc j = .done then 1 else 0
    have hj := h j
    rw [List.count_append]
    by_cases hji : j = i
    · subst hji
      simpa [hpc] using hj
    · have hne : shardRecord i ≠ shardRecord j := fun he => hji (shardRecord_injective he).symm
      simpa [hji, hne] using hj

theorem atMostOne_start (earlier : Option (List String)) :
    AtMostOne (start earlier : ConnInit N) := fun i => (held_start earlier i).le

/-- CONN_LOG holds records that start `n`, with the shards of `l`, has inserted, one of each shard at
most, and no others. -/
def FromLaunch (n : Nat) (l : Launch) (log : Option (List Record)) : Prop :=
  ∃ records, log = some records ∧ (records.map Record.shardId).Nodup ∧
    ∀ r ∈ records, r.start = n ∧ ∃ i : Fin l.shards, r.shardId = toString i.val

theorem FromLaunch.length_le {n : Nat} {l : Launch} {log : Option (List Record)}
    (h : FromLaunch n l log) : (log.getD []).length ≤ l.shards := by
  obtain ⟨records, rfl, hnodup, hrecords⟩ := h
  have hsubset : records.map Record.shardId ⊆
      (List.finRange l.shards).map fun i => toString i.val := by
    intro id hid
    obtain ⟨r, hr, rfl⟩ := List.mem_map.1 hid
    obtain ⟨-, i, hi⟩ := hrecords r hr
    rw [hi]
    exact List.mem_map_of_mem (List.mem_finRange i)
  simpa using (List.subperm_of_subset hnodup hsubset).length_le

theorem nodup_of_mine {s : ConnInit N} {records : List LogRecord} (hlog : s.connLog = some records)
    (hmine : Mine s) (hone : AtMostOne s) : (records.map LogRecord.shardId).Nodup := by
  unfold Mine at hmine
  unfold AtMostOne at hone
  rw [hlog, Option.getD_some] at hmine hone
  have hnodup : records.Nodup := by
    rw [List.nodup_iff_count_le_one]
    intro r
    by_cases hr : r ∈ records
    · obtain ⟨i, rfl⟩ := hmine r hr
      refine (hone i).trans ?_
      split <;> omega
    · rw [List.count_eq_zero_of_not_mem hr]
      omega
  refine hnodup.map_on fun r hr r' hr' hid => ?_
  obtain ⟨i, rfl⟩ := hmine r hr
  obtain ⟨j, rfl⟩ := hmine r' hr'
  exact congrArg (LogRecord.mk true) hid

theorem fromLaunch_of_mine {acts : List (Act N)} {s : ConnInit N} {records : List LogRecord}
    (hlog : s.connLog = some records) (hmine : Mine s) (hone : AtMostOne s) (n : Nat)
    (found : List Record) : FromLaunch n ⟨N, acts⟩ (s.connLog.map (stamp n found)) := by
  have hshards : ∀ r ∈ records, ∃ i : Fin N, r = shardRecord i := fun r hr =>
    hmine r (by rw [hlog]; exact hr)
  have hstamp := stamp_mine n found fun r hr => by
    obtain ⟨i, rfl⟩ := hshards r hr
    rfl
  refine ⟨_, by rw [hlog, Option.map_some, hstamp], ?_, fun r hr => ?_⟩
  · rw [List.map_map]
    exact nodup_of_mine hlog hmine hone
  · obtain ⟨r', hr', rfl⟩ := List.mem_map.1 hr
    obtain ⟨i, rfl⟩ := hshards r' hr'
    exact ⟨rfl, i, rfl⟩

theorem launch_isSome {v v' : Server} {l : Launch} (hlog : v.connLog.isSome)
    (h : launch v l = some v') : v'.connLog.isSome := by
  obtain ⟨s, hs, rfl⟩ := Option.map_eq_some_iff.1 h
  have hsome : s.connLog.isSome :=
    Lts.exec_invariant (I := fun s => s.connLog.isSome)
      (fun _ _ _ hI hstep => isSome_step hI hstep) (by simpa [start, Server.shardIds] using hlog) hs
  simpa using hsome

theorem launch_starts {v v' : Server} {l : Launch} (h : launch v l = some v') :
    v'.starts = v.starts + 1 := by
  obtain ⟨s, hs, rfl⟩ := Option.map_eq_some_iff.1 h
  rfl

/-- **What a launch leaves**: what it found, or its own records. -/
theorem launch_some {v v' : Server} {l : Launch} (h : launch v l = some v') :
    v'.connLog = v.connLog ∨ FromLaunch (v.starts + 1) l v'.connLog := by
  obtain ⟨s, hs, rfl⟩ := Option.map_eq_some_iff.1 h
  have hI : EarlierGone s ∧ FoundOrMine v.shardIds s ∧ AtMostOne s :=
    Lts.exec_invariant (I := fun s => EarlierGone s ∧ FoundOrMine v.shardIds s ∧ AtMostOne s)
      (fun _ _ _ hI hstep => ⟨hI.1.step hstep, hI.2.1.step hI.1 hstep, hI.2.2.step hstep⟩)
      ⟨earlierGone_start _, Or.inl rfl, atMostOne_start _⟩ hs
  obtain ⟨-, hfound | hmine, hone⟩ := hI
  · left
    show s.connLog.map (stamp _ _) = v.connLog
    rw [hfound]
    cases hlog : v.connLog with
    | none => simp [start, Server.shardIds, hlog]
    | some found =>
      simpa [start, Server.shardIds, hlog, Function.comp_def] using stamp_found _ found
  · cases hlog : s.connLog with
    | some records =>
      right
      rw [← hlog]
      exact fromLaunch_of_mine hlog hmine hone _ _
    | none =>
      -- there was none to begin with
      left
      rw [Option.map_none]
      cases hv : v.connLog with
      | none => rfl
      | some found =>
        have hsome := launch_isSome (by rw [hv]; rfl) h
        rw [hlog] at hsome
        cases hsome

/-! ## All of them -/

/-- **CONN_LOG over restarts.** After any number of launches, each with any number of shards, in
any interleaving, with any commands that throw, and ended anywhere, CONN_LOG is what it was before
all of them, or all its records were inserted by one single launch, one at most by each of its
shards, and it is as this launch left it. -/
theorem log_of_one_launch (earlier : Option (List String)) (launches : List Launch) (v : Server)
    (h : Lts.exec launch (Server.before earlier) launches = some v) :
    v.connLog = (Server.before earlier).connLog ∨ ∃ before l after, launches = before ++ l :: after ∧
      (∃ m, Lts.exec launch (Server.before earlier) (before ++ [l]) = some m ∧
        m.connLog = v.connLog) ∧
      FromLaunch (before.length + 1) l v.connLog ∧ (v.connLog.getD []).length ≤ l.shards := by
  have hhistory : v.starts = launches.length ∧ (v.connLog = (Server.before earlier).connLog ∨
      ∃ before l after, launches = before ++ l :: after ∧
        (∃ m, Lts.exec launch (Server.before earlier) (before ++ [l]) = some m ∧
          m.connLog = v.connLog) ∧ FromLaunch (before.length + 1) l v.connLog) := by
    refine Lts.exec_history (I := fun launches v => v.starts = launches.length ∧
      (v.connLog = (Server.before earlier).connLog ∨
        ∃ before l after, launches = before ++ l :: after ∧
          (∃ m, Lts.exec launch (Server.before earlier) (before ++ [l]) = some m ∧
            m.connLog = v.connLog) ∧ FromLaunch (before.length + 1) l v.connLog))
      ⟨rfl, Or.inl rfl⟩ ?_ h
    rintro pre l m m' hpre ⟨hstarts, hI⟩ hl
    refine ⟨by rw [launch_starts hl, hstarts]; simp, ?_⟩
    rcases launch_some hl with hsame | hfrom
    · rw [hsame]
      refine hI.imp_right ?_
      rintro ⟨before, l₀, after, rfl, hexec, hfrom⟩
      exact ⟨before, l₀, after ++ [l], by simp, hexec, hfrom⟩
    · rw [hstarts] at hfrom
      exact Or.inr ⟨pre, l, [], rfl, ⟨m', Lts.exec_snoc_some.2 ⟨m, hpre, hl⟩, rfl⟩, hfrom⟩
  refine hhistory.2.imp_right ?_
  rintro ⟨before, l, after, hlaunches, hexec, hfrom⟩
  exact ⟨before, l, after, hlaunches, hexec, hfrom, hfrom.length_le⟩

/-- A start of two shards on an absent CONN_LOG, of which the first one is done; then one of two
shards of which the second one throws at once, and the first one goes through. -/
def twoStarts : List Launch :=
  let first := (Fin.last 0).castSucc
  [⟨2, [.run first, .run first, .run first]⟩,
    ⟨2, [.run first, .error (Fin.last 1), .run first, .run first, .run first, .run first]⟩]

theorem log_of_one_launch_second : ∃ v, Lts.exec launch (Server.before none) twoStarts = some v ∧
    v.connLog = some [⟨2, "0"⟩] ∧ (v.connLog = none ∨ ∃ before l after,
      twoStarts = before ++ l :: after ∧
      (∃ m, Lts.exec launch (Server.before none) (before ++ [l]) = some m ∧ m.connLog = v.connLog) ∧
      FromLaunch (before.length + 1) l v.connLog ∧ (v.connLog.getD []).length ≤ l.shards) := by
  have h : Lts.exec launch (Server.before none) twoStarts = some ⟨2, some [⟨2, "0"⟩]⟩ := rfl
  exact ⟨_, h, rfl, log_of_one_launch none twoStarts _ h⟩

/-! ## A start that finds CONN_LOG -/

/-- Once a shard is done there is a record, or a shard that is about to insert one. -/
def Written (s : ConnInit N) : Prop :=
  (∃ i, s.pc i = .done) →
    s.connLog.getD [] ≠ [] ∨ ∃ i, s.pc i = .setCleared ∨ s.pc i = .insertOne

theorem Written.goto {s : ConnInit N} (h : Written s) {i : Fin N} {pc : Pc}
    (hset : s.pc i ≠ .setCleared) (hinsert : s.pc i ≠ .insertOne) (hpc : pc ≠ .done) :
    Written (s.goto i pc) := by
  rintro ⟨j, hj⟩
  have hji : j ≠ i := by
    rintro rfl
    rw [goto_pc, Function.update_self] at hj
    exact hpc hj
  rw [goto_pc, Function.update_of_ne hji] at hj
  rcases h ⟨j, hj⟩ with hlog | ⟨k, hk⟩
  · exact Or.inl hlog
  · have hki : k ≠ i := by
      rintro rfl
      exact hk.elim hset hinsert
    exact Or.inr ⟨k, by simpa [hki] using hk⟩

/-- On a server that answers correctly: who deletes is going to insert. -/
theorem Written.step {s s' : ConnInit N} {i : Fin N} (h : Written s)
    (hstep : step s (.run i) = some s') : Written s' := by
  cases step_move hstep with
  | sawNone _ hpc => exact h.goto (by simp [hpc]) (by simp [hpc]) (by decide)
  | sawSome _ hpc => exact h.goto (by simp [hpc]) (by simp [hpc]) (by decide)
  | alreadyThere _ hpc => exact h.goto (by simp [hpc]) (by simp [hpc]) (by decide)
  | sawCleared _ hpc => exact h.goto (by simp [hpc]) (by simp [hpc]) (by decide)
  | sawNotCleared _ hpc => exact h.goto (by simp [hpc]) (by simp [hpc]) (by decide)
  | created _ hpc => exact fun _ => Or.inr ⟨i, by simp⟩
  | deleted _ hpc => exact fun _ => Or.inr ⟨i, by simp⟩
  | flagged _ hpc => exact fun _ => Or.inr ⟨i, by simp⟩
  | inserted _ hpc => exact fun _ => Or.inl (by simp)

/-! ### How many statements a shard takes -/

/-- The statements of shard `i`. -/
def Act.ofShard (i : Fin N) : Act N → Bool
  | .run j | .error j => j = i

/-- Shard `i` has fewer statements before it after each of its own, and as many after another's. -/
theorem pcLeft_step {s s' : ConnInit N} {a : Act N} (hstep : step s a = some s') (i : Fin N) :
    Pc.left (s'.pc i) + (a.ofShard i).toNat ≤ Pc.left (s.pc i) := by
  have hgoto : ∀ {j pc}, Pc.left pc < Pc.left (s.pc j) →
      Pc.left ((s.goto j pc).pc i) + (decide (j = i)).toNat ≤ Pc.left (s.pc i) := by
    intro j pc hlt
    by_cases hij : i = j
    · subst hij
      simpa using Nat.succ_le_of_lt hlt
    · simp [hij, Ne.symm hij]
  cases step_move hstep with
  | threw j hdone hfailed =>
    refine hgoto ?_
    cases hpc : s.pc j <;> simp_all [Pc.left]
  | sawNone j hpc | sawSome j hpc | alreadyThere j hpc | sawCleared j hpc | sawNotCleared j hpc
  | created j hpc | deleted j hpc | flagged j hpc | inserted j hpc =>
    exact hgoto (by rw [hpc]; decide)

theorem count_le_of_run {earlier : Option (List String)} {order : List (Fin N)} {s : ConnInit N}
    (hrun : Lts.exec step (start earlier) (correctRun order) = some s) (i : Fin N) :
    order.count i ≤ 5 := by
  have hbudget := Lts.exec_budget (I := fun _ => True) (fun s => Pc.left (s.pc i)) (Act.ofShard i)
    (fun _ => false) (fun _ _ _ _ _ => trivial) (fun _ _ _ _ hstep => pcLeft_step hstep i)
    trivial hrun
  have hstart : Pc.left ((start earlier : ConnInit N).pc i) = 5 := rfl
  have hcount : (correctRun order).countP (Act.ofShard i) = order.count i := by
    unfold correctRun
    rw [List.countP_map]
    rfl
  have hnone : (correctRun order).countP (fun _ => false) = 0 := by simp
  rw [hcount, hstart, hnone] at hbudget
  omega

section
variable {earlier : Option (List String)} {order : List (Fin N)} {s : ConnInit N}

/-- No shard finds CONN_LOG absent, so none creates it. -/
theorem along_checksAlone_of_isSome (hlog : earlier.isSome) (as : List (Act N)) :
    Lts.Along step ChecksAlone (start earlier) as := by
  have hsome : Lts.Always step (fun s => s.connLog.isSome) (start earlier) as :=
    Lts.always_of_invariant (fun _ _ _ hI hstep => isSome_step hI hstep) (by simpa [start] using hlog)
  refine Lts.along_of_always hsome fun s a hs i _ _ hnone => ?_
  rw [hnone] at hs
  cases hs

theorem written_of_run (hrun : Lts.exec step (start earlier) (correctRun order) = some s) :
    Written s := by
  refine Lts.exec_along (I := Written) ?_ (fun ⟨i, hi⟩ => by cases hi) (along_correctRun _ order) hrun
  rintro m _ m' hI ⟨i, rfl⟩ hstep
  exact hI.step hstep

/-- At the end of such a start, the records are of its own shards, one of each at most, and there
is one. -/
theorem log_of_done (hN : 0 < N) (hrun : Lts.exec step (start earlier) (correctRun order) = some s)
    (hdone : ∀ i, s.pc i = .done) : Mine s ∧ AtMostOne s ∧ s.connLog.getD [] ≠ [] := by
  have hI : EarlierGone s ∧ AtMostOne s :=
    Lts.exec_invariant (I := fun s => EarlierGone s ∧ AtMostOne s)
      (fun _ _ _ hI hstep => ⟨hI.1.step hstep, hI.2.step hstep⟩)
      ⟨earlierGone_start _, atMostOne_start _⟩ hrun
  obtain ⟨hgone, hone⟩ := hI
  refine ⟨hgone.resolve_right fun ⟨_, _, hearly⟩ => ?_, hone, ?_⟩
  · have h0 := hearly ⟨0, hN⟩
    rw [hdone] at h0
    exact h0
  · refine (written_of_run hrun ⟨⟨0, hN⟩, hdone _⟩).resolve_right ?_
    rintro ⟨i, hi | hi⟩ <;> (rw [hdone i] at hi; cases hi)

end

/-- There is a CONN_LOG behind any launches if there was one before. -/
theorem isSome_of_launches {v v' : Server} {launches : List Launch} (hlog : v.connLog.isSome)
    (h : Lts.exec launch v launches = some v') : v'.shardIds.isSome := by
  have hsome : v'.connLog.isSome := Lts.exec_invariant (I := fun v => v.connLog.isSome)
    (fun _ _ _ hI hl => launch_isSome hI hl) hlog h
  simpa [Server.shardIds] using hsome

/-- A start that finds CONN_LOG ends with every shard done. -/
theorem done_of_isSome {log : Option (List String)} (hlog : log.isSome) {order : List (Fin N)}
    {s : ConnInit N} (hrun : Lts.exec step (start log) (correctRun order) = some s)
    (hstuck : ∀ i, step s (.run i) = none) : ∀ i, s.pc i = .done :=
  (all_done_iff hrun hstuck).2 (along_checksAlone_of_isSome hlog _)

/-- **A later start succeeds.** Once there is a CONN_LOG, whatever launches have come and gone
since: a start on a server that answers correctly never fails, in any interleaving of its shards;
each shard takes at most five statements, and where the start is at its end every shard is done,
`Init` resolves normally, and the records in CONN_LOG are this start's, one of each shard at most,
and there is one. -/
theorem relaunch (v v' : Server) (launches : List Launch) (hlog : v.connLog.isSome)
    (hlaunches : Lts.exec launch v launches = some v') {N : Nat} (hN : 0 < N)
    (order : List (Fin N)) (s : ConnInit N)
    (hrun : Lts.exec step (start v'.shardIds) (correctRun order) = some s) :
    (∀ i, s.pc i ≠ .failed) ∧ (∀ i, order.count i ≤ 5) ∧
      ((∀ i, step s (.run i) = none) →
        (∀ i, s.pc i = .done) ∧ Mine s ∧ s.connLog.getD [] ≠ [] ∧
        (∃ v'', launch v' ⟨N, correctRun order⟩ = some v'' ∧
          FromLaunch (v'.starts + 1) ⟨N, correctRun order⟩ v''.connLog) ∧
        ∀ (env : InitFailures N) (what : Bytes) (p : Process N), (∀ i, env.clientsStart i = none) →
          (∀ i, env.constructClient i = none) → env.connLog = s.failures what →
          ∃ u, ((init env).run p).1 = .ok u) := by
  have hsome : v'.shardIds.isSome := isSome_of_launches hlog hlaunches
  have halone := along_checksAlone_of_isSome hsome (correctRun order)
  refine ⟨(safe_of_alone halone).2.last hrun, count_le_of_run hrun, fun hstuck => ?_⟩
  have hdone := done_of_isSome hsome hrun hstuck
  obtain ⟨hmine, hone, hne⟩ := log_of_done hN hrun hdone
  obtain ⟨records, hrecords⟩ : ∃ records, s.connLog = some records := by
    cases hlog : s.connLog with
    | none =>
      rw [hlog] at hne
      exact absurd rfl hne
    | some records => exact ⟨records, rfl⟩
  refine ⟨hdone, hmine, hne, ⟨_, by unfold launch; rw [hrun]; rfl, ?_⟩,
    fun env what p hstart hconstruct hlog => ?_⟩
  · exact fromLaunch_of_mine hrecords hmine hone _ _
  · exact (init_ok_iff_checksAlone hstart hconstruct hrun hstuck hlog p).2 halone

/-- On a CONN_LOG with a record of some earlier start: a launch of two shards that is ended in the
middle, and then two shards, one after the other. -/
theorem relaunch_two : ∃ v', Lts.exec launch (Server.before (some ["7"]))
    [⟨2, [.run 0, .run 0, .run 0]⟩] = some v' ∧
    ∃ s : ConnInit 2, Lts.exec step (start v'.shardIds)
      (correctRun [0, 1, 0, 1, 0, 0, 0, 1, 1, 1]) = some s ∧
      Mine s ∧ s.connLog.getD [] ≠ [] ∧ ∀ i, s.pc i = .done := by
  obtain ⟨s, hs, hstuck⟩ : ∃ s : ConnInit 2, Lts.exec step (start (some []))
      (correctRun [0, 1, 0, 1, 0, 0, 0, 1, 1, 1]) = some s ∧
      ∀ i, step s (.run i) = none := ⟨_, rfl, by decide⟩
  have hlaunch : Lts.exec launch (Server.before (some ["7"])) [⟨2, [.run 0, .run 0, .run 0]⟩] =
      some ⟨1, some []⟩ := rfl
  obtain ⟨-, -, hend⟩ := relaunch _ _ _ rfl hlaunch (by decide) _ s hs
  obtain ⟨hdone, hmine, hne, -⟩ := hend hstuck
  exact ⟨_, hlaunch, s, hs, hmine, hne, hdone⟩

end ConnInit
end SeastarStarter
