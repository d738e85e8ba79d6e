import Mathlib.Data.List.Perm.Subperm
import SeastarStarter.HandleCounter

/-!
# Which orders of detaching are safe

Objects of nested scopes are destroyed in the reverse order of their construction: the largest
live handle first. In such a run the live handles are always 1..n and the next one is n+1
(`Tower`). From there any k handles may be detached; the counter then stands k lower, whatever
they were, and the next k attaches are handed the k largest numbers again (`Tower.reattach`). What
they have stored is read in the container after them.
-/

namespace SeastarStarter

open UnorderedMap Lts

namespace EventRouter

variable {H : Type}

/-- No attach throws, and a detach that erases an entry erases the one of the largest handle. -/
def LargestFirst (r : EventRouter H) : Call H → Prop
  | .attach _ outcome => outcome = .returns
  | .detach handle => handle ∈ r.dispatchContainer →
    ∀ other ∈ r.dispatchContainer, other.toNat ≤ handle.toNat

/-- The live handles are 1..n and the next one is n+1 (0 once `size_t` is used up). -/
structure Tower (n : Nat) (r : EventRouter H) : Prop where
  lt : n < 2 ^ 64
  live : ∀ handle, handle ∈ r.dispatchContainer ↔ 1 ≤ handle.toNat ∧ handle.toNat ≤ n
  next : r.nextHandle = BitVec.ofNat 64 (n + 1)

theorem tower_fresh : Tower 0 (fresh : EventRouter H) := by
  refine ⟨by decide, fun handle => ?_, rfl⟩
  constructor
  · intro h; exact absurd h Finmap.notMem_empty
  · intro h; omega

theorem Tower.next_notMem {n : Nat} {r : EventRouter H} (hT : Tower n r) :
    r.nextHandle ∉ r.dispatchContainer := by
  intro hmem
  have hbounds := (hT.live _).1 hmem
  rw [hT.next, BitVec.toNat_ofNat] at hbounds
  have hlt := hT.lt
  omega

/-! ## Largest first -/

theorem Tower.attach {n : Nat} {r : EventRouter H} (hT : Tower n r) (hn : n + 1 < 2 ^ 64)
    (handler : H) :
    Tower (n + 1) ⟨r.nextHandle + 1, r.dispatchContainer.insert r.nextHandle handler⟩ := by
  have hnext : r.nextHandle.toNat = n + 1 := by
    rw [hT.next, BitVec.toNat_ofNat, Nat.mod_eq_of_lt hn]
  refine ⟨hn, fun handle => ?_, ?_⟩
  · rw [Finmap.mem_insert, hT.live, ← BitVec.toNat_inj, hnext]
    omega
  · simp only
    rw [hT.next, BitVec.ofNat_add (n + 1)]
    rfl

theorem Tower.detach {n : Nat} {r : EventRouter H} {handle : SizeT} (hT : Tower n r)
    (hmem : handle ∈ r.dispatchContainer)
    (hlargest : ∀ other ∈ r.dispatchContainer, other.toNat ≤ handle.toNat) :
    Tower (n - 1) ⟨r.nextHandle - 1, r.dispatchContainer.erase handle⟩ := by
  have hbounds := (hT.live handle).1 hmem
  have hlt := hT.lt
  have htop : (BitVec.ofNat 64 n).toNat = n := by
    rw [BitVec.toNat_ofNat, Nat.mod_eq_of_lt hlt]
  have hle : n ≤ handle.toNat := by
    have := hlargest (BitVec.ofNat 64 n) ((hT.live _).2 (by omega))
    omega
  refine ⟨by omega, fun other => ?_, ?_⟩
  · rw [Finmap.mem_erase, hT.live, ne_eq, ← BitVec.toNat_inj]
    omega
  · have hsucc : n - 1 + 1 = n := by omega
    simp only [hT.next, hsucc, BitVec.ofNat_add]
    bv_omega

/-- The tower, and its height. -/
def TowerInv (r : EventRouter H) : Prop := ∃ n, Tower n r ∧ size r.dispatchContainer = n

theorem TowerInv.step {maxSize : SizeT} {r r' : EventRouter H} {call : Call H} (hI : TowerInv r)
    (hcall : LargestFirst r call) (h : step maxSize r call = some r') : TowerInv r' := by
  obtain ⟨n, hT, hsize⟩ := hI
  cases effect_of_step h with
  | stored handler hnew hroom =>
    have hmax := maxSize.isLt
    refine ⟨n + 1, hT.attach (by omega) handler, ?_⟩
    rw [size_insert_of_notMem _ hnew, hsize]
  | collided handler htaken => exact absurd htaken hT.next_notMem
  | copyThrew handler => cases hcall
  | emplaceThrew handler => cases hcall
  | erased handle hlive =>
    obtain ⟨handler, hlook⟩ := Finmap.mem_iff.1 hlive
    refine ⟨n - 1, hT.detach hlive (hcall hlive), ?_⟩
    have := size_eq_succ_erase hlook
    simp only
    omega
  | ignored handle hdead => exact ⟨n, hT, hsize⟩

theorem always_towerInv {maxSize : SizeT} {calls : List (Call H)}
    (h : Along (step maxSize) LargestFirst fresh calls) :
    Always (step maxSize) TowerInv fresh calls :=
  always_of_along (fun _ _ _ hI hcall hs => TowerInv.step hI hcall hs) ⟨0, tower_fresh, rfl⟩ h

/-! ## Any order, and as many attaches after it -/

/-- Detaches `handles` in this order. -/
def detachAll (r : EventRouter H) (handles : List SizeT) : EventRouter H :=
  handles.foldl (fun r handle => (r.detach handle).2) r

/-- Attaches `handlers` in this order: the handles that the attaches return, and the router after
them. -/
def attachAll (r : EventRouter H) : List H → List SizeT × EventRouter H
  | [] => ([], r)
  | handler :: handlers =>
    let (handle, r) := r.attach handler
    let (handles, r) := attachAll r handlers
    (handle :: handles, r)

theorem detachAll_cons {r : EventRouter H} {handle : SizeT} {handles : List SizeT} :
    detachAll r (handle :: handles) = detachAll (r.detach handle).2 handles := rfl

/-- The counter sees how many entries were erased, and not which. -/
theorem detachAll_nextHandle {handles : List SizeT} {r : EventRouter H} (hnodup : handles.Nodup)
    (hlive : ∀ handle ∈ handles, handle ∈ r.dispatchContainer) :
    (detachAll r handles).nextHandle = r.nextHandle - BitVec.ofNat 64 handles.length := by
  induction handles generalizing r with
  | nil => simp [detachAll]
  | cons handle handles ih =>
    obtain ⟨hfirst, hrest⟩ := List.nodup_cons.1 hnodup
    have hmem := hlive handle (by simp)
    rw [detachAll_cons, detach_of_mem hmem, ih hrest, List.length_cons, BitVec.ofNat_add]
    · bv_omega
    · intro other hother
      refine Finmap.mem_erase.2 ⟨?_, hlive other (by simp [hother])⟩
      rintro rfl
      exact hfirst hother

theorem mem_detachAll {handles : List SizeT} {r : EventRouter H} {other : SizeT} :
    other ∈ (detachAll r handles).dispatchContainer ↔
      other ∈ r.dispatchContainer ∧ other ∉ handles := by
  induction handles generalizing r with
  | nil => simp [detachAll]
  | cons handle handles ih =>
    rw [detachAll_cons, ih, List.mem_cons, not_or]
    by_cases hmem : handle ∈ r.dispatchContainer
    · rw [detach_of_mem hmem]
      simp only [Finmap.mem_erase]
      tauto
    · rw [detach_of_notMem hmem]
      constructor
      · rintro ⟨hother, hnot⟩
        exact ⟨hother, fun heq => hmem (heq ▸ hother), hnot⟩
      · rintro ⟨hother, -, hnot⟩
        exact ⟨hother, hnot⟩

theorem attachAll_cons {r : EventRouter H} {handler : H} {handlers : List H} :
    attachAll r (handler :: handlers) =
      ((r.attach handler).1 :: (attachAll (r.attach handler).2 handlers).1,
        (attachAll (r.attach handler).2 handlers).2) := rfl

/-- The handles m, m+1, ... of k consecutive attaches. -/
def handlesFrom (m k : Nat) : List SizeT := (List.range' m k).map (BitVec.ofNat 64)

theorem handlesFrom_succ (m k : Nat) :
    handlesFrom m (k + 1) = BitVec.ofNat 64 m :: handlesFrom (m + 1) k := by
  simp [handlesFrom, List.range'_succ]

@[simp] theorem length_handlesFrom (m k : Nat) : (handlesFrom m k).length = k := by
  simp [handlesFrom]

theorem notMem_handlesFrom_succ {m k : Nat} (hfit : m + 1 + k ≤ 2 ^ 64) :
    BitVec.ofNat 64 m ∉ handlesFrom (m + 1) k := by
  intro hmem
  obtain ⟨h, hh, heq⟩ := List.mem_map.1 hmem
  have hrange := List.mem_range'_1.1 hh
  have htoNat := congrArg BitVec.toNat heq
  rw [BitVec.toNat_ofNat, BitVec.toNat_ofNat] at htoNat
  omega

theorem nextHandle_attach {r : EventRouter H} {m : Nat} (hnext : r.nextHandle = BitVec.ofNat 64 m)
    (handler : H) : (r.attach handler).2.nextHandle = BitVec.ofNat 64 (m + 1) := by
  rw [attach_nextHandle, hnext, BitVec.ofNat_add]
  rfl

/-- Consecutive attaches get consecutive handles. -/
theorem attachAll_handles {handlers : List H} {r : EventRouter H} {m : Nat}
    (hnext : r.nextHandle = BitVec.ofNat 64 m) :
    (attachAll r handlers).1 = handlesFrom m handlers.length := by
  induction handlers generalizing r m with
  | nil => rfl
  | cons handler handlers ih =>
    rw [attachAll_cons, List.length_cons, handlesFrom_succ, ih (nextHandle_attach hnext handler),
      attach_fst, hnext]

/-- What an attach is not handed it leaves alone. -/
theorem lookup_attach_of_ne {r : EventRouter H} {handle : SizeT} (hne : handle ≠ r.nextHandle)
    (handler : H) :
    (r.attach handler).2.dispatchContainer.lookup handle = r.dispatchContainer.lookup handle := by
  rw [attach_dispatchContainer]
  by_cases htaken : r.nextHandle ∈ r.dispatchContainer
  · rw [emplace_of_mem handler htaken]
  · rw [emplace_of_notMem handler htaken, Finmap.lookup_insert_of_ne _ hne]

theorem lookup_attach_self (r : EventRouter H) (handler : H) :
    (r.attach handler).2.dispatchContainer.lookup r.nextHandle =
      if r.nextHandle ∈ r.dispatchContainer then r.dispatchContainer.lookup r.nextHandle
      else some handler := by
  rw [attach_dispatchContainer]
  by_cases htaken : r.nextHandle ∈ r.dispatchContainer
  · rw [emplace_of_mem handler htaken, if_pos htaken]
  · rw [emplace_of_notMem handler htaken, if_neg htaken, Finmap.lookup_insert]

theorem lookup_attachAll_of_notMem {handlers : List H} {r : EventRouter H} {m : Nat}
    (hnext : r.nextHandle = BitVec.ofNat 64 m) {handle : SizeT}
    (hnot : handle ∉ handlesFrom m handlers.length) :
    (attachAll r handlers).2.dispatchContainer.lookup handle =
      r.dispatchContainer.lookup handle := by
  induction handlers generalizing r m with
  | nil => rfl
  | cons handler handlers ih =>
    rw [List.length_cons, handlesFrom_succ, List.mem_cons, not_or] at hnot
    rw [attachAll_cons, ih (nextHandle_attach hnext handler) hnot.2,
      lookup_attach_of_ne (hnext ▸ hnot.1)]

/-- Each of consecutive attaches stores its handler where its handle was free to begin with, and
leaves what is there otherwise: none of them takes the handle of a later one. -/
theorem lookup_attachAll {handlers : List H} {r : EventRouter H} {m : Nat}
    (hnext : r.nextHandle = BitVec.ofNat 64 m) (hfit : m + handlers.length ≤ 2 ^ 64)
    {p : SizeT × H} (hp : p ∈ (handlesFrom m handlers.length).zip handlers) :
    (attachAll r handlers).2.dispatchContainer.lookup p.1 =
      if p.1 ∈ r.dispatchContainer then r.dispatchContainer.lookup p.1 else some p.2 := by
  induction handlers generalizing r m with
  | nil => simp [handlesFrom] at hp
  | cons handler handlers ih =>
    have hafter := nextHandle_attach hnext handler
    rw [List.length_cons] at hfit
    have hfresh : BitVec.ofNat 64 m ∉ handlesFrom (m + 1) handlers.length :=
      notMem_handlesFrom_succ (by omega)
    rw [List.length_cons, handlesFrom_succ, List.zip_cons_cons, List.mem_cons] at hp
    rw [attachAll_cons]
    rcases hp with rfl | hp
    · rw [lookup_attachAll_of_notMem hafter hfresh, ← hnext, lookup_attach_self]
    · have hne : p.1 ≠ r.nextHandle := by
        rw [hnext]
        rintro heq
        exact hfresh (heq ▸ (List.of_mem_zip hp).1)
      have hsame : p.1 ∈ (r.attach handler).2.dispatchContainer ↔ p.1 ∈ r.dispatchContainer := by
        rw [attach_dispatchContainer, mem_emplace]
        simp [hne]
      rw [ih hafter (by omega) hp, lookup_attach_of_ne hne]
      simp only [hsame]

/-- The handlers in the container after consecutive attaches: those whose handle was free have been
added to the ones before. -/
theorem values_attachAll {handlers : List H} {r : EventRouter H} {m : Nat}
    (hnext : r.nextHandle = BitVec.ofNat 64 m) (hfit : m + handlers.length ≤ 2 ^ 64) :
    values (attachAll r handlers).2.dispatchContainer = values r.dispatchContainer +
      ((((handlesFrom m handlers.length).zip handlers).filter
        fun p => p.1 ∉ r.dispatchContainer).map Prod.snd : List H) := by
  induction handlers generalizing r m with
  | nil => simp [handlesFrom, attachAll]
  | cons handler handlers ih =>
    rw [List.length_cons] at hfit
    have hfresh : BitVec.ofNat 64 m ∉ handlesFrom (m + 1) handlers.length :=
      notMem_handlesFrom_succ (by omega)
    have hrest : (((handlesFrom (m + 1) handlers.length).zip handlers).filter
        fun p => p.1 ∉ (r.attach handler).2.dispatchContainer) =
        ((handlesFrom (m + 1) handlers.length).zip handlers).filter
          fun p => p.1 ∉ r.dispatchContainer := by
      refine List.filter_congr fun p hp => ?_
      have hne : p.1 ≠ r.nextHandle := by
        rw [hnext]
        rintro heq
        exact hfresh (heq ▸ (List.of_mem_zip hp).1)
      rw [attach_dispatchContainer]
      simp [mem_emplace, hne]
    rw [attachAll_cons, ih (nextHandle_attach hnext handler) (by omega), hrest,
      attach_dispatchContainer, List.length_cons, handlesFrom_succ, List.zip_cons_cons, ← hnext]
    by_cases htaken : r.nextHandle ∈ r.dispatchContainer
    · rw [emplace_of_mem handler htaken, List.filter_cons_of_neg (by simp [htaken])]
    · rw [emplace_of_notMem handler htaken, List.filter_cons_of_pos (by simp [htaken]),
        values_insert_of_notMem handler htaken, List.map_cons, ← Multiset.cons_coe,
        Multiset.add_cons, Multiset.cons_add]

/-- The handles that k attaches are handed when k of n have been detached. -/
def topHandles (n k : Nat) : List SizeT := handlesFrom (n - k + 1) k

theorem mem_topHandles {n k : Nat} {handle : SizeT} (hn : n < 2 ^ 64) (hk : k ≤ n) :
    handle ∈ topHandles n k ↔ n - k + 1 ≤ handle.toNat ∧ handle.toNat ≤ n := by
  unfold topHandles handlesFrom
  rw [List.mem_map]
  constructor
  · rintro ⟨h, hh, rfl⟩
    have hrange := List.mem_range'_1.1 hh
    rw [BitVec.toNat_ofNat, Nat.mod_eq_of_lt (by omega)]
    omega
  · intro h
    exact ⟨handle.toNat, List.mem_range'_1.2 (by omega), by simp⟩

theorem nodup_topHandles {n k : Nat} (hn : n < 2 ^ 64) (hk : k ≤ n) : (topHandles n k).Nodup := by
  unfold topHandles handlesFrom
  refine List.Nodup.map_on (fun a ha b hb hab => ?_) List.nodup_range'
  have ha' := List.mem_range'_1.1 ha
  have hb' := List.mem_range'_1.1 hb
  have heq := congrArg BitVec.toNat hab
  rw [BitVec.toNat_ofNat, BitVec.toNat_ofNat] at heq
  omega

section
variable {n : Nat} {r : EventRouter H} {handles : List SizeT} {handlers : List H}

/-- A set of live handles is no larger than the tower. -/
theorem Tower.length_le (hT : Tower n r) (hnodup : handles.Nodup)
    (hlive : ∀ handle ∈ handles, handle ∈ r.dispatchContainer) : handles.length ≤ n := by
  have hsub : handles ⊆ topHandles n n := fun handle h => by
    have hbounds := (hT.live handle).1 (hlive handle h)
    exact (mem_topHandles hT.lt le_rfl).2 (by omega)
  have hle := (hnodup.subperm hsub).length_le
  simpa [topHandles] using hle

/-- Where the counter stands after the detaches. -/
theorem Tower.nextHandle_detachAll (hT : Tower n r) (hnodup : handles.Nodup)
    (hlive : ∀ handle ∈ handles, handle ∈ r.dispatchContainer) :
    (detachAll r handles).nextHandle = BitVec.ofNat 64 (n - handles.length + 1) := by
  have hle := hT.length_le hnodup hlive
  have hsplit : n + 1 = n - handles.length + 1 + handles.length := by omega
  rw [detachAll_nextHandle hnodup hlive, hT.next, hsplit, BitVec.ofNat_add]
  bv_omega

/-- Of the handles handed out again, those that were detached are the free ones. -/
theorem Tower.mem_detachAll_top (hT : Tower n r) (hle : handles.length ≤ n) {handle : SizeT}
    (htop : handle ∈ topHandles n handles.length) :
    handle ∈ (detachAll r handles).dispatchContainer ↔ handle ∉ handles := by
  have hbounds := (mem_topHandles hT.lt hle).1 htop
  rw [mem_detachAll, and_iff_right]
  exact (hT.live handle).2 (by omega)

/-- The k largest handles are the only ones that can be detached without losing a handler. -/
theorem Tower.values_reattach_iff (hT : Tower n r) (hnodup : handles.Nodup)
    (hlive : ∀ handle ∈ handles, handle ∈ r.dispatchContainer)
    (hlen : handlers.length = handles.length) :
    values (attachAll (detachAll r handles) handlers).2.dispatchContainer =
        values (detachAll r handles).dispatchContainer + handlers ↔
      ∀ handle, handle ∈ handles ↔ handle ∈ topHandles n handles.length := by
  have hle := hT.length_le hnodup hlive
  have hlt := hT.lt
  have hzip : ((topHandles n handles.length).zip handlers).map Prod.snd = handlers :=
    List.map_snd_zip (by simp [topHandles, hlen])
  have hfst : ((topHandles n handles.length).zip handlers).map Prod.fst =
      topHandles n handles.length := List.map_fst_zip (by simp [topHandles, hlen])
  -- what was added has the length of `handlers` only where nothing was filtered out
  have hstored : values (attachAll (detachAll r handles) handlers).2.dispatchContainer =
        values (detachAll r handles).dispatchContainer + handlers ↔
      topHandles n handles.length ⊆ handles := by
    rw [values_attachAll (hT.nextHandle_detachAll hnodup hlive) (by omega), add_right_inj, hlen,
      ← topHandles]
    constructor
    · intro hadded handle htop
      have hall := congrArg Multiset.card hadded
      rw [Multiset.coe_card, Multiset.coe_card, List.length_map, ← hzip, List.length_map, hzip,
        List.length_filter_eq_length_iff] at hall
      obtain ⟨p, hp, rfl⟩ := List.mem_map.1 (hfst ▸ htop)
      have hfree := hall p hp
      rw [decide_eq_true_eq, hT.mem_detachAll_top hle htop, not_not] at hfree
      exact hfree
    · intro hsub
      rw [List.filter_eq_self.2 fun p hp => ?_, hzip]
      have htop := (List.of_mem_zip hp).1
      rw [decide_eq_true_eq, hT.mem_detachAll_top hle htop, not_not]
      exact hsub htop
  rw [hstored]
  constructor
  · intro hsub handle
    -- as many handles as there are numbers to hand out
    have hperm := ((nodup_topHandles hlt hle).subperm hsub).perm_of_length_le
      (by simp [topHandles])
    exact hperm.mem_iff.symm
  · intro h handle hmem
    exact (h handle).2 hmem

end

/-- A state in which detaching has been safe: the next attach stores its handler under a handle
that is free. -/
structure Safe (r : EventRouter H) : Prop where
  tower : ∃ n, Tower n r
  fresh : ∀ handler, (r.attach handler).1 ∉ r.dispatchContainer ∧
    (r.attach handler).2.dispatchContainer.lookup (r.attach handler).1 = some handler

/-- What follows when live handles are detached in some order, and as many handlers attached. -/
structure Reattach (n : Nat) (r : EventRouter H) (handles : List SizeT) (handlers : List H) :
    Prop where
  handles_eq : (attachAll (detachAll r handles) handlers).1 = topHandles n handles.length
  /-- The handler is there under the handle if that was detached; or else the old one still is. -/
  stored : ∀ p ∈ (topHandles n handles.length).zip handlers,
    (attachAll (detachAll r handles) handlers).2.dispatchContainer.lookup p.1 =
      if p.1 ∈ handles then some p.2 else r.dispatchContainer.lookup p.1
  others : ∀ handle ∉ topHandles n handles.length,
    (attachAll (detachAll r handles) handlers).2.dispatchContainer.lookup handle =
      (detachAll r handles).dispatchContainer.lookup handle
  lossless : values (attachAll (detachAll r handles) handlers).2.dispatchContainer =
      values (detachAll r handles).dispatchContainer + handlers ↔
    ∀ handle, handle ∈ handles ↔
      n - handles.length + 1 ≤ handle.toNat ∧ handle.toNat ≤ n

/-- A handle that is not detached keeps its handler. -/
theorem lookup_detachAll_of_notMem {handles : List SizeT} {r : EventRouter H} {handle : SizeT}
    (hnot : handle ∉ handles) :
    (detachAll r handles).dispatchContainer.lookup handle = r.dispatchContainer.lookup handle := by
  induction handles generalizing r with
  | nil => rfl
  | cons other handles ih =>
    obtain ⟨hne, hnot⟩ := not_or.1 (mt List.mem_cons.2 hnot)
    rw [detachAll_cons, ih hnot]
    by_cases hmem : other ∈ r.dispatchContainer
    · rw [detach_of_mem hmem, Finmap.lookup_erase_ne hne]
    · rw [detach_of_notMem hmem]

theorem Tower.reattach {n : Nat} {r : EventRouter H} {handles : List SizeT} {handlers : List H}
    (hT : Tower n r) (hnodup : handles.Nodup)
    (hlive : ∀ handle ∈ handles, handle ∈ r.dispatchContainer)
    (hlen : handlers.length = handles.length) : Reattach n r handles handlers := by
  have hle := hT.length_le hnodup hlive
  have hlt := hT.lt
  have hnext := hT.nextHandle_detachAll hnodup hlive
  refine ⟨?_, fun p hp => ?_, fun handle hnot => ?_, ?_⟩
  · rw [attachAll_handles hnext, hlen, topHandles]
  · have htop := (List.of_mem_zip hp).1
    rw [topHandles, ← hlen] at hp
    rw [← hlen] at hnext
    rw [lookup_attachAll hnext (by omega) hp]
    simp only [hT.mem_detachAll_top hle htop]
    by_cases hmem : p.1 ∈ handles
    · rw [if_neg (not_not.2 hmem), if_pos hmem]
    · rw [if_pos hmem, if_neg hmem, lookup_detachAll_of_notMem hmem]
  · rw [topHandles, ← hlen] at hnot
    rw [← hlen] at hnext
    exact lookup_attachAll_of_notMem hnext hnot
  · rw [hT.values_reattach_iff hnodup hlive hlen]
    simp only [mem_topHandles hlt hle]

theorem Tower.safe {n : Nat} {r : EventRouter H} (hT : Tower n r) : Safe r := by
  refine ⟨⟨n, hT⟩, fun handler => ⟨hT.next_notMem, ?_⟩⟩
  rw [attach_dispatchContainer, attach_fst, emplace_of_notMem _ hT.next_notMem,
    Finmap.lookup_insert]

/-- **Exactly which order of detaching is safe.** While the largest live handle goes first, the
live handles are 1..n and the next attach is safe. From any such state, k handles may be detached
in any order: the next k attaches get n-k+1..n, they lose the handlers of those that were not
detached, and none is lost just when exactly those were. -/
theorem detach_order (maxSize : SizeT) (calls : List (Call H))
    (h : Along (step maxSize) LargestFirst fresh calls) :
    Always (step maxSize) Safe fresh calls ∧
    Always (step maxSize) (fun r => ∀ n, Tower n r → 2 ≤ n → ∀ handles : List SizeT,
      handles ≠ [] → handles.Nodup → (∀ handle ∈ handles, handle ∈ r.dispatchContainer) →
      ∀ handlers : List H, handlers.length = handles.length → Reattach n r handles handlers)
      fresh calls := by
  have hinv := always_towerInv h
  exact ⟨hinv.mono fun r ⟨n, hT, _⟩ => hT.safe, hinv.mono fun r _ n hT _ handles _ hnodup hlive
    handlers hlen => hT.reattach hnodup hlive hlen⟩

/-- Two attaches; then handle 1 goes first, and the attach after it gets handle 2, where the handler
of the second attach stays. -/
theorem detach_order_wrong_end : ∃ r : EventRouter Nat,
    exec (step 8) fresh [.attach 10 .returns, .attach 20 .returns] = some r ∧
      Reattach 2 r [1] [30] ∧ (attachAll (detachAll r [1]) [30]).1 = [2] ∧
      (attachAll (detachAll r [1]) [30]).2.dispatchContainer.lookup 2 = some 20 := by
  have hlargest : Along (step 8) LargestFirst (fresh : EventRouter Nat)
      [.attach 10 .returns, .attach 20 .returns] := by
    intro pre call post m heq _
    have hmem : call ∈ [Call.attach 10 .returns, Call.attach 20 .returns] := by rw [heq]; simp
    simp only [List.mem_cons, List.not_mem_nil, or_false] at hmem
    rcases hmem with rfl | rfl <;> rfl
  have htower : Tower 2 (⟨3, Finmap.insert 2 20 (Finmap.insert 1 10 ∅)⟩ : EventRouter Nat) :=
    (tower_fresh.attach (by decide) 10).attach (by decide) 20
  have hrun : exec (step 8) (fresh : EventRouter Nat)
      [.attach 10 .returns, .attach 20 .returns] =
        some ⟨3, Finmap.insert 2 20 (Finmap.insert 1 10 ∅)⟩ := rfl
  have horder := (detach_order 8 _ hlargest).2.last hrun
  have hreattach := horder 2 htower le_rfl [1] (by simp) (by simp) (by simp) [30] rfl
  refine ⟨_, hrun, hreattach, hreattach.handles_eq, ?_⟩
  rw [hreattach.stored (2, 30) (by decide)]
  rfl

end EventRouter
end SeastarStarter
