import Mathlib.Data.List.Sort
import SeastarStarter.Lib.UnorderedMap

/-!
# `std::unordered_map` as an iterator sees it

A walk of the map needs more than its `Finmap`: the nodes in iteration order, each with its
identity (a key erased and inserted again is a new node), and how many elements fit before an
insertion rehashes. Where a new node lands and how a rehash lays the nodes out is the
implementation's choice (`Placement`), so a statement about every `NodeMap` and every
`Placement` covers every iteration order.

`toMap` forgets all of it; `toMap_emplace` and `toMap_erase` are the connection to
`UnorderedMap`.
-/

namespace UnorderedMap

structure Node (K V : Type*) where
  id : Nat
  key : K
  value : V

structure NodeMap (K V : Type*) where
  /-- In iteration order. -/
  nodes : List (Node K V)
  nextId : Nat
  /-- The number of elements the map holds before an insertion rehashes. -/
  capacity : Nat
  ids_lt : ∀ n ∈ nodes, n.id < nextId
  ids : (nodes.map Node.id).Nodup
  keys : (nodes.map Node.key).Nodup

/-- What the implementation does with a new node: link it in at a position of the iteration
order, or rehash, which lays all the nodes out anew. -/
inductive Placement where
  | keep (pos : Nat)
  | rehash (rank : Nat → Nat) (capacity : Nat)

namespace NodeMap

variable {K V : Type*} [DecidableEq K]

def empty (capacity : Nat) : NodeMap K V := ⟨[], 0, capacity, by simp, by simp, by simp⟩

def find? (m : NodeMap K V) (k : K) : Option (Node K V) := m.nodes.find? fun n => n.key = k

def contains (m : NodeMap K V) (k : K) : Prop := k ∈ m.nodes.map Node.key

instance (m : NodeMap K V) (k : K) : Decidable (m.contains k) :=
  inferInstanceAs (Decidable (k ∈ m.nodes.map Node.key))

/-- `emplace(k, _)` inserts and does not fit. -/
def Rehashes (m : NodeMap K V) (k : K) : Prop := ¬ m.contains k ∧ m.capacity ≤ m.nodes.length

instance (m : NodeMap K V) (k : K) : Decidable (m.Rehashes k) :=
  inferInstanceAs (Decidable (_ ∧ _))

/-- The nodes after a new one has been placed. -/
def place (nodes : List (Node K V)) (n : Node K V) : Placement → List (Node K V)
  | .keep pos => nodes.take pos ++ n :: nodes.drop pos
  | .rehash rank _ => (n :: nodes).insertionSort fun a b => rank a.id ≤ rank b.id

omit [DecidableEq K] in
theorem place_perm (nodes : List (Node K V)) (n : Node K V) (pl : Placement) :
    (place nodes n pl).Perm (n :: nodes) := by
  cases pl with
  | keep pos =>
    refine List.perm_middle.trans ?_
    rw [List.take_append_drop]
  | rehash rank capacity => exact List.perm_insertionSort _ _

/-- A new node `(k, v)` on a map that does not hold `k`. -/
def insertNew (m : NodeMap K V) (k : K) (v : V) (hk : ¬ m.contains k) (pl : Placement)
    (capacity : Nat) : NodeMap K V where
  nodes := place m.nodes ⟨m.nextId, k, v⟩ pl
  nextId := m.nextId + 1
  capacity := capacity
  ids_lt n hn := by
    rcases List.mem_cons.1 ((place_perm _ _ pl).mem_iff.1 hn) with rfl | hn
    · exact Nat.lt_succ_self _
    · exact Nat.lt_succ_of_lt (m.ids_lt n hn)
  ids := by
    rw [((place_perm m.nodes ⟨m.nextId, k, v⟩ pl).map Node.id).nodup_iff, List.map_cons,
      List.nodup_cons]
    refine ⟨fun h => ?_, m.ids⟩
    obtain ⟨n, hn, hid⟩ := List.mem_map.1 h
    exact Nat.ne_of_lt (m.ids_lt n hn) hid
  keys := by
    rw [((place_perm m.nodes ⟨m.nextId, k, v⟩ pl).map Node.key).nodup_iff, List.map_cons,
      List.nodup_cons]
    exact ⟨hk, m.keys⟩

/-- `emplace(k, v)`; `none` when the placement is not one the implementation may choose. -/
def emplace (m : NodeMap K V) (k : K) (v : V) (pl : Placement) : Option (NodeMap K V) :=
  if hk : m.contains k then some m
  else match pl with
    | .keep _ => if m.nodes.length < m.capacity then some (m.insertNew k v hk pl m.capacity) else none
    | .rehash _ capacity =>
      if m.capacity ≤ m.nodes.length ∧ m.nodes.length < capacity then
        some (m.insertNew k v hk pl capacity)
      else none

/-- `erase(k)`. -/
def erase (m : NodeMap K V) (k : K) : NodeMap K V where
  nodes := m.nodes.filter fun n => n.key ≠ k
  nextId := m.nextId
  capacity := m.capacity
  ids_lt n hn := m.ids_lt n (List.mem_of_mem_filter hn)
  ids := m.ids.sublist (List.filter_sublist.map _)
  keys := m.keys.sublist (List.filter_sublist.map _)

/-- `++it` from the node `id`: the node after it, `none` at the end. -/
def after (m : NodeMap K V) (id : Nat) : Option (Node K V) :=
  (m.nodes.dropWhile fun n => n.id ≠ id).tail.head?

/-! ### What the operations leave -/

variable {m m' : NodeMap K V} {k : K} {v : V} {pl : Placement}

/-- Everything `emplace` can do: nothing, link a node in, or rehash. -/
theorem emplace_cases (h : m.emplace k v pl = some m') :
    (m.contains k ∧ m' = m) ∨
    (∃ hk : ¬ m.contains k, (∃ pos, pl = .keep pos) ∧ m.nodes.length < m.capacity ∧
      m' = m.insertNew k v hk pl m.capacity) ∨
    (∃ (hk : ¬ m.contains k) (capacity : Nat), m.capacity ≤ m.nodes.length ∧
      m' = m.insertNew k v hk pl capacity) := by
  unfold emplace at h
  split at h
  · rename_i hk; cases h; exact .inl ⟨hk, rfl⟩
  · rename_i hk
    cases pl with
    | keep pos =>
      dsimp only at h
      split at h
      · rename_i hlt; cases h; exact .inr (.inl ⟨hk, ⟨pos, rfl⟩, hlt, rfl⟩)
      · cases h
    | rehash rank capacity =>
      dsimp only at h
      split at h
      · rename_i hle; cases h; exact .inr (.inr ⟨hk, capacity, hle.1, rfl⟩)
      · cases h

/-- Without a rehash, the new node (if any) comes between the nodes that were there. -/
theorem emplace_keep (h : m.emplace k v pl = some m') (hr : ¬ m.Rehashes k) :
    m' = m ∨ ∃ (n : Node K V) (pos : Nat), n.id = m.nextId ∧
      m'.nodes = m.nodes.take pos ++ n :: m.nodes.drop pos := by
  rcases emplace_cases h with ⟨-, rfl⟩ | ⟨hk, ⟨pos, rfl⟩, -, rfl⟩ | ⟨hk, capacity, hle, rfl⟩
  · exact .inl rfl
  · exact .inr ⟨⟨m.nextId, k, v⟩, pos, rfl, rfl⟩
  · exact absurd ⟨hk, hle⟩ hr

theorem nextId_le_of_emplace (h : m.emplace k v pl = some m') : m.nextId ≤ m'.nextId := by
  rcases emplace_cases h with ⟨-, rfl⟩ | ⟨hk, -, -, rfl⟩ | ⟨hk, capacity, -, rfl⟩
  · exact Nat.le_refl _
  · exact Nat.le_succ _
  · exact Nat.le_succ _

/-- `emplace` keeps every node. -/
theorem mem_of_emplace (h : m.emplace k v pl = some m') {n : Node K V} (hn : n ∈ m.nodes) :
    n ∈ m'.nodes := by
  have hplace : n ∈ place m.nodes ⟨m.nextId, k, v⟩ pl :=
    (place_perm _ _ pl).mem_iff.2 (List.mem_cons_of_mem _ hn)
  rcases emplace_cases h with ⟨-, rfl⟩ | ⟨hk, -, -, rfl⟩ | ⟨hk, capacity, -, rfl⟩
  · exact hn
  · exact hplace
  · exact hplace

theorem mem_emplace (h : m.emplace k v pl = some m') {n : Node K V} (hn : n ∈ m'.nodes) :
    n ∈ m.nodes ∨ n.id = m.nextId := by
  have hplace : n ∈ place m.nodes ⟨m.nextId, k, v⟩ pl → n ∈ m.nodes ∨ n.id = m.nextId := by
    intro hn
    rcases List.mem_cons.1 ((place_perm _ _ pl).mem_iff.1 hn) with rfl | hn
    · exact .inr rfl
    · exact .inl hn
  rcases emplace_cases h with ⟨-, rfl⟩ | ⟨hk, -, -, rfl⟩ | ⟨hk, capacity, -, rfl⟩
  · exact .inl hn
  · exact hplace hn
  · exact hplace hn

omit [DecidableEq K] in
/-- Nodes of one map are told apart by their identity. -/
theorem eq_of_id {m : NodeMap K V} {a b : Node K V} (ha : a ∈ m.nodes) (hb : b ∈ m.nodes)
    (h : a.id = b.id) : a = b :=
  List.inj_on_of_nodup_map m.ids ha hb h

omit [DecidableEq K] in
theorem eq_of_key {m : NodeMap K V} {a b : Node K V} (ha : a ∈ m.nodes) (hb : b ∈ m.nodes)
    (h : a.key = b.key) : a = b :=
  List.inj_on_of_nodup_map m.keys ha hb h

theorem find?_some {n : Node K V} : m.find? k = some n ↔ n ∈ m.nodes ∧ n.key = k := by
  constructor
  · intro h
    exact ⟨List.mem_of_find?_eq_some h, by simpa using List.find?_some h⟩
  · rintro ⟨hn, hk⟩
    cases hf : m.find? k with
    | none => exact absurd hk (by simpa using List.find?_eq_none.1 hf n hn)
    | some n' =>
      have hk' : n'.key = k := by simpa using List.find?_some hf
      rw [eq_of_key (List.mem_of_find?_eq_some hf) hn (hk'.trans hk.symm)]

theorem find?_none : m.find? k = none ↔ ¬ m.contains k := by
  unfold find? contains
  rw [List.find?_eq_none]
  simp

theorem mem_erase {n : Node K V} : n ∈ (m.erase k).nodes ↔ n ∈ m.nodes ∧ n.key ≠ k := by
  simp [erase]

omit [DecidableEq K] in
theorem after_eq {m : NodeMap K V} {A B : List (Node K V)} {cur : Node K V} (h : m.nodes = A ++ cur :: B) :
    m.after cur.id = B.head? := by
  have hA : ∀ n ∈ A, decide (n.id ≠ cur.id) = true := by
    intro n hn
    have hids := m.ids
    rw [h, List.map_append, List.map_cons] at hids
    have hne := List.disjoint_of_nodup_append hids (List.mem_map_of_mem hn)
    simpa using fun heq => hne (List.mem_cons.2 (.inl heq))
  unfold after
  rw [h, List.dropWhile_append_of_pos hA]
  simp

omit [DecidableEq K] in
theorem mem_of_after {m : NodeMap K V} {id : Nat} {n : Node K V} (h : m.after id = some n) :
    n ∈ m.nodes :=
  (List.dropWhile_sublist _).subset (List.mem_of_mem_tail (List.mem_of_head? h))

/-! ### Walking the map while it changes

A walk stands on a node; `visits` counts how often each identity has been reached. As long as
the node it stands on stays and nothing rehashes, the nodes of `olds` before the walk have been
reached once and nothing behind it has been reached. -/

/-- The walk stands on the node `it` of `nodes`. -/
def Standing (olds : List Nat) (visits : Nat → Nat) (nodes : List (Node K V)) (it : Nat) : Prop :=
  ∃ A cur B, nodes = A ++ cur :: B ∧ cur.id = it ∧ (∀ n ∈ B, visits n.id = 0) ∧
    ∀ n ∈ A ++ [cur], n.id ∈ olds → visits n.id = 1

omit [DecidableEq K] in
/-- A new node on either side of the walk. -/
theorem Standing.insert {olds : List Nat} {visits : Nat → Nat} {nodes : List (Node K V)} {it : Nat}
    (h : Standing olds visits nodes it) {n : Node K V} (hn : n.id ∉ olds) (hv : visits n.id = 0)
    (pos : Nat) : Standing olds visits (nodes.take pos ++ n :: nodes.drop pos) it := by
  obtain ⟨A, cur, B, rfl, hit, hB, hA⟩ := h
  by_cases hpos : pos ≤ A.length
  · refine ⟨A.take pos ++ n :: A.drop pos, cur, B, ?_, hit, hB, fun x hx hold => ?_⟩
    · rw [List.take_append_of_le_length hpos, List.drop_append_of_le_length hpos]
      simp
    · simp only [List.mem_append, List.mem_cons, List.not_mem_nil, or_false] at hx
      rcases hx with (hx | rfl | hx) | rfl
      · exact hA x (List.mem_append_left _ (List.mem_of_mem_take hx)) hold
      · exact absurd hold hn
      · exact hA x (List.mem_append_left _ (List.mem_of_mem_drop hx)) hold
      · exact hA x (List.mem_append_right _ List.mem_cons_self) hold
  · obtain ⟨j, rfl⟩ : ∃ j, pos = A.length + (j + 1) := ⟨pos - A.length - 1, by omega⟩
    refine ⟨A, cur, B.take j ++ n :: B.drop j, ?_, hit, fun x hx => ?_, hA⟩
    · rw [List.take_length_add_append, List.drop_length_add_append]
      simp
    · rcases List.mem_append.1 hx with hx | hx
      · exact hB x (List.mem_of_mem_take hx)
      · rcases List.mem_cons.1 hx with rfl | hx
        · exact hv
        · exact hB x (List.mem_of_mem_drop hx)

omit [DecidableEq K] in
/-- Nodes other than the one the walk stands on go away. -/
theorem Standing.filter {olds : List Nat} {visits : Nat → Nat} {nodes : List (Node K V)} {it : Nat}
    (h : Standing olds visits nodes it) {p : Node K V → Bool} (hp : ∀ n ∈ nodes, n.id = it → p n) :
    Standing olds visits (nodes.filter p) it := by
  obtain ⟨A, cur, B, rfl, hit, hB, hA⟩ := h
  have hcur : p cur = true := hp cur (by simp) hit
  refine ⟨A.filter p, cur, B.filter p, ?_, hit, fun n hn => hB n (List.mem_of_mem_filter hn),
    fun n hn hold => ?_⟩
  · rw [List.filter_append, List.filter_cons_of_pos hcur]
  · rcases List.mem_append.1 hn with hn | hn
    · exact hA n (List.mem_append_left _ (List.mem_of_mem_filter hn)) hold
    · exact hA n (List.mem_append_right _ hn) hold

omit [DecidableEq K] in
/-- The walk ends: every old node that is left has been reached once. -/
theorem Standing.finish {m : NodeMap K V} {olds : List Nat} {visits : Nat → Nat} {it : Nat}
    (h : Standing olds visits m.nodes it) (hafter : m.after it = none) :
    ∀ n ∈ m.nodes, n.id ∈ olds → visits n.id = 1 := by
  obtain ⟨A, cur, B, heq, rfl, -, hA⟩ := h
  rw [after_eq heq, List.head?_eq_none_iff] at hafter
  subst hafter
  rwa [heq]

omit [DecidableEq K] in
/-- The walk goes on to a node that had not been reached. -/
theorem Standing.advance {m : NodeMap K V} {olds : List Nat} {visits visits' : Nat → Nat} {it : Nat}
    (h : Standing olds visits m.nodes it) {n : Node K V} (hafter : m.after it = some n)
    (hn : visits' n.id = visits n.id + 1) (hne : ∀ e, e ≠ n.id → visits' e = visits e) :
    visits n.id = 0 ∧ Standing olds visits' m.nodes n.id := by
  obtain ⟨A, cur, B, heq, rfl, hB, hA⟩ := h
  rw [after_eq heq] at hafter
  obtain ⟨B', rfl⟩ : ∃ B', B = n :: B' := by
    cases B with
    | nil => cases hafter
    | cons b B' => cases hafter; exact ⟨B', rfl⟩
  have hzero : visits n.id = 0 := hB n List.mem_cons_self
  have hids := m.ids
  rw [heq, show A ++ cur :: n :: B' = (A ++ [cur]) ++ n :: B' by simp, List.map_append,
    List.map_cons] at hids
  have hright : ∀ x ∈ B', x.id ≠ n.id := by
    intro x hx hid
    have hnd := (List.nodup_append.1 hids).2.1
    exact (List.nodup_cons.1 hnd).1 (hid ▸ List.mem_map_of_mem hx)
  have hleft : ∀ x ∈ A ++ [cur], x.id ≠ n.id := by
    intro x hx hid
    exact List.disjoint_of_nodup_append hids (List.mem_map_of_mem hx) (hid ▸ List.mem_cons_self)
  refine ⟨hzero, A ++ [cur], n, B', by rw [heq]; simp, rfl, fun x hx => ?_, fun x hx hold => ?_⟩
  · rw [hne x.id (hright x hx)]
    exact hB x (List.mem_cons_of_mem _ hx)
  · rcases List.mem_append.1 hx with hx | hx
    · rw [hne x.id (hleft x hx)]
      exact hA x hx hold
    · rw [List.mem_singleton] at hx
      subst hx
      rw [hn, hzero]

/-! ### The map behind the nodes -/

/-- The map without its iteration order. -/
def toMap (m : NodeMap K V) : Map K V :=
  AList.toFinmap ⟨m.nodes.map fun n => ⟨n.key, n.value⟩, by
    unfold List.NodupKeys List.keys
    rw [List.map_map]
    exact m.keys⟩

omit [DecidableEq K] in
theorem entries_toMap (m : NodeMap K V) :
    m.toMap.entries = (m.nodes.map fun n => (⟨n.key, n.value⟩ : Sigma fun _ : K => V)) := rfl

theorem lookup_toMap : m.toMap.lookup k = some v ↔ ∃ n ∈ m.nodes, n.key = k ∧ n.value = v := by
  rw [Finmap.lookup_eq_some_iff, entries_toMap, Multiset.mem_coe, List.mem_map]
  refine exists_congr fun n => and_congr_right fun _ => ?_
  rw [Sigma.mk.injEq, heq_eq_eq]

theorem mem_toMap : k ∈ m.toMap ↔ m.contains k := by
  rw [Finmap.mem_iff, contains, List.mem_map]
  constructor
  · rintro ⟨v, hv⟩
    obtain ⟨n, hn, hk, -⟩ := lookup_toMap.1 hv
    exact ⟨n, hn, hk⟩
  · rintro ⟨n, hn, hk⟩
    exact ⟨n.value, lookup_toMap.2 ⟨n, hn, hk, rfl⟩⟩

theorem toMap_insertNew (hk : ¬ m.contains k) (capacity : Nat) :
    (m.insertNew k v hk pl capacity).toMap = m.toMap.insert k v := by
  apply Finmap.ext
  rw [Finmap.entries_insert_of_notMem (mt mem_toMap.1 hk), entries_toMap, entries_toMap]
  exact Multiset.coe_eq_coe.2 ((place_perm m.nodes ⟨m.nextId, k, v⟩ pl).map _)

/-- **`emplace` on the nodes is `emplace` on the map**, wherever the node is placed. -/
theorem toMap_emplace (h : m.emplace k v pl = some m') :
    m'.toMap = UnorderedMap.emplace m.toMap k v := by
  rcases emplace_cases h with ⟨hk, rfl⟩ | ⟨hk, -, -, rfl⟩ | ⟨hk, capacity, -, rfl⟩
  · rw [emplace_of_mem _ (mem_toMap.2 hk)]
  · rw [emplace_of_notMem _ (mt mem_toMap.1 hk), toMap_insertNew]
  · rw [emplace_of_notMem _ (mt mem_toMap.1 hk), toMap_insertNew]

theorem toMap_erase (m : NodeMap K V) (k : K) : (m.erase k).toMap = m.toMap.erase k := by
  apply Finmap.ext_lookup
  intro x
  apply Option.ext
  intro v
  by_cases hx : x = k
  · subst hx
    rw [Finmap.lookup_erase, lookup_toMap]
    simp only [mem_erase, reduceCtorEq, iff_false]
    rintro ⟨n, ⟨-, hne⟩, heq, -⟩
    exact hne heq
  · rw [Finmap.lookup_erase_ne hx, lookup_toMap, lookup_toMap]
    refine exists_congr fun n => ?_
    rw [mem_erase]
    constructor
    · rintro ⟨⟨hn, -⟩, heq, hv⟩; exact ⟨hn, heq, hv⟩
    · rintro ⟨hn, heq, hv⟩; exact ⟨⟨hn, heq ▸ hx⟩, heq, hv⟩

end NodeMap
end UnorderedMap
