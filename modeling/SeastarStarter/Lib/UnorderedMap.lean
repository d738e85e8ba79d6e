import Mathlib.Data.Finmap

/-!
# `std::unordered_map` as a finite map

The iteration order of an `unordered_map` is unspecified, so the map itself is a `Finmap`: its
`entries` are a multiset, and an iteration is any list of them. `emplace` is the one operation
Mathlib does not have: it inserts only when the key is absent.
-/

namespace UnorderedMap

variable {K V : Type*} [DecidableEq K]

/-- `std::unordered_map<K, V>`. -/
abbrev Map (K V : Type*) := Finmap (fun _ : K => V)

/-- `emplace(k, v)`: a key that is present keeps its value. -/
def emplace (m : Map K V) (k : K) (v : V) : Map K V := if k ∈ m then m else m.insert k v

/-- `size()`. -/
def size (m : Map K V) : Nat := m.entries.card

/-- The mapped values, one for each entry. -/
def values (m : Map K V) : Multiset V := m.entries.map (·.2)

omit [DecidableEq K] in
theorem values_eq_zero {m : Map K V} (h : size m = 0) : values m = 0 := by
  rw [values, Multiset.card_eq_zero.1 h, Multiset.map_zero]

theorem emplace_of_mem {m : Map K V} {k : K} (v : V) (h : k ∈ m) : emplace m k v = m := if_pos h

theorem emplace_of_notMem {m : Map K V} {k : K} (v : V) (h : k ∉ m) :
    emplace m k v = m.insert k v := if_neg h

theorem entries_emplace_of_notMem {m : Map K V} {k : K} (v : V) (h : k ∉ m) :
    (emplace m k v).entries = ⟨k, v⟩ ::ₘ m.entries := by
  rw [emplace_of_notMem v h, Finmap.entries_insert_of_notMem h]

theorem mem_emplace {m : Map K V} {k k' : K} {v : V} : k' ∈ emplace m k v ↔ k' = k ∨ k' ∈ m := by
  by_cases h : k ∈ m
  · rw [emplace_of_mem v h]
    exact ⟨Or.inr, fun h' => h'.elim (fun heq => heq ▸ h) id⟩
  · rw [emplace_of_notMem v h, Finmap.mem_insert]

/-- Erasing a present key takes exactly its entry away. -/
theorem entries_eq_cons_erase {m : Map K V} {k : K} {v : V} (h : m.lookup k = some v) :
    m.entries = ⟨k, v⟩ ::ₘ (m.erase k).entries := by
  have hk : k ∉ m.erase k := Finmap.notMem_erase_self
  have hm : (m.erase k).insert k v = m := by
    apply Finmap.ext_lookup
    intro x
    by_cases hx : x = k
    · subst hx; rw [Finmap.lookup_insert, h]
    · rw [Finmap.lookup_insert_of_ne _ hx, Finmap.lookup_erase_ne hx]
  rw [← Finmap.entries_insert_of_notMem hk, hm]

theorem size_eq_succ_erase {m : Map K V} {k : K} {v : V} (h : m.lookup k = some v) :
    size m = size (m.erase k) + 1 := by
  unfold size
  rw [entries_eq_cons_erase h, Multiset.card_cons]

theorem size_insert_of_notMem {m : Map K V} {k : K} (v : V) (h : k ∉ m) :
    size (m.insert k v) = size m + 1 := by
  unfold size
  rw [Finmap.entries_insert_of_notMem h, Multiset.card_cons]

theorem values_insert_of_notMem {m : Map K V} {k : K} (v : V) (h : k ∉ m) :
    values (m.insert k v) = v ::ₘ values m := by
  unfold values
  rw [Finmap.entries_insert_of_notMem h, Multiset.map_cons]

theorem values_eq_cons_erase {m : Map K V} {k : K} {v : V} (h : m.lookup k = some v) :
    values m = v ::ₘ values (m.erase k) := by
  unfold values
  rw [entries_eq_cons_erase h, Multiset.map_cons]

theorem mem_of_mem_entries {m : Map K V} {k : K} {v : V} (h : (⟨k, v⟩ : Sigma _) ∈ m.entries) :
    k ∈ m :=
  Finmap.mem_of_lookup_eq_some (Finmap.lookup_eq_some_iff.2 h)

end UnorderedMap
