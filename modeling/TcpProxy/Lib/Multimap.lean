import Mathlib.Tactic.Common
import Mathlib.Data.List.Basic
import Mathlib.Data.List.Nodup

/-!
# Multimaps

A multimap from keys to values as the list of its entries, several entries to a key:
`insert` adds an entry, `values` are the values filed under a key, `erase` removes every entry of
a key (`std::unordered_multimap`: `insert`, `equal_range`, `erase`).
-/

/-- The entries of a multimap. -/
abbrev Multimap (κ ν : Type*) := List (κ × ν)

namespace Multimap

variable {κ ν : Type*} [DecidableEq κ]

def insert (m : Multimap κ ν) (k : κ) (v : ν) : Multimap κ ν := m ++ [(k, v)]

/-- The entries whose key is not `k`. -/
def erase (m : Multimap κ ν) (k : κ) : Multimap κ ν := m.filter fun e => e.1 ≠ k

/-- The values filed under `k`. -/
def values (m : Multimap κ ν) (k : κ) : List ν := (m.filter fun e => e.1 = k).map (·.2)

variable {m : Multimap κ ν} {k j : κ} {v : ν}

omit [DecidableEq κ] in
@[simp] theorem mem_insert {e : κ × ν} : e ∈ m.insert k v ↔ e ∈ m ∨ e = (k, v) := by
  simp [Multimap.insert]

@[simp] theorem mem_erase {e : κ × ν} : e ∈ erase m k ↔ e ∈ m ∧ e.1 ≠ k := by simp [erase]

@[simp] theorem mem_values : v ∈ values m k ↔ (k, v) ∈ m := by
  simp only [values, List.mem_map, List.mem_filter, decide_eq_true_eq]
  constructor
  · rintro ⟨⟨a, b⟩, ⟨hm, rfl⟩, rfl⟩
    exact hm
  · exact fun h => ⟨(k, v), ⟨h, rfl⟩, rfl⟩

theorem values_eq_nil : values m k = [] ↔ ∀ v, (k, v) ∉ m := by
  rw [List.eq_nil_iff_forall_not_mem]
  simp

/-- Erasing a key that has no entry changes nothing. -/
theorem erase_of_values_nil (h : values m k = []) : erase m k = m := by
  rw [erase, List.filter_eq_self]
  rintro ⟨a, b⟩ hm
  by_cases e : a = k
  · subst e; exact absurd hm (values_eq_nil.1 h b)
  · simpa using e

theorem erase_comm (m : Multimap κ ν) (j k : κ) : erase (erase m j) k = erase (erase m k) j := by
  simp only [erase, List.filter_filter]
  exact List.filter_congr fun e _ => Bool.and_comm _ _

theorem values_erase_self (m : Multimap κ ν) (k : κ) : values (erase m k) k = [] :=
  values_eq_nil.2 fun _ h => (mem_erase.1 h).2 rfl

theorem values_erase_of_ne (m : Multimap κ ν) (h : j ≠ k) : values (erase m j) k = values m k := by
  simp only [values, erase, List.filter_filter]
  congr 1
  refine List.filter_congr fun e _ => ?_
  by_cases he : e.1 = k
  · simp [he, Ne.symm h]
  · simp [he]

omit [DecidableEq κ] in
theorem nodup_insert (h : (m.map (·.2)).Nodup) (hv : ∀ i, (i, v) ∉ m) :
    ((m.insert k v).map (·.2)).Nodup := by
  rw [Multimap.insert, List.map_append, List.nodup_append]
  refine ⟨h, by simp, ?_⟩
  rintro a ha b hb rfl
  obtain ⟨⟨i, x⟩, hm, rfl⟩ := List.mem_map.1 ha
  simp only [List.map_cons, List.map_nil, List.mem_singleton] at hb
  exact hv i (hb ▸ hm)

omit [DecidableEq κ] in
/-- Where the values are distinct, each has one key. -/
theorem key_unique {i j : κ} (h : (m.map (·.2)).Nodup) (hi : (i, v) ∈ m) (hj : (j, v) ∈ m) :
    i = j :=
  congrArg Prod.fst (List.inj_on_of_nodup_map h hi hj rfl)

end Multimap
