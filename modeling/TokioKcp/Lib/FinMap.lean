import Mathlib.Data.List.AList
import Mathlib.Data.List.Nodup
import Mathlib.Data.List.Range

/-- A finite map is an association list without repeated keys. -/
abbrev FinMap.{u, v} (κ : Type u) (ν : Type v) := AList (fun _ : κ => ν)

namespace FinMap
set_option autoImplicit true

variable {κ : Type u} {ν : Type v}

def size (m : FinMap κ ν) : Nat := m.keys.length

def retain (p : κ → Bool) (m : FinMap κ ν) : FinMap κ ν :=
  ⟨m.entries.filter (fun e => p e.1),
    List.Nodup.sublist (List.filter_sublist.map Sigma.fst) m.nodupKeys⟩

/-- The map with a default value stored at the key if it had none, and the value there. -/
def orInsert [DecidableEq κ] (m : FinMap κ ν) (k : κ) (default : ν) : FinMap κ ν × ν :=
  match m.lookup k with
  | some v => (m, v)
  | none => (m.insert k default, default)

theorem mem_keys_iff [DecidableEq κ] {m : FinMap κ ν} :
    k ∈ m.keys ↔ ∃ v, m.lookup k = some v := by
  rw [← AList.mem_keys, ← AList.lookup_isSome, Option.isSome_iff_exists]

theorem lookup_eq_some [DecidableEq κ] {m : FinMap κ ν} :
    m.lookup k = some v ↔ ⟨k, v⟩ ∈ m.entries := AList.mem_lookup_iff

theorem lookup_retain [DecidableEq κ] (p : κ → Bool) (m : FinMap κ ν) (k : κ) :
    (m.retain p).lookup k = if p k then m.lookup k else none := by
  apply Option.ext
  intro v
  rw [lookup_eq_some]
  split
  · rename_i hp
    rw [lookup_eq_some, retain, List.mem_filter]
    exact and_iff_left hp
  · rename_i hp
    rw [retain, List.mem_filter]
    exact ⟨fun h => absurd h.2 hp, fun h => by cases h⟩

theorem lookup_insert_of [DecidableEq κ] (m : FinMap κ ν) (k k' : κ) (v : ν) :
    (m.insert k v).lookup k' = if k' = k then some v else m.lookup k' := by
  split
  · rename_i h
    rw [h, AList.lookup_insert]
  · rename_i h
    exact AList.lookup_insert_ne h

theorem lookup_erase_of [DecidableEq κ] (m : FinMap κ ν) (k k' : κ) :
    (m.erase k).lookup k' = if k' = k then none else m.lookup k' := by
  split
  · rename_i h
    rw [h, AList.lookup_erase]
  · rename_i h
    exact AList.lookup_erase_ne h

theorem lookup_orInsert_insert [DecidableEq κ] (m : FinMap κ ν) (k k' : κ) (v₀ v : ν) :
    ((m.orInsert k v₀).1.insert k v).lookup k' = if k' = k then some v else m.lookup k' := by
  rw [lookup_insert_of]
  split
  · rfl
  · rename_i h
    rw [orInsert]
    split
    · rfl
    · rw [lookup_insert_of, if_neg h]

theorem orInsert_snd [DecidableEq κ] (m : FinMap κ ν) (k : κ) (v₀ : ν) :
    (m.orInsert k v₀).2 = (m.lookup k).getD v₀ := by
  rw [orInsert]
  cases m.lookup k <;> rfl

theorem orInsert_fst_of_some [DecidableEq κ] {m : FinMap κ ν} (h : m.lookup k = some v)
    (v₀ : ν) : (m.orInsert k v₀).1 = m := by
  simp only [orInsert, h]

theorem size_le_of_keys_lt {m : FinMap Nat ν} (h : ∀ k ∈ m.keys, a ≤ k ∧ k < a + n) :
    m.size ≤ n := by
  have hsub : m.keys ⊆ List.range' a n := by
    intro k hk
    rw [List.mem_range'_1]
    exact h k hk
  have hle := (List.subperm_of_subset m.keys_nodup hsub).length_le
  rwa [List.length_range'] at hle

theorem size_le_of_keys_subset {m m' : FinMap κ ν} (h : m.keys ⊆ m'.keys) :
    m.size ≤ m'.size :=
  (List.subperm_of_subset m.keys_nodup h).length_le

end FinMap
