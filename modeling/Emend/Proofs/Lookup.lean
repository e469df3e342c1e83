import Mathlib.Data.List.Nodup

/-! Look-ups in lists of pairs. Where each key stands once, a look-up and membership say the same. -/

namespace Emend

section

variable {κ α : Type} [BEq κ] [LawfulBEq κ] {pairs : List (κ × α)} {key : κ} {value : α}

theorem lookup_eq_none_iff_not_mem (pairs : List (κ × α)) (key : κ) :
    pairs.lookup key = none ↔ key ∉ pairs.map Prod.fst := by
  rw [List.lookup_eq_none_iff]
  constructor
  · intro none member
    obtain ⟨pair, among, rfl⟩ := List.mem_map.mp member
    simpa using none pair among
  · intro absent pair member
    apply bne_iff_ne.mpr
    rintro rfl
    exact absent (List.mem_map.mpr ⟨pair, member, rfl⟩)

theorem exists_lookup_of_mem (member : key ∈ pairs.map Prod.fst) : ∃ value, pairs.lookup key = some value := by
  cases found : pairs.lookup key with
  | none => exact absurd member ((lookup_eq_none_iff_not_mem pairs key).mp found)
  | some value => exact ⟨value, rfl⟩

theorem mem_of_lookup (found : pairs.lookup key = some value) : key ∈ pairs.map Prod.fst := by
  by_cases member : key ∈ pairs.map Prod.fst
  · exact member
  · rw [(lookup_eq_none_iff_not_mem pairs key).mpr member] at found
    cases found

theorem pair_mem_of_lookup (found : pairs.lookup key = some value) : (key, value) ∈ pairs := by
  obtain ⟨_, _, split, _⟩ := List.lookup_eq_some_iff.mp found
  exact split ▸ List.mem_append_right _ List.mem_cons_self

theorem lookup_of_mem (once : (pairs.map Prod.fst).Nodup) (member : (key, value) ∈ pairs) :
    pairs.lookup key = some value := by
  induction pairs with
  | nil => cases member
  | cons pair pairs ih =>
    obtain ⟨other, first⟩ := pair
    rw [List.map_cons, List.nodup_cons] at once
    rcases List.mem_cons.mp member with same | later
    · obtain ⟨rfl, rfl⟩ := Prod.mk.inj same
      exact List.lookup_cons_self
    · have apart : key ≠ other := by
        rintro rfl
        exact once.1 (List.mem_map.mpr ⟨_, later, rfl⟩)
      rw [List.lookup_cons, beq_eq_false_iff_ne.mpr apart]
      exact ih once.2 later

theorem nodup_keys_concat (once : (pairs.map Prod.fst).Nodup) (fresh : pairs.lookup key = none) (value : α) :
    ((pairs ++ [(key, value)]).map Prod.fst).Nodup := by
  have outside := (lookup_eq_none_iff_not_mem pairs key).mp fresh
  rw [List.map_append, List.nodup_append]
  refine ⟨once, List.pairwise_singleton _ _, fun name member other last same => outside ?_⟩
  obtain rfl : other = key := List.mem_singleton.mp last
  exact same ▸ member

end

end Emend
