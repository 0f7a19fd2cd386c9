import Mathlib

open Std (ExtTreeMap)

namespace NatMap

variable {V : Type*}

/-- Lookups of maps keyed by natural numbers, with plain equality of keys in
place of the comparison. -/
theorem getElem?_insert (m : ExtTreeMap Nat V) (k a : Nat) (v : V) :
    (m.insert k v)[a]? = if a = k then some v else m[a]? := by
  by_cases same : a = k
  · simp [same]
  · simp [ExtTreeMap.getElem?_insert, same, Ne.symm same]

theorem getElem?_erase (m : ExtTreeMap Nat V) (k a : Nat) :
    (m.erase k)[a]? = if a = k then none else m[a]? := by
  by_cases same : a = k
  · simp [same]
  · simp [ExtTreeMap.getElem?_erase, same, Ne.symm same]

variable {m : ExtTreeMap Nat V} {k : Nat}

theorem of_insert {a : Nat} {v w : V} (present : (m.insert k v)[a]? = some w) :
    a = k ∧ w = v ∨ a ≠ k ∧ m[a]? = some w := by
  rw [getElem?_insert] at present
  split at present
  · rename_i same
    exact .inl ⟨same, (Option.some.inj present).symm⟩
  · rename_i different
    exact .inr ⟨different, present⟩

theorem of_erase {a : Nat} {v : V} (present : (m.erase k)[a]? = some v) : m[a]? = some v := by
  rw [getElem?_erase] at present
  split at present
  · cases present
  · exact present

theorem mem_insert {a : Nat} {v : V} : a ∈ m.insert k v ↔ a = k ∨ a ∈ m := by
  simp only [ExtTreeMap.mem_insert, Nat.compare_eq_eq]
  exact or_congr_left eq_comm

theorem mem_iff_present {a : Nat} : a ∈ m ↔ ∃ v, m[a]? = some v := by
  rw [ExtTreeMap.mem_iff_isSome_getElem?, Option.isSome_iff_exists]

theorem erase_insert_of_absent (v : V) (absent : m[k]? = none) : (m.insert k v).erase k = m := by
  apply ExtTreeMap.ext_getElem?
  intro a
  rw [getElem?_erase, getElem?_insert]
  by_cases same : a = k
  · simp [same, absent]
  · simp [same]

theorem size_insert_of_absent (v : V) (absent : m[k]? = none) : (m.insert k v).size = m.size + 1 := by
  have missing : k ∉ m := by simpa using absent
  simp [ExtTreeMap.size_insert, missing]

theorem size_erase_of_present {v : V} (present : m[k]? = some v) : (m.erase k).size + 1 = m.size := by
  have member : k ∈ m := mem_iff_present.mpr ⟨v, present⟩
  have nonempty : m.size ≠ 0 := by
    intro empty
    have none := ExtTreeMap.eq_empty_iff_size_eq_zero.mpr empty
    simp [none] at member
  rw [ExtTreeMap.size_erase, if_pos (by simpa using member)]
  omega

theorem nodup_toList (m : ExtTreeMap Nat V) : m.toList.Nodup := by
  refine ExtTreeMap.distinct_keys_toList.imp fun different same => different ?_
  rw [same]
  exact Nat.compare_eq_eq.mpr rfl

theorem toList_insert_of_absent (v : V) (absent : m[k]? = none) :
    (m.insert k v).toList.Perm ((k, v) :: m.toList) := by
  have outside : (k, v) ∉ m.toList := by simp [ExtTreeMap.mem_toList_iff_getElem?_eq_some, absent]
  refine (List.perm_ext_iff_of_nodup (nodup_toList _) (List.nodup_cons.mpr ⟨outside, nodup_toList m⟩)).mpr
    fun entry => ?_
  rw [List.mem_cons, ExtTreeMap.mem_toList_iff_getElem?_eq_some, ExtTreeMap.mem_toList_iff_getElem?_eq_some,
    getElem?_insert]
  by_cases same : entry.1 = k
  · simp [same, absent, Prod.ext_iff, eq_comm]
  · simp [same, Prod.ext_iff]

theorem toList_of_present {v : V} (present : m[k]? = some v) : m.toList.Perm ((k, v) :: (m.erase k).toList) := by
  have again : (m.erase k).insert k v = m := by
    refine ExtTreeMap.ext_getElem? fun a => ?_
    rw [getElem?_insert, getElem?_erase]
    by_cases same : a = k
    · simp [same, present]
    · simp [same]
  have absent : (m.erase k)[k]? = none := by rw [getElem?_erase, if_pos rfl]
  have listed := toList_insert_of_absent v absent
  rwa [again] at listed

end NatMap

