/-
# Ordered maps read and pruned by key

A map whose keys are visited in order: read or remove the keys in a range, look at the last pair.
Everything is characterised by lookups.
-/

import Mathlib

namespace Chirps.Library.OrderedMap

open Std

variable {κ α : Type*} [Ord κ] [TransOrd κ] [LawfulEqOrd κ]

def removeWhere (m : ExtTreeMap κ α) (p : κ → Bool) : ExtTreeMap κ α :=
  (m.keys.filter p).foldl (fun m k => m.erase k) m

def valuesWhere (m : ExtTreeMap κ α) (p : κ → Bool) : List α :=
  (m.toList.filter fun kv => p kv.1).map Prod.snd

def last? (m : ExtTreeMap κ α) : Option (κ × α) := m.toList.getLast?

theorem getElem?_foldl_erase [DecidableEq κ] (m : ExtTreeMap κ α) (keys : List κ) (k : κ) :
    (keys.foldl (fun m k => m.erase k) m)[k]? = if k ∈ keys then none else m[k]? := by
  induction keys generalizing m with
  | nil => simp
  | cons key rest ih =>
    rw [List.foldl_cons, ih, ExtTreeMap.getElem?_erase]
    by_cases hkey : key = k
    · simp [hkey]
    · simp [hkey, Ne.symm hkey]

theorem getElem?_removeWhere (m : ExtTreeMap κ α) (p : κ → Bool) (k : κ) :
    (removeWhere m p)[k]? = if p k then none else m[k]? := by
  classical
  rw [removeWhere, getElem?_foldl_erase]
  by_cases hp : p k = true
  · by_cases hmem : k ∈ m
    · simp [hp, ExtTreeMap.mem_keys, hmem]
    · simp [hp, ExtTreeMap.mem_keys, hmem]
  · simp [hp, List.mem_filter]

omit [LawfulEqOrd κ] in
theorem size_removeWhere_le (m : ExtTreeMap κ α) (p : κ → Bool) :
    (removeWhere m p).size ≤ m.size := by
  suffices herase : ∀ (keys : List κ) (m : ExtTreeMap κ α),
      (keys.foldl (fun m k => m.erase k) m).size ≤ m.size from herase _ m
  intro keys
  induction keys with
  | nil => exact fun m => le_rfl
  | cons key rest ih => exact fun m => (ih _).trans ExtTreeMap.size_erase_le

variable {m : ExtTreeMap κ α}

theorem mem_valuesWhere {p : κ → Bool} {v : α} :
    v ∈ valuesWhere m p ↔ ∃ k, p k = true ∧ m[k]? = some v := by
  simp only [valuesWhere, List.mem_map, List.mem_filter, Prod.exists, exists_eq_right,
    ExtTreeMap.mem_toList_iff_getElem?_eq_some]
  exact exists_congr fun k => and_comm

omit [LawfulEqOrd κ] in
theorem pairwise_filter_toList (m : ExtTreeMap κ α) (p : κ → Bool) :
    (m.toList.filter fun kv => p kv.1).Pairwise fun a b => compare a.1 b.1 = .lt :=
  ExtTreeMap.ordered_keys_toList.sublist List.filter_sublist

theorem valuesWhere_congr {m' : ExtTreeMap κ α} {p : κ → Bool}
    (agree : ∀ k, p k = true → m[k]? = m'[k]?) : valuesWhere m p = valuesWhere m' p := by
  have hmem : ∀ kv, kv ∈ (m.toList.filter fun kv => p kv.1) ↔
      kv ∈ (m'.toList.filter fun kv => p kv.1) := by
    rintro ⟨k, v⟩
    simp only [List.mem_filter, ExtTreeMap.mem_toList_iff_getElem?_eq_some]
    exact and_congr_left fun hp => by rw [agree k hp]
  have hnodup : ∀ m : ExtTreeMap κ α, (m.toList.filter fun kv => p kv.1).Nodup := by
    intro m
    refine (pairwise_filter_toList m p).imp fun {a b} hlt => ?_
    rintro rfl
    simp at hlt
  refine congrArg (List.map Prod.snd) (List.Perm.eq_of_pairwise ?_
    (pairwise_filter_toList m p) (pairwise_filter_toList m' p)
    ((List.perm_ext_iff_of_nodup (hnodup m) (hnodup m')).mpr hmem))
  intro a b _ _ hab hba
  exact absurd hba (OrientedCmp.not_lt_of_lt hab)

theorem last?_eq_none : last? m = none ↔ ∀ k : κ, m[k]? = none := by
  rw [last?, List.getLast?_eq_none_iff, List.eq_nil_iff_forall_not_mem]
  constructor
  · intro h k
    cases hk : m[k]? with
    | none => rfl
    | some v => exact absurd (ExtTreeMap.mem_toList_iff_getElem?_eq_some.mpr hk) (h (k, v))
  · rintro h ⟨k, v⟩ hmem
    rw [ExtTreeMap.mem_toList_iff_getElem?_eq_some, h k] at hmem
    cases hmem

theorem last?_eq_some {k : κ} {v : α} :
    last? m = some (k, v) ↔ m[k]? = some v ∧ ∀ k', m[k']?.isSome = true →
      k' = k ∨ compare k' k = .lt := by
  constructor
  · intro h
    obtain ⟨front, hlist⟩ := List.getLast?_eq_some_iff.mp h
    have hk : m[k]? = some v := by
      rw [← ExtTreeMap.mem_toList_iff_getElem?_eq_some, hlist]
      simp
    refine ⟨hk, fun k' hsome => ?_⟩
    obtain ⟨v', hv'⟩ := Option.isSome_iff_exists.mp hsome
    have hmem := ExtTreeMap.mem_toList_iff_getElem?_eq_some.mpr hv'
    have hordered := ExtTreeMap.ordered_keys_toList (t := m)
    rw [hlist] at hmem hordered
    rcases List.mem_append.mp hmem with hfront | hlast
    · exact .inr ((List.pairwise_append.mp hordered).2.2 _ hfront _ (List.mem_singleton_self _))
    · exact .inl (congrArg Prod.fst (List.mem_singleton.mp hlast))
  · rintro ⟨hk, hmax⟩
    cases hlast : last? m with
    | none =>
      rw [last?_eq_none] at hlast
      rw [hlast k] at hk
      cases hk
    | some last =>
      obtain ⟨front, hlist⟩ := List.getLast?_eq_some_iff.mp hlast
      have hmem := ExtTreeMap.mem_toList_iff_getElem?_eq_some.mpr hk
      have hordered := ExtTreeMap.ordered_keys_toList (t := m)
      rw [hlist] at hmem hordered
      rcases List.mem_append.mp hmem with hfront | hsame
      · -- `k` would stand before the last key, which is at most `k`
        have hlt := (List.pairwise_append.mp hordered).2.2 _ hfront _ (List.mem_singleton_self _)
        have hin : m[last.1]?.isSome = true := by
          have hlastMem : (last.1, last.2) ∈ m.toList := by
            rw [hlist]
            simp
          rw [ExtTreeMap.mem_toList_iff_getElem?_eq_some.mp hlastMem]
          rfl
        rcases hmax last.1 hin with heq | hgt
        · simp [heq] at hlt
        · exact absurd hgt (OrientedCmp.not_lt_of_lt hlt)
      · rw [List.mem_singleton.mp hsame]

end Chirps.Library.OrderedMap
