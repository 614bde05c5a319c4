/-
# The greatest element of a set, if there is one

An option that is the greatest element of a set, and empty when the set is, as the maximum that a
register keeps of what it was given, in any order.
-/

import Mathlib

namespace Chirps.Library

/-- `o` is the greatest element of `A`; there is none only if `A` is empty. -/
structure Tops {S : Type*} [LE S] (o : Option S) (A : Set S) : Prop where
  mem : ∀ s ∈ o, s ∈ A
  le : ∀ a ∈ A, ∃ s ∈ o, a ≤ s

def join {S : Type*} [Max S] (o : Option S) (a : S) : S := o.elim a (max · a)

namespace Tops

variable {S : Type*}

theorem self [Preorder S] (o : Option S) : Tops o {s | s ∈ o} :=
  ⟨fun _ hs => hs, fun a ha => ⟨a, ha, le_rfl⟩⟩

variable {o : Option S} {A : Set S}

theorem mem_of_mem [PartialOrder S] {o' : Option S} (h : Tops o A) (h' : Tops o' A) {s : S}
    (hs : s ∈ o) : s ∈ o' := by
  obtain ⟨t, ht, hst⟩ := h'.le s (h.mem s hs)
  obtain ⟨u, hu, htu⟩ := h.le t (h'.mem t ht)
  cases hs.symm.trans hu
  exact le_antisymm hst htu ▸ ht

theorem unique [PartialOrder S] {o' : Option S} (h : Tops o A) (h' : Tops o' A) : o = o' := by
  ext s
  exact ⟨h.mem_of_mem h', h'.mem_of_mem h⟩

theorem eq_some_iff [PartialOrder S] (h : Tops o A) {s : S} : o = some s ↔ IsGreatest A s := by
  constructor
  · rintro rfl
    refine ⟨h.mem s rfl, fun a ha => ?_⟩
    obtain ⟨t, ht, hat⟩ := h.le a ha
    cases ht
    exact hat
  · rintro ⟨hs, hupper⟩
    refine h.unique ⟨fun t ht => ?_, fun a ha => ⟨s, rfl, hupper ha⟩⟩
    cases ht
    exact hs

theorem insert_of_le [Preorder S] (h : Tops o A) {a : S} (hle : ∃ s ∈ o, a ≤ s) :
    Tops o (insert a A) where
  mem s hs := .inr (h.mem s hs)
  le b hb := by
    rcases hb with rfl | hb
    · exact hle
    · exact h.le b hb

theorem insert [LinearOrder S] (h : Tops o A) (a : S) : Tops (some (join o a)) (insert a A) := by
  cases o with
  | none =>
    refine ⟨fun s hs => .inl (Option.some.inj hs).symm, fun b hb => ⟨a, rfl, ?_⟩⟩
    rcases hb with rfl | hb
    · exact le_rfl
    · obtain ⟨s, hs, -⟩ := h.le b hb
      cases hs
  | some t =>
    refine ⟨fun s hs => ?_, fun b hb => ⟨max t a, rfl, ?_⟩⟩
    · obtain rfl : max t a = s := Option.some.inj hs
      rcases max_choice t a with hmax | hmax
      · rw [hmax]
        exact .inr (h.mem t rfl)
      · rw [hmax]
        exact .inl rfl
    · rcases hb with rfl | hb
      · exact le_max_right t b
      · obtain ⟨s, hs, hle⟩ := h.le b hb
        cases hs
        exact le_max_of_le_left hle

end Tops

end Chirps.Library
