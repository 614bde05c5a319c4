/-
# Items that are tried again

Items wait, are pending, go in flight, and are completed or get a timer. An item is in one place at
a time unless a failure is reported of one that is neither in flight nor completed; no item is tried
more often than its retries allow.
-/

import Mathlib

namespace Chirps.Library

open List (count_append count_nil count_pos_iff)
open Finset (mem_erase mem_insert)

structure RetryLedger (ι : Type*) where
  waiting : List ι
  pending : List ι
  prepared : Finset ι
  inFlight : Finset ι
  timed : List ι
  completed : Finset ι
  retries : ι → ℕ

namespace RetryLedger

variable {ι : Type*} [DecidableEq ι]

/-- With the items that go in flight, those that get a timer, and the one reported as `failed`. -/
inductive Turn (limit : ℕ) (failed : Option ι) (b : RetryLedger ι) :
    List ι → List ι → RetryLedger ι → Prop
  | idle : Turn limit failed b [] [] b
  /-- Some items need not be tried. -/
  | skip {waiting : List ι} (h : waiting.Sublist b.waiting) :
      Turn limit failed b [] [] { b with waiting }
  | prepare {i : ι} {waiting : List ι} (h : b.waiting = i :: waiting) :
      Turn limit failed b [] []
        { b with waiting, pending := b.pending ++ [i], prepared := insert i b.prepared }
  | start {taken pending : List ι} (h : b.pending = taken ++ pending) :
      Turn limit failed b taken [] { b with pending, inFlight := b.inFlight ∪ taken.toFinset }
  | complete {i : ι} (h : i ∈ b.inFlight) :
      Turn limit failed b [] []
        { b with
          inFlight := b.inFlight.erase i
          completed := insert i b.completed
          prepared := b.prepared.erase i }
  | fail {i : ι} (h : i ∈ b.inFlight ∨ failed = some i) (hlimit : b.retries i < limit) :
      Turn limit failed b [] [i]
        { b with
          inFlight := b.inFlight.erase i
          timed := b.timed ++ [i]
          retries := Function.update b.retries i (b.retries i + 1) }
  | expire {i : ι} (h : i ∈ b.timed) :
      Turn limit failed b [] []
        { b with
          timed := b.timed.erase i
          pending := if i ∉ b.completed ∧ i ∉ b.inFlight then b.pending ++ [i] else b.pending }

variable {limit : ℕ} {failed : Option ι} {b b' : RetryLedger ι} {started again : List ι}

/-! ## One place at a time -/

def places (b : RetryLedger ι) (i : ι) : ℕ :=
  b.waiting.count i + b.pending.count i + (if i ∈ b.inFlight then 1 else 0) +
    if i ∈ b.completed then 0 else b.timed.count i

structure Single (b : RetryLedger ι) : Prop where
  places_le : ∀ i, b.places i ≤ 1
  of_pending : ∀ i ∈ b.pending, i ∈ b.prepared
  of_inFlight : ∀ i ∈ b.inFlight, i ∈ b.prepared
  of_timed : ∀ i ∈ b.timed, i ∉ b.completed → i ∈ b.prepared

theorem places_start_le {taken pending : List ι} (h : b.pending = taken ++ pending) (i : ι) :
    places { b with pending, inFlight := b.inFlight ∪ taken.toFinset } i ≤ b.places i := by
  have htaken : i ∈ taken → 0 < taken.count i := count_pos_iff.mpr
  simp only [places, h, count_append, Finset.mem_union, List.mem_toFinset]
  split_ifs <;> grind

theorem places_fail_le {i : ι} (h : i ∈ b.inFlight ∨ i ∈ b.completed) (j : ι) :
    places { b with inFlight := b.inFlight.erase i, timed := b.timed ++ [i] } j ≤ b.places j := by
  simp only [places, count_append, List.count_singleton, mem_erase]
  split_ifs <;> grind

theorem places_expire_le {i : ι} (h : i ∈ b.timed) (j : ι) :
    places { b with
      timed := b.timed.erase i
      pending := if i ∉ b.completed ∧ i ∉ b.inFlight then b.pending ++ [i] else b.pending } j ≤
      b.places j := by
  have htimed : 0 < b.timed.count i := count_pos_iff.mpr h
  simp only [places, List.count_erase]
  split_ifs <;> grind

theorem Single.turn (single : b.Single) (turn : Turn limit failed b started again b')
    (hfailed : ∀ i, failed = some i → i ∈ b.inFlight ∨ i ∈ b.completed) : b'.Single := by
  cases turn with
  | idle => exact single
  | skip h =>
    refine ⟨fun i => le_trans ?_ (single.places_le i), single.of_pending, single.of_inFlight,
      single.of_timed⟩
    have hcount := h.count_le i
    simp only [places]
    omega
  | @prepare i waiting h =>
    refine ⟨fun j => le_trans ?_ (single.places_le j), fun j hj => ?_, fun j hj => ?_,
      fun j hj hopen => ?_⟩
    · simp only [places, h, List.count_cons, count_append, count_nil]
      omega
    · rcases List.mem_append.mp hj with hj | hj
      · exact Finset.mem_insert_of_mem (single.of_pending j hj)
      · exact mem_insert.mpr (.inl (List.mem_singleton.mp hj))
    · exact Finset.mem_insert_of_mem (single.of_inFlight j hj)
    · exact Finset.mem_insert_of_mem (single.of_timed j hj hopen)
  | start h =>
    refine ⟨fun i => (places_start_le h i).trans (single.places_le i), fun i hi => ?_,
      fun i hi => ?_, single.of_timed⟩
    · exact single.of_pending i (h ▸ List.mem_append_right _ hi)
    · rcases Finset.mem_union.mp hi with hi | hi
      · exact single.of_inFlight i hi
      · exact single.of_pending i (h ▸ List.mem_append_left _ (List.mem_toFinset.mp hi))
  | @complete i h =>
    -- the item is nowhere else, so that nothing is left that needs it prepared
    have hplaces := single.places_le i
    rw [places, if_pos h] at hplaces
    have hpending : i ∉ b.pending := fun hi => by
      have := count_pos_iff.mpr hi
      omega
    have hkept : ∀ j, j ∈ b.prepared → j ≠ i → j ∈ b.prepared.erase i := fun j hj hne =>
      mem_erase.mpr ⟨hne, hj⟩
    refine ⟨fun j => le_trans ?_ (single.places_le j), fun j hj => ?_, fun j hj => ?_,
      fun j hj hopen => ?_⟩
    · simp only [places, mem_erase, mem_insert]
      split_ifs <;> grind
    · exact hkept j (single.of_pending j hj) fun heq => hpending (heq ▸ hj)
    · obtain ⟨hne, hj⟩ := mem_erase.mp hj
      exact hkept j (single.of_inFlight j hj) hne
    · obtain ⟨hne, hopen⟩ := not_or.mp fun hj => hopen (mem_insert.mpr hj)
      exact hkept j (single.of_timed j hj hopen) hne
  | @fail i h hlimit =>
    have hcounts : i ∈ b.inFlight ∨ i ∈ b.completed := h.elim .inl (hfailed i)
    refine ⟨fun j => (places_fail_le hcounts j).trans (single.places_le j), single.of_pending,
      fun j hj => single.of_inFlight j (Finset.mem_of_mem_erase hj), fun j hj hopen => ?_⟩
    rcases List.mem_append.mp hj with hj | hj
    · exact single.of_timed j hj hopen
    · obtain rfl := List.mem_singleton.mp hj
      exact single.of_inFlight j (hcounts.resolve_right hopen)
  | @expire i h =>
    refine ⟨fun j => (places_expire_le h j).trans (single.places_le j), fun j hj => ?_,
      single.of_inFlight, fun j hj => single.of_timed j (List.mem_of_mem_erase hj)⟩
    dsimp only at hj
    split_ifs at hj with hopen
    · rcases List.mem_append.mp hj with hj | hj
      · exact single.of_pending j hj
      · exact List.mem_singleton.mp hj ▸ single.of_timed i h hopen.1
    · exact single.of_pending j hj

theorem Turn.start_once (turn : Turn limit failed b started again b') (single : b.Single) :
    started.Nodup ∧ ∀ i ∈ started, i ∉ b.inFlight := by
  cases turn with
  | start h =>
    constructor
    · apply List.nodup_iff_count_le_one.mpr
      intro i
      have hplaces := single.places_le i
      rw [places, h, count_append] at hplaces
      omega
    · intro i hi hflight
      have hplaces := single.places_le i
      have hcount := count_pos_iff.mpr hi
      rw [places, h, count_append, if_pos hflight] at hplaces
      omega
  | _ => exact ⟨List.nodup_nil, nofun⟩

/-! ## How often an item is tried -/

theorem Turn.retries_eq (turn : Turn limit failed b started again b') (i : ι) :
    b'.retries i = b.retries i + again.count i := by
  cases turn with
  | @fail j h hlimit =>
    by_cases hi : i = j
    · subst hi
      simp
    · simp [hi, Ne.symm hi]
  | _ => simp

theorem Turn.retries_le (turn : Turn limit failed b started again b')
    (h : ∀ i, b.retries i ≤ limit) (i : ι) : b'.retries i ≤ limit := by
  cases turn with
  | @fail j _ hlimit =>
    by_cases hi : i = j
    · subst hi
      simpa using Nat.succ_le_of_lt hlimit
    · simpa [hi] using h i
  | _ => exact h i

def due (b : RetryLedger ι) (i : ι) : ℕ :=
  b.waiting.count i + b.pending.count i + b.timed.count i

theorem Turn.due_le (turn : Turn limit failed b started again b') (i : ι) :
    started.count i + b'.due i ≤ b.due i + again.count i := by
  cases turn with
  | idle => simp
  | skip h =>
    have hcount := h.count_le i
    simp only [due, count_nil]
    omega
  | prepare h =>
    simp only [due, h, List.count_cons, count_append, count_nil]
    omega
  | start h =>
    simp only [due, h, count_append, count_nil]
    omega
  | complete h => simp [due]
  | fail h hlimit =>
    simp only [due, count_append, count_nil]
    omega
  | @expire j h =>
    have htimed : 0 < b.timed.count j := count_pos_iff.mpr h
    simp only [due, List.count_erase, count_nil]
    split_ifs <;> grind

end RetryLedger

end Chirps.Library
