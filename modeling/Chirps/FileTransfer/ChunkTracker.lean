/-
# The tracker of chunks

A tracker keeps the completed chunks, those in flight and how often the others have failed. The
indices come from the peer and are not checked, so each guarantee rests on the calls that could
break it.
-/

import Chirps.Library.Frontier
import Chirps.Library.OrderedMap
import Chirps.Library.Run

namespace Chirps.FileTransfer

open Chirps.Library
open Std (ExtTreeMap)

/-- The retries of a failed chunk are a `u8` in the source. -/
structure ChunkTracker where
  totalChunks : ℕ
  completed : Finset ℕ
  inFlight : Finset ℕ
  failed : ExtTreeMap ℕ ℕ
  maxRetries : ℕ

namespace ChunkTracker

variable (t : ChunkTracker)

def new (totalChunks maxRetries : ℕ) : ChunkTracker := ⟨totalChunks, ∅, ∅, ∅, maxRetries⟩

/-- A loop of `next_chunks`: `.error` is what it returns early, `.ok` what it goes on with. -/
def push {α : Type*} (count : ℕ) (wanted : α → Bool) (index : α → ℕ) :
    List α → List ℕ → Except (List ℕ) (List ℕ)
  | [], result => .ok result
  | item :: rest, result =>
    if wanted item then
      if count ≤ (result ++ [index item]).length then .error (result ++ [index item])
      else push count wanted index rest (result ++ [index item])
    else push count wanted index rest result

def retries (entry : ℕ × ℕ) : Bool :=
  entry.2 < t.maxRetries && entry.1 ∉ t.inFlight

def untried (index : ℕ) : Bool :=
  index ∉ t.completed && index ∉ t.inFlight && index ∉ t.failed

def nextChunks (count : ℕ) : List ℕ :=
  match push count t.retries Prod.fst t.failed.toList [] with
  | .error returned => returned
  | .ok result =>
    match push count t.untried id (List.range t.totalChunks) result with
    | .error returned => returned
    | .ok result => result

def markInFlight (index : ℕ) : ChunkTracker :=
  { t with inFlight := insert index t.inFlight }

def markCompleted (index : ℕ) : ChunkTracker :=
  { t with
    inFlight := t.inFlight.erase index
    failed := t.failed.erase index
    completed := insert index t.completed }

def markFailed (index : ℕ) : ChunkTracker :=
  { t with
    inFlight := t.inFlight.erase index
    failed := t.failed.insert index (min (t.failed[index]?.getD 0 + 1) 255) }

def isComplete : Bool := t.completed.card = t.totalChunks

/-! ## What comes next -/

section Next

variable {α : Type*} {count : ℕ} {wanted : α → Bool} {index : α → ℕ} {t : ChunkTracker}

def settle (count : ℕ) (all : List ℕ) : Except (List ℕ) (List ℕ) :=
  if all.length < max count 1 then .ok all else .error (all.take (max count 1))

theorem push_eq {items : List α} {result : List ℕ} (h : result.length < max count 1) :
    push count wanted index items result =
      settle count (result ++ (items.filter wanted).map index) := by
  induction items generalizing result with
  | nil => rw [push, settle, List.filter_nil, List.map_nil, List.append_nil, if_pos h]
  | cons item rest ih =>
    by_cases hwanted : wanted item = true
    · rw [push, if_pos hwanted, List.filter_cons_of_pos hwanted, List.map_cons,
        List.append_cons result (index item) (List.map index _)]
      have hlength : (result ++ [index item]).length = result.length + 1 := List.length_append
      split_ifs with hcount
      · -- this is the last index that is asked for
        have hlast : max count 1 = (result ++ [index item]).length := by omega
        rw [settle, hlast, List.take_left, if_neg (by rw [List.length_append]; omega)]
      · exact ih (by omega)
    · rw [push, if_neg hwanted, List.filter_cons_of_neg hwanted]
      exact ih h

def candidates (t : ChunkTracker) : List ℕ :=
  (t.failed.toList.filter t.retries).map Prod.fst ++ (List.range t.totalChunks).filter t.untried

theorem nextChunks_eq : t.nextChunks count = t.candidates.take (max count 1) := by
  have hfirst : push count t.retries Prod.fst t.failed.toList [] =
      settle count ([] ++ (t.failed.toList.filter t.retries).map Prod.fst) := push_eq (by simp)
  rw [nextChunks, hfirst, settle, candidates]
  split_ifs with hroom
  · dsimp only
    rw [push_eq hroom, settle, List.nil_append, List.map_id]
    split_ifs with hall
    · exact (List.take_of_length_le hall.le).symm
    · rfl
  · exact (List.take_append_of_le_length (Nat.le_of_not_lt hroom)).symm

theorem mem_retries {i : ℕ} : i ∈ (t.failed.toList.filter t.retries).map Prod.fst ↔
    ∃ retries, t.failed[i]? = some retries ∧ retries < t.maxRetries ∧ i ∉ t.inFlight := by
  simp [retries, ExtTreeMap.mem_toList_iff_getElem?_eq_some]

theorem mem_untried {i : ℕ} : i ∈ (List.range t.totalChunks).filter t.untried ↔
    i < t.totalChunks ∧ i ∉ t.completed ∧ i ∉ t.inFlight ∧ i ∉ t.failed := by
  simp [untried, and_assoc]

theorem nodup_candidates : t.candidates.Nodup := by
  have hkeys : (t.failed.toList.map Prod.fst).Nodup := by
    rw [ExtTreeMap.map_fst_toList_eq_keys]
    exact ExtTreeMap.nodup_keys
  refine List.nodup_append.mpr ⟨hkeys.sublist (List.filter_sublist.map _),
    List.nodup_range.filter _, fun i hretries j huntried heq => ?_⟩
  obtain ⟨retries, hfailed, -⟩ := mem_retries.mp hretries
  apply (mem_untried.mp huntried).2.2.2
  rw [← heq, ExtTreeMap.mem_iff_isSome_getElem?, hfailed]
  rfl

end Next

theorem nextChunks_spec (t : ChunkTracker) (count : ℕ) :
    (t.nextChunks count).Nodup ∧ (t.nextChunks count).length ≤ max count 1 ∧
      ∀ i ∈ t.nextChunks count, i ∉ t.inFlight := by
  rw [nextChunks_eq]
  refine ⟨nodup_candidates.sublist (List.take_sublist _ _), List.length_take_le _ _, fun i hi => ?_⟩
  rcases List.mem_append.mp (List.mem_of_mem_take hi) with hi | hi
  · obtain ⟨retries, -, -, hflight⟩ := mem_retries.mp hi
    exact hflight
  · exact (mem_untried.mp hi).2.2.1

variable {t : ChunkTracker} {i : ℕ}

theorem of_mem_nextChunks {count : ℕ} (h : i ∈ t.nextChunks count) :
    i ∈ t.failed ∨ i < t.totalChunks ∧ i ∉ t.completed := by
  rw [nextChunks_eq] at h
  rcases List.mem_append.mp (List.mem_of_mem_take h) with h | h
  · obtain ⟨retries, hfailed, -⟩ := mem_retries.mp h
    exact .inl (ExtTreeMap.mem_iff_isSome_getElem?.mpr (by rw [hfailed]; rfl))
  · obtain ⟨hlt, hopen, -⟩ := mem_untried.mp h
    exact .inr ⟨hlt, hopen⟩

theorem mem_failed_markFailed {index : ℕ} :
    i ∈ (t.markFailed index).failed ↔ i = index ∨ i ∈ t.failed := by
  rw [markFailed, ExtTreeMap.mem_insert, Std.compare_eq_iff_eq, @eq_comm _ index i]

theorem mem_failed_markCompleted {index : ℕ} :
    i ∈ (t.markCompleted index).failed ↔ i ≠ index ∧ i ∈ t.failed := by
  rw [markCompleted, ExtTreeMap.mem_erase, Ne, Std.compare_eq_iff_eq, @eq_comm _ index i]

end ChunkTracker

/-! ## Calls -/

inductive TrackerCall
  | nextChunks (count : ℕ)
  | markInFlight (index : ℕ)
  | markCompleted (index : ℕ)
  | markFailed (index : ℕ)

structure TrackerUse where
  tracker : ChunkTracker
  named : Finset ℕ

namespace TrackerUse

def new (totalChunks maxRetries : ℕ) : TrackerUse := ⟨.new totalChunks maxRetries, ∅⟩

/-- Only indices that were named are marked as in flight. -/
def step (x : TrackerUse) : TrackerCall → Option TrackerUse
  | .nextChunks count => some { x with named := x.named ∪ (x.tracker.nextChunks count).toFinset }
  | .markInFlight index =>
    if index ∈ x.named then some { x with tracker := x.tracker.markInFlight index } else none
  | .markCompleted index => some { x with tracker := x.tracker.markCompleted index }
  | .markFailed index => some { x with tracker := x.tracker.markFailed index }

/-- No completed chunk is marked as failed. -/
def FailsOpen (x : TrackerUse) : TrackerCall → Prop
  | .markFailed index => index ∉ x.tracker.completed
  | _ => True

def FailsChunk (x : TrackerUse) : TrackerCall → Prop
  | .markFailed index => index < x.tracker.totalChunks
  | _ => True

def CompletesChunk (x : TrackerUse) : TrackerCall → Prop
  | .markCompleted index => index < x.tracker.totalChunks
  | _ => True

instance (x : TrackerUse) (call : TrackerCall) : Decidable (x.CompletesChunk call) := by
  unfold CompletesChunk
  split <;> infer_instance

variable {x next : TrackerUse} {call : TrackerCall} {calls : List TrackerCall}

section

variable (h : x.step call = some next)
include h

theorem step_cases :
    ((∃ count, call = .nextChunks count) ∧ next.tracker = x.tracker) ∨
    (∃ index, call = .markInFlight index ∧ next.tracker = x.tracker.markInFlight index) ∨
    (∃ index, call = .markCompleted index ∧ next.tracker = x.tracker.markCompleted index) ∨
    ∃ index, call = .markFailed index ∧ next.tracker = x.tracker.markFailed index := by
  cases call with
  | nextChunks count =>
    cases h
    exact .inl ⟨⟨count, rfl⟩, rfl⟩
  | markInFlight index =>
    rw [step] at h
    split_ifs at h
    cases h
    exact .inr (.inl ⟨index, rfl, rfl⟩)
  | markCompleted index =>
    cases h
    exact .inr (.inr (.inl ⟨index, rfl, rfl⟩))
  | markFailed index =>
    cases h
    exact .inr (.inr (.inr ⟨index, rfl, rfl⟩))

theorem totalChunks_step : next.tracker.totalChunks = x.tracker.totalChunks := by
  obtain ⟨-, heq⟩ | ⟨index, -, heq⟩ | ⟨index, -, heq⟩ | ⟨index, -, heq⟩ := step_cases h
  · rw [heq]
  · rw [heq, ChunkTracker.markInFlight]
  · rw [heq, ChunkTracker.markCompleted]
  · rw [heq, ChunkTracker.markFailed]

theorem completed_step (hfails : x.FailsOpen call)
    (hopen : ∀ i ∈ x.tracker.completed, i ∉ x.tracker.failed) :
    ∀ i ∈ next.tracker.completed, i ∉ next.tracker.failed := by
  obtain ⟨-, heq⟩ | ⟨index, -, heq⟩ | ⟨index, -, heq⟩ | ⟨index, rfl, heq⟩ := step_cases h
  · rwa [heq]
  · rwa [heq]
  · rw [heq]
    intro i hi hfailed
    obtain ⟨hne, hfailed⟩ := ChunkTracker.mem_failed_markCompleted.mp hfailed
    exact hopen i (Finset.mem_of_mem_insert_of_ne hi hne) hfailed
  · rw [heq]
    intro i hi hfailed
    rcases ChunkTracker.mem_failed_markFailed.mp hfailed with rfl | hfailed
    · exact hfails hi
    · exact hopen i hi hfailed

theorem failed_lt_step (hfails : x.FailsChunk call)
    (hlt : ∀ i ∈ x.tracker.failed, i < x.tracker.totalChunks) :
    ∀ i ∈ next.tracker.failed, i < next.tracker.totalChunks := by
  rw [totalChunks_step h]
  obtain ⟨-, heq⟩ | ⟨index, -, heq⟩ | ⟨index, -, heq⟩ | ⟨index, rfl, heq⟩ := step_cases h
  · rwa [heq]
  · rwa [heq]
  · rw [heq]
    exact fun i hi => hlt i (ChunkTracker.mem_failed_markCompleted.mp hi).2
  · rw [heq]
    intro i hi
    rcases ChunkTracker.mem_failed_markFailed.mp hi with rfl | hi
    · exact hfails
    · exact hlt i hi

theorem completed_lt_step (hcompletes : x.CompletesChunk call)
    (hlt : ∀ i ∈ x.tracker.completed, i < x.tracker.totalChunks) :
    ∀ i ∈ next.tracker.completed, i < next.tracker.totalChunks := by
  rw [totalChunks_step h]
  obtain ⟨-, heq⟩ | ⟨index, -, heq⟩ | ⟨index, rfl, heq⟩ | ⟨index, -, heq⟩ := step_cases h
  · rwa [heq]
  · rwa [heq]
  · rw [heq]
    exact Finset.forall_mem_insert _ _ _ |>.mpr ⟨hcompletes, hlt⟩
  · rwa [heq]

end

end TrackerUse

/-- The tracker after any calls: each guarantee needs the peer to be right about one thing. -/
theorem chunk_tracker_is_sound (totalChunks maxRetries : ℕ) {calls : List TrackerCall}
    {x : TrackerUse} (reach : run TrackerUse.step (.new totalChunks maxRetries) calls = some x) :
    (∀ count, (x.tracker.nextChunks count).Nodup ∧
      (0 < count → (x.tracker.nextChunks count).length ≤ count) ∧
      ∀ i ∈ x.tracker.nextChunks count, i ∉ x.tracker.inFlight) ∧
    (Along TrackerUse.step TrackerUse.FailsOpen (.new totalChunks maxRetries) calls →
      (∀ i ∈ x.tracker.completed, i ∉ x.tracker.failed) ∧
      ∀ count, ∀ i ∈ x.tracker.nextChunks count, i ∉ x.tracker.completed) ∧
    (Along TrackerUse.step TrackerUse.FailsChunk (.new totalChunks maxRetries) calls →
      ∀ count, ∀ i ∈ x.tracker.nextChunks count, i < totalChunks) ∧
    (Along TrackerUse.step TrackerUse.CompletesChunk (.new totalChunks maxRetries) calls →
      (x.tracker.isComplete = true ↔ ∀ i < totalChunks, i ∈ x.tracker.completed)) := by
  have htotal : x.tracker.totalChunks = totalChunks :=
    run_invariant (I := fun x => x.tracker.totalChunks = totalChunks)
      (fun _ _ _ htotal hstep => (TrackerUse.totalChunks_step hstep).trans htotal) rfl reach
  refine ⟨fun count => ?_, fun along => ?_, fun along count i hi => ?_, fun along => ?_⟩
  · obtain ⟨hnodup, hlength, hflight⟩ := x.tracker.nextChunks_spec count
    exact ⟨hnodup, fun hcount => by omega, hflight⟩
  · have hopen := run_invariant_of_along
      (I := fun x => ∀ i ∈ x.tracker.completed, i ∉ x.tracker.failed)
      (fun _ _ _ hopen hfails hstep => TrackerUse.completed_step hstep hfails hopen)
      (fun i hi => absurd hi (Finset.notMem_empty i)) along reach
    refine ⟨hopen, fun count i hi hcompleted => ?_⟩
    rcases ChunkTracker.of_mem_nextChunks hi with hfailed | ⟨-, hnot⟩
    · exact hopen i hcompleted hfailed
    · exact hnot hcompleted
  · have hfailed := run_invariant_of_along
      (I := fun x => ∀ i ∈ x.tracker.failed, i < x.tracker.totalChunks)
      (fun _ _ _ hlt hfails hstep => TrackerUse.failed_lt_step hstep hfails hlt)
      (fun i hi => absurd hi ExtTreeMap.not_mem_empty) along reach
    rw [← htotal]
    exact (ChunkTracker.of_mem_nextChunks hi).elim (hfailed i) And.left
  · have hcompleted := run_invariant_of_along
      (I := fun x => ∀ i ∈ x.tracker.completed, i < x.tracker.totalChunks)
      (fun _ _ _ hlt hcompletes hstep => TrackerUse.completed_lt_step hstep hcompletes hlt)
      (fun i hi => absurd hi (Finset.notMem_empty i)) along reach
    rw [ChunkTracker.isComplete, decide_eq_true_eq, card_eq_iff_of_lt hcompleted, htotal]

theorem chunk_tracker_is_sound_refused :
    ∃ x, run TrackerUse.step (.new 2 3)
        [.nextChunks 2, .markInFlight 0, .markInFlight 1, .markFailed 0, .markCompleted 1,
          .nextChunks 2, .markInFlight 0, .markCompleted 0] = some x ∧
      x.tracker.isComplete = true ∧ ∀ i < 2, i ∈ x.tracker.completed := by
  exact exists_of_evaluated (·.tracker.isComplete = true) (by decide +kernel) fun x reach hx =>
    ⟨hx, ((chunk_tracker_is_sound 2 3 reach).2.2.2 (by decide +kernel)).mp hx⟩

/-- Marks that the peer gets wrong, one at a time; and one chunk is named where none is asked for.
-/
theorem tracker_follows_wrong_marks :
    (run TrackerUse.step (.new 1 3) [.markCompleted 0, .markFailed 0]).map
        (fun x => (x.tracker.completed, x.tracker.failed.contains 0, x.tracker.nextChunks 1)) =
      some ({0}, true, [0]) ∧
    (run TrackerUse.step (.new 1 3) [.markFailed 7]).map (fun x => x.tracker.nextChunks 2) =
      some [7, 0] ∧
    (run TrackerUse.step (.new 1 3) [.markCompleted 7]).map
        (fun x => (x.tracker.isComplete, x.tracker.completed)) = some (true, {7}) ∧
    (ChunkTracker.new 1 3).nextChunks 0 = [0] := by
  decide +kernel

end Chirps.FileTransfer
