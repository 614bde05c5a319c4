/-
# The incremental hash in any order

Whatever the order in which the chunks are recorded, and however often, the hasher absorbs the
first data of each index, in the order of the indices.
-/

import Chirps.FileTransfer.Install

namespace Chirps.FileTransfer.IncrementalReceiveHash

variable {σ : Type*} {h : Hashing σ} {algorithm : HashAlgorithm} {s : IncrementalReceiveHash σ}

/-- The data that an index was first recorded with. -/
def firstData (calls : List (ℕ × Bytes)) (index : ℕ) : Option Bytes :=
  (calls.find? fun call => call.1 = index).map Prod.snd

def Ahead (s : IncrementalReceiveHash σ) : Prop := ∀ entry ∈ s.pending, s.nextIndex ≤ entry.1

theorem absorbPending_spec (ahead : s.Ahead) (fuel : ℕ) :
    (∀ i, (s.absorbPending h fuel).Recorded i ↔ s.Recorded i) ∧ (s.absorbPending h fuel).Ahead ∧
      (s.pending.length ≤ fuel → (s.absorbPending h fuel).nextIndex ∉
        (s.absorbPending h fuel).pending.map Prod.fst) := by
  induction fuel generalizing s with
  | zero =>
    refine ⟨fun _ => Iff.rfl, ahead, fun hle => ?_⟩
    rw [absorbPending, List.length_eq_zero_iff.mp (Nat.le_zero.mp hle)]
    exact List.not_mem_nil
  | succ fuel ih =>
    rw [absorbPending]
    split
    · rename_i hnone
      refine ⟨fun _ => Iff.rfl, ahead, fun _ hmem => ?_⟩
      obtain ⟨entry, hentry, heq⟩ := List.mem_map.mp hmem
      simpa [heq] using List.find?_eq_none.mp hnone entry hentry
    · rename_i entry hfind
      have hindex : entry.1 = s.nextIndex := by simpa using List.find?_some hfind
      have hentry := List.mem_of_find?_eq_some hfind
      obtain ⟨hrecorded, hahead, hdone⟩ := ih (s := ⟨s.nextIndex + 1,
        s.pending.filter (fun entry => entry.1 ≠ s.nextIndex), h.update s.hasher entry.2⟩)
        fun e he => by
          have hne : e.1 ≠ s.nextIndex := by simpa using (List.mem_filter.mp he).2
          exact Nat.lt_of_le_of_ne (ahead e (List.mem_of_mem_filter he)) hne.symm
      refine ⟨fun i => (hrecorded i).trans ?_, hahead, fun hle => hdone ?_⟩
      · -- the entry leaves the pending ones as the next index passes it
        simp only [Recorded, List.mem_map, List.mem_filter, decide_eq_true_eq]
        constructor
        · rintro (hlt | ⟨e, ⟨he, -⟩, rfl⟩)
          · rcases Nat.lt_succ_iff_lt_or_eq.mp hlt with hlt | rfl
            · exact .inl hlt
            · exact .inr ⟨entry, hentry, hindex⟩
          · exact .inr ⟨e, he, rfl⟩
        · rintro (hlt | ⟨e, he, rfl⟩)
          · exact .inl (Nat.lt_succ_of_lt hlt)
          · by_cases hne : e.1 = s.nextIndex
            · exact .inl (by omega)
            · exact .inr ⟨e, ⟨he, hne⟩, rfl⟩
      · have hlt : (s.pending.filter fun e => e.1 ≠ s.nextIndex).length < s.pending.length :=
          List.length_filter_lt_length_iff_exists.mpr ⟨entry, hentry, by simpa using hindex⟩
        dsimp only
        omega

structure Exact (h : Hashing σ) (algorithm : HashAlgorithm) (calls : List (ℕ × Bytes))
    (s : IncrementalReceiveHash σ) : Prop where
  holds : s.Holds h algorithm fun i data => firstData calls i = some data
  recorded : ∀ i, s.Recorded i ↔ i ∈ calls.map Prod.fst
  ahead : s.Ahead
  done : s.nextIndex ∉ s.pending.map Prod.fst

theorem firstData_eq_some {calls : List (ℕ × Bytes)} {i : ℕ} {data : Bytes}
    (h : firstData calls i = some data) : i ∈ calls.map Prod.fst := by
  obtain ⟨call, hfind, -⟩ := Option.map_eq_some_iff.mp h
  have heq : call.1 = i := by simpa using List.find?_some hfind
  exact heq ▸ List.mem_map_of_mem (List.mem_of_find?_eq_some hfind)

theorem Exact.record {calls : List (ℕ × Bytes)} (exact : s.Exact h algorithm calls)
    (call : ℕ × Bytes) : (s.record h call.1 call.2).Exact h algorithm (calls ++ [call]) := by
  have hold : s.Holds h algorithm fun i data => firstData (calls ++ [call]) i = some data := by
    refine exact.holds.mono fun i data _ hdata => ?_
    obtain ⟨found, hfind, rfl⟩ := Option.map_eq_some_iff.mp hdata
    rw [firstData, List.find?_append, hfind]
    rfl
  by_cases hrecorded : s.Recorded call.1
  · rw [IncrementalReceiveHash.record, if_pos hrecorded]
    refine ⟨hold, fun i => ?_, exact.ahead, exact.done⟩
    rw [exact.recorded, List.map_append, List.mem_append, List.map_singleton, List.mem_singleton]
    exact ⟨.inl, fun hi => hi.elim id fun heq => heq ▸ (exact.recorded _).mp hrecorded⟩
  · have hdata : firstData (calls ++ [call]) call.1 = some call.2 := by
      have hnone : calls.find? (fun c => c.1 = call.1) = none := by
        refine List.find?_eq_none.mpr fun c hc heq => hrecorded ((exact.recorded _).mpr ?_)
        exact of_decide_eq_true heq ▸ List.mem_map_of_mem hc
      simp [firstData, List.find?_append, hnone]
    have holds := hold.record hdata
    rw [IncrementalReceiveHash.record, if_neg hrecorded] at holds ⊢
    have hahead : Ahead { s with pending := call :: s.pending } := by
      intro entry hentry
      rcases List.mem_cons.mp hentry with rfl | hentry
      · exact Nat.le_of_not_lt fun hlt => hrecorded (.inl hlt)
      · exact exact.ahead entry hentry
    obtain ⟨hsame, hahead, hdone⟩ := absorbPending_spec (h := h) hahead (s.pending.length + 1)
    refine ⟨holds, fun i => (hsame i).trans ?_, hahead, hdone le_rfl⟩
    have hi := exact.recorded i
    simp only [Recorded, List.map_cons, List.mem_cons, List.map_append, List.mem_append,
      List.map_nil, List.not_mem_nil, or_false] at hi ⊢
    rw [← hi]
    tauto

theorem exact_run (calls before : List (ℕ × Bytes)) (exact : s.Exact h algorithm before) :
    (calls.foldl (fun s call => s.record h call.1 call.2) s).Exact h algorithm
    (before ++ calls) := by
  induction calls generalizing s before with
  | nil => rwa [List.append_nil]
  | cons call rest ih => simpa using ih (before ++ [call]) (exact.record call)

end IncrementalReceiveHash

/-- When the next index is `n`, the hasher has absorbed the first data of each index below, in
order; and the next index is `n` once each was recorded. -/
theorem incremental_hash_is_in_order {σ : Type*} (h : Hashing σ) (algorithm : HashAlgorithm)
    {n : ℕ} {calls : List (ℕ × Bytes)} (below : ∀ call ∈ calls, call.1 < n) :
    let s := calls.foldl (fun s call => s.record h call.1 call.2)
      (IncrementalReceiveHash.new h algorithm)
    (s.nextIndex = n → s.pending = [] ∧ ∃ pieces : List Bytes,
      pieces.map some = (List.range n).map (IncrementalReceiveHash.firstData calls) ∧
      s.hasher = pieces.foldl h.update (h.new algorithm) ∧
      h.finalize s.hasher = h.fileHash algorithm pieces.flatten) ∧
    ((∀ i < n, i ∈ calls.map Prod.fst) → s.nextIndex = n) := by
  intro s
  have exact : s.Exact h algorithm calls := by
    refine IncrementalReceiveHash.exact_run calls [] ⟨.new, fun i => ?_, nofun, List.not_mem_nil⟩
    simp [IncrementalReceiveHash.Recorded, IncrementalReceiveHash.new]
  obtain ⟨pieces, hlength, hhasher, hpieces⟩ := exact.holds.absorbed
  have hbelow : ∀ i ∈ calls.map Prod.fst, i < n := by
    intro i hi
    obtain ⟨call, hcall, rfl⟩ := List.mem_map.mp hi
    exact below call hcall
  constructor
  · intro hnext
    refine ⟨List.eq_nil_iff_forall_not_mem.mpr fun entry hentry => ?_, pieces, ?_, hhasher, ?_⟩
    · have hlt := hbelow entry.1 ((exact.recorded _).mp (.inr (List.mem_map_of_mem hentry)))
      have hle := exact.ahead entry hentry
      omega
    · refine List.ext_getElem? fun i => ?_
      rw [List.getElem?_map, List.getElem?_map]
      by_cases hi : i < n
      · have hi' : i < pieces.length := by omega
        rw [List.getElem?_range hi, List.getElem?_eq_getElem hi', Option.map_some, Option.map_some,
          hpieces i _ (List.getElem?_eq_getElem hi')]
      · rw [List.getElem?_eq_none (by omega), List.getElem?_eq_none (by simpa using hi)]
        rfl
    · rw [hhasher, h.finalize_foldl]
  · intro hall
    refine Nat.le_antisymm (Nat.le_of_not_lt fun hlt => ?_) (Nat.le_of_not_lt fun hlt => ?_)
    · have hn : n < pieces.length := by omega
      have hmem := IncrementalReceiveHash.firstData_eq_some
        (hpieces n _ (List.getElem?_eq_getElem hn))
      exact absurd (hbelow n hmem) (Nat.lt_irrefl n)
    · rcases (exact.recorded _).mpr (hall s.nextIndex hlt) with hself | hpending
      · exact absurd hself (Nat.lt_irrefl _)
      · exact exact.done hpending

/-- The second chunk comes first, and twice. -/
theorem incremental_hash_is_in_order_reversed :
    let s := [((1 : ℕ), ([2] : Bytes)), (1, [9]), (0, [1])].foldl
      (fun s call => s.record plainHashing call.1 call.2)
      (IncrementalReceiveHash.new plainHashing .sha256)
    s.nextIndex = 2 ∧ s.pending = [] :=
  have below : ∀ call ∈ [((1 : ℕ), ([2] : Bytes)), (1, [9]), (0, [1])], call.1 < 2 := by decide
  have h := incremental_hash_is_in_order plainHashing .sha256 below
  ⟨h.2 (by decide), (h.1 (h.2 (by decide))).1⟩

end Chirps.FileTransfer
