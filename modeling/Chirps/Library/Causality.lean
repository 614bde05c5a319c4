/-
# Happened-before and stamps

An event comes after the earlier events of its process and after the event whose message it takes.
Stamps above those of the direct predecessors respect happened-before.
-/

import Mathlib

namespace Chirps.Library

variable {ι τ : Type*}

/-- An event, with the place of the one whose message it takes, and its stamp. -/
structure Stamped (ι τ : Type*) where
  process : ι
  source : Option ℕ
  stamp : τ

def Follows (log : List (Stamped ι τ)) (i j : ℕ) : Prop :=
  i < j ∧ ∃ a b, log[i]? = some a ∧ log[j]? = some b ∧ (a.process = b.process ∨ b.source = some i)

def HappensBefore (log : List (Stamped ι τ)) : ℕ → ℕ → Prop := Relation.TransGen (Follows log)

def Causal [LT τ] (log : List (Stamped ι τ)) : Prop :=
  ∀ i j a b, Follows log i j → log[i]? = some a → log[j]? = some b → a.stamp < b.stamp

theorem causal_nil [LT τ] : Causal ([] : List (Stamped ι τ)) := by
  intro i j a b _ ha
  cases ha

theorem Causal.append [LT τ] {log : List (Stamped ι τ)} {e : Stamped ι τ} (causal : Causal log)
    (local_lt : ∀ a ∈ log, a.process = e.process → a.stamp < e.stamp)
    (source_lt : ∀ i ∈ e.source, ∀ a ∈ log[i]?, a.stamp < e.stamp) : Causal (log ++ [e]) := by
  rintro i j a b ⟨hij, a', b', ha', hb', hafter⟩ ha hb
  obtain rfl : a' = a := Option.some.inj (ha'.symm.trans ha)
  obtain rfl : b' = b := Option.some.inj (hb'.symm.trans hb)
  have hj : j < log.length + 1 := by
    simpa using (List.getElem?_eq_some_iff.mp hb).1
  have hold : log[i]? = some a' := by
    rw [List.getElem?_append_left (by omega)] at ha
    exact ha
  by_cases hlast : j < log.length
  · rw [List.getElem?_append_left hlast] at hb
    exact causal i j a' b' ⟨hij, a', b', hold, hb, hafter⟩ hold hb
  · -- the new event
    obtain rfl : j = log.length := by omega
    obtain rfl : e = b' := by simpa using hb
    rcases hafter with hprocess | hsource
    · exact local_lt a' (List.mem_of_getElem? hold) hprocess
    · exact source_lt i hsource a' hold

theorem Causal.lt_of_happensBefore [Preorder τ] {log : List (Stamped ι τ)} (causal : Causal log)
    {i j : ℕ} (h : HappensBefore log i j) : ∀ a ∈ log[i]?, ∀ b ∈ log[j]?, a.stamp < b.stamp := by
  induction h with
  | single h => exact fun a ha b hb => causal _ _ a b h ha hb
  | tail _ h ih =>
    intro a ha b hb
    obtain ⟨-, mid, -, hmid, -⟩ := id h
    exact (ih a ha mid hmid).trans (causal _ _ mid b h hmid hb)

end Chirps.Library
