/-
# Minimal fault schedules

`minimize_schedule` deletes chunks of rules, then single rules, then single effects, and each time
goes on from the first candidate that still fails. The last phase does not look at rules again.
-/

import Mathlib

namespace Chirps.Mock

structure DirectedLink where
  source : ℕ
  target : ℕ
  deriving DecidableEq

inductive FaultEffect
  | delay (ticks : ℕ)
  | drop
  | duplicate (copies : ℕ)
  | reorder (extraTicks : ℕ)
  deriving DecidableEq

structure FaultRule where
  link : DirectedLink
  occurrence : ℕ
  effects : List FaultEffect
  deriving DecidableEq

/-- The rules of a `FaultSchedule`. -/
abbrev FaultSchedule := List FaultRule

def divCeil (a b : ℕ) : ℕ := (a + b - 1) / b

/-- The same rules, some of them with fewer effects. -/
def FewerEffects : FaultSchedule → FaultSchedule → Prop :=
  List.Forall₂ fun r t => t.link = r.link ∧ t.occurrence = r.occurrence ∧
    t.effects.Sublist r.effects

section Reduce

variable {σ : Type*} {candidates : σ → List σ} {stillFails : σ → Bool} {size : σ → ℕ} {I : σ → Prop}

end Reduce

theorem FewerEffects.refl (s : FaultSchedule) : FewerEffects s s :=
  List.forall₂_same.mpr fun _ _ => ⟨rfl, rfl, .refl _⟩

theorem FewerEffects.trans {s t u : FaultSchedule} (first : FewerEffects s t)
    (second : FewerEffects t u) : FewerEffects s u := by
  induction first generalizing u with
  | nil => exact second
  | cons h _ ih =>
    cases second with
    | cons h' tail =>
      exact .cons ⟨h'.1.trans h.1, h'.2.1.trans h.2.1, h'.2.2.trans h.2.2⟩ (ih tail)

theorem FewerEffects.eraseIdx {s t : FaultSchedule} (h : FewerEffects s t) (i : ℕ) :
    FewerEffects (s.eraseIdx i) (t.eraseIdx i) := by
  induction h generalizing i with
  | nil => exact .nil
  | cons h tail ih =>
    cases i with
    | zero => exact tail
    | succ i => exact .cons h (ih i)

/-- Effects only help the schedules that lack a rule of `s` to fail. -/
def EffectsHelp (stillFails : FaultSchedule → Bool) (s : FaultSchedule) : Prop :=
  ∀ a b, a.Sublist s → a.length < s.length → FewerEffects a b → stillFails b = true →
    stillFails a = true

theorem EffectsHelp.sublist {stillFails : FaultSchedule → Bool} {s t : FaultSchedule}
    (helps : EffectsHelp stillFails s) (h : t.Sublist s) : EffectsHelp stillFails t :=
  fun a b hsub hlt => helps a b (hsub.trans h) (Nat.lt_of_lt_of_le hlt h.length_le)

end Chirps.Mock
