/-
# Runs in smaller steps

An event of a run may do several things one after the other, its actions, each a total function of
the state. The trace of a run is the list of the actions of its events, and leads where the run
leads.
-/

import Chirps.Library.Run

namespace Chirps.Library

variable {σ ε α : Type*} {step : σ → ε → Option σ} {act : σ → α → σ} {actions : σ → ε → List α}

def trace (step : σ → ε → Option σ) (actions : σ → ε → List α) : σ → List ε → List α
  | _, [] => []
  | s, e :: rest =>
    match step s e with
    | none => []
    | some next => actions s e ++ trace step actions next rest

variable {s : σ}

theorem trace_cons {next : σ} {e : ε} {rest : List ε} (h : step s e = some next) :
    trace step actions s (e :: rest) = actions s e ++ trace step actions next rest := by
  rw [trace, h]

theorem trace_cons_of_none {e : ε} {rest : List ε} (h : step s e = none) :
    trace step actions s (e :: rest) = [] := by
  rw [trace, h]

theorem foldl_trace (refines : ∀ s e next, step s e = some next → (actions s e).foldl act s = next)
    {t : σ} {events : List ε} (reach : run step s events = some t) :
    (trace step actions s events).foldl act s = t := by
  induction events generalizing s with
  | nil => simpa [trace] using reach
  | cons e rest ih =>
    obtain ⟨next, hstep, hrest⟩ := run_cons_eq_some.mp reach
    rw [trace_cons hstep, List.foldl_append, refines s e next hstep, ih hrest]

/-- `Q` holds wherever one of the actions is taken. -/
def Throughout (act : σ → α → σ) (Q : σ → α → Prop) : σ → List α → Prop :=
  Along (fun s a => some (act s a)) Q

instance {Q : σ → α → Prop} [∀ s a, Decidable (Q s a)] (s : σ) (l : List α) :
    Decidable (Throughout act Q s l) :=
  inferInstanceAs (Decidable (Along _ Q s l))

variable {Q : σ → α → Prop}

@[simp] theorem throughout_nil (s : σ) : Throughout act Q s [] := trivial

theorem throughout_cons {a : α} {rest : List α} :
    Throughout act Q s (a :: rest) ↔ Q s a ∧ Throughout act Q (act s a) rest :=
  Iff.rfl

theorem throughout_append {before after : List α} :
    Throughout act Q s (before ++ after) ↔
      Throughout act Q s before ∧ Throughout act Q (before.foldl act s) after := by
  induction before generalizing s with
  | nil => simp
  | cons a rest ih =>
    rw [List.cons_append, throughout_cons, throughout_cons, ih, and_assoc, List.foldl_cons]

variable {l : List α}

theorem throughout_iff :
    Throughout act Q s l ↔ ∀ before a after, l = before ++ a :: after →
      Q (before.foldl act s) a := by
  constructor
  · rintro h before a after rfl
    exact (throughout_append.mp h).2.1
  · intro h
    induction l generalizing s with
    | nil => trivial
    | cons a rest ih =>
      refine throughout_cons.mpr ⟨h [] a rest rfl, ih fun before b after hsplit => ?_⟩
      exact h (a :: before) b after (by rw [hsplit, List.cons_append])

theorem foldl_invariant {I : σ → Prop} (preserved : ∀ s a, I s → Q s a → I (act s a)) (start : I s)
    (guarded : Throughout act Q s l) : I (l.foldl act s) := by
  induction l generalizing s with
  | nil => exact start
  | cons a rest ih =>
    rw [throughout_cons] at guarded
    exact ih (preserved s a start guarded.1) guarded.2

theorem run_act (act : σ → α → σ) (s : σ) (l : List α) :
    run (fun s a => some (act s a)) s l = some (l.foldl act s) := by
  induction l generalizing s with
  | nil => rfl
  | cons a rest ih => exact ih (act s a)

/-- Where the condition on an action is exactly what keeps `P`, a property that holds at the
start holds throughout just when all actions meet the condition. -/
theorem always_iff_throughout {P : σ → Prop} {Cond : σ → α → Prop}
    (exact : ∀ s a, P s → (P (act s a) ↔ Cond s a)) (start : P s) :
    (∀ before, before <+: l → P (before.foldl act s)) ↔ Throughout act Cond s l := by
  have halways : (∀ before t, before <+: l →
      run (fun s a => some (act s a)) s before = some t → P t) ↔ Throughout act Cond s l :=
    always_iff_along (I := fun _ => True) (fun _ _ _ _ _ => trivial)
      (fun s a next _ hP hnext => by cases hnext; exact exact s a hP) trivial start
  refine Iff.trans ⟨fun h before t hbefore hrun => ?_, fun h before hbefore => ?_⟩ halways
  · rw [run_act, Option.some_inj] at hrun
    exact hrun ▸ h before hbefore
  · exact h before _ hbefore (run_act act s before)

theorem throughout_trace {G : σ → α → Prop}
    (refines : ∀ s e next, step s e = some next → (actions s e).foldl act s = next)
    (each : ∀ s e, Throughout act G s (actions s e) → Throughout act Q s (actions s e))
    {events : List ε} (guard : Throughout act G s (trace step actions s events)) :
    Throughout act Q s (trace step actions s events) := by
  induction events generalizing s with
  | nil => trivial
  | cons e rest ih =>
    cases hstep : step s e with
    | none =>
      rw [trace_cons_of_none hstep]
      trivial
    | some next =>
      rw [trace_cons hstep, throughout_append, refines s e next hstep] at guard ⊢
      exact ⟨each s e guard.1, ih guard.2⟩

end Chirps.Library
