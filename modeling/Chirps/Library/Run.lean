/-
# Runs of a partial step function

A run is a list of events, each enabled where the ones before it lead; nondeterminism sits in the
choice of the events. `run` is where a run ends, `Along` what holds at each transition it takes.
-/

import Mathlib

namespace Chirps.Library

variable {σ ε : Type*} {step : σ → ε → Option σ}

/-- Where a list of events leads, or `none` when one of them is not enabled. -/
def run (step : σ → ε → Option σ) : σ → List ε → Option σ
  | s, [] => some s
  | s, e :: rest => (step s e).bind fun next => run step next rest

@[simp] theorem run_nil (s : σ) : run step s [] = some s := rfl

/-- Facts about the last state are decided where the run is evaluated. -/
instance decidableExistsSome {o : Option σ} {P : σ → Prop} [DecidablePred P] :
    Decidable (∃ x, o = some x ∧ P x) :=
  match o with
  | none => .isFalse fun ⟨_, h, _⟩ => nomatch h
  | some x =>
    decidable_of_iff (P x) ⟨fun h => ⟨x, rfl, h⟩, fun ⟨_, hx, h⟩ => Option.some.inj hx ▸ h⟩

theorem exists_of_evaluated {o : Option σ} {Q : σ → Prop} (P : σ → Prop) [DecidablePred P]
    (evaluated : ∃ x, o = some x ∧ P x) (rest : ∀ x, o = some x → P x → Q x) :
    ∃ x, o = some x ∧ Q x :=
  let ⟨x, hx, facts⟩ := evaluated
  ⟨x, hx, rest x hx facts⟩

theorem run_cons {s next : σ} {e : ε} {rest : List ε} (h : step s e = some next) :
    run step s (e :: rest) = run step next rest := by
  simp [run, h]

theorem run_cons_eq_some {s t : σ} {e : ε} {rest : List ε} :
    run step s (e :: rest) = some t ↔
      ∃ next, step s e = some next ∧ run step next rest = some t := by
  simp [run, Option.bind_eq_some_iff]

theorem run_append_eq_some {s t : σ} {before after : List ε} :
    run step s (before ++ after) = some t ↔
      ∃ mid, run step s before = some mid ∧ run step mid after = some t := by
  induction before generalizing s with
  | nil => simp
  | cons e rest ih =>
    simp only [List.cons_append, run_cons_eq_some, ih]
    constructor
    · rintro ⟨next, hstep, mid, hrest, hafter⟩
      exact ⟨mid, ⟨next, hstep, hrest⟩, hafter⟩
    · rintro ⟨mid, ⟨next, hstep, hrest⟩, hafter⟩
      exact ⟨next, hstep, mid, hrest, hafter⟩

theorem run_simulation {τ : Type*} {g : τ → ε → Option τ} {R : σ → τ → Prop}
    (simulated : ∀ s s' e next, R s s' → step s e = some next →
      ∃ next', g s' e = some next' ∧ R next next')
    {s t : σ} {s' : τ} {events : List ε} (start : R s s') (reach : run step s events = some t) :
    ∃ t', run g s' events = some t' ∧ R t t' := by
  induction events generalizing s s' with
  | nil =>
    cases reach
    exact ⟨s', rfl, start⟩
  | cons e rest ih =>
    obtain ⟨next, hstep, hrest⟩ := run_cons_eq_some.mp reach
    obtain ⟨next', hg, hnext⟩ := simulated s s' e next start hstep
    obtain ⟨t', hrest', ht⟩ := ih hnext hrest
    exact ⟨t', run_cons_eq_some.mpr ⟨next', hg, hrest'⟩, ht⟩

/-- `Q` holds at every transition that the events take, up to the first event
that is not enabled. -/
def Along (step : σ → ε → Option σ) (Q : σ → ε → Prop) : σ → List ε → Prop
  | _, [] => True
  | s, e :: rest =>
    match step s e with
    | none => True
    | some next => Q s e ∧ Along step Q next rest

@[simp] theorem along_nil (Q : σ → ε → Prop) (s : σ) : Along step Q s [] := trivial

theorem along_cons {Q : σ → ε → Prop} {s next : σ} {e : ε} {rest : List ε}
    (h : step s e = some next) : Along step Q s (e :: rest) ↔ Q s e ∧ Along step Q next rest := by
  simp [Along, h]

theorem along_append {Q : σ → ε → Prop} {s mid : σ} {before after : List ε}
    (reach : run step s before = some mid) :
    Along step Q s (before ++ after) ↔ Along step Q s before ∧ Along step Q mid after := by
  induction before generalizing s with
  | nil =>
    cases reach
    simp
  | cons e rest ih =>
    obtain ⟨next, hstep, hrest⟩ := run_cons_eq_some.mp reach
    rw [List.cons_append, along_cons hstep, along_cons hstep, ih hrest, and_assoc]

instance Along.decidable {Q : σ → ε → Prop} [∀ s e, Decidable (Q s e)] :
    ∀ (s : σ) (events : List ε), Decidable (Along step Q s events)
  | _, [] => isTrue trivial
  | s, e :: rest =>
    match h : step s e with
    | none => isTrue (by simp [Along, h])
    | some next =>
      have := Along.decidable (Q := Q) next rest
      decidable_of_iff (Q s e ∧ Along step Q next rest) (along_cons h).symm

theorem along_of_forall {Q : σ → ε → Prop} {s : σ} {events : List ε}
    (h : ∀ s, ∀ e ∈ events, Q s e) : Along step Q s events := by
  induction events generalizing s with
  | nil => trivial
  | cons e rest ih =>
    cases hstep : step s e with
    | none => simp [Along, hstep]
    | some next =>
      rw [along_cons hstep]
      exact ⟨h s e (by simp), ih fun s e he => h s e (by simp [he])⟩

theorem along_congr_of_keeps {P : σ → Prop} {Q C : σ → ε → Prop}
    (keeps : ∀ s e next, P s → step s e = some next → Q s e → P next)
    (h : ∀ s e next, P s → step s e = some next → (Q s e ↔ C s e))
    {s : σ} {events : List ε} (start : P s) : Along step Q s events ↔ Along step C s events := by
  induction events generalizing s with
  | nil => exact Iff.rfl
  | cons e rest ih =>
    cases hstep : step s e with
    | none => simp [Along, hstep]
    | some next =>
      rw [along_cons hstep, along_cons hstep, ← h s e next start hstep]
      exact and_congr_right fun hQ => ih (keeps s e next start hstep hQ)

theorem Along.and {P Q : σ → ε → Prop} {s : σ} {events : List ε}
    (hP : Along step P s events) (hQ : Along step Q s events) :
    Along step (fun s e => P s e ∧ Q s e) s events := by
  induction events generalizing s with
  | nil => trivial
  | cons e rest ih =>
    cases hstep : step s e with
    | none => simp [Along, hstep]
    | some next =>
      rw [along_cons hstep] at hP hQ ⊢
      exact ⟨⟨hP.1, hQ.1⟩, ih hP.2 hQ.2⟩

/-- The invariant rule with a guard: when the guarded steps keep `I`, a run
all of whose steps are guarded satisfies at each step whatever `I` and the
guard give there. -/
theorem Along.of_invariant {I : σ → Prop} {G Q : σ → ε → Prop}
    (preserved : ∀ s e next, I s → G s e → step s e = some next → I next)
    (conclude : ∀ s e next, I s → G s e → step s e = some next → Q s e)
    {s : σ} {events : List ε} (start : I s) (guarded : Along step G s events) :
    Along step Q s events := by
  induction events generalizing s with
  | nil => trivial
  | cons e rest ih =>
    cases hstep : step s e with
    | none => simp [Along, hstep]
    | some next =>
      rw [along_cons hstep] at guarded ⊢
      exact ⟨conclude s e next start guarded.1 hstep,
        ih (preserved s e next start guarded.1 hstep) guarded.2⟩

theorem run_invariant_of_along {I : σ → Prop} {G : σ → ε → Prop}
    (preserved : ∀ s e next, I s → G s e → step s e = some next → I next)
    {s t : σ} {events : List ε} (start : I s) (guarded : Along step G s events)
    (reach : run step s events = some t) : I t := by
  induction events generalizing s with
  | nil =>
    cases reach
    exact start
  | cons e rest ih =>
    obtain ⟨next, hstep, hrest⟩ := run_cons_eq_some.mp reach
    rw [along_cons hstep] at guarded
    exact ih (preserved s e next start guarded.1 hstep) guarded.2 hrest

theorem run_invariant {I : σ → Prop}
    (preserved : ∀ s e next, I s → step s e = some next → I next)
    {s t : σ} {events : List ε} (start : I s) (reach : run step s events = some t) : I t :=
  run_invariant_of_along (G := fun _ _ => True)
    (fun s e next inv _ hstep => preserved s e next inv hstep) start
    (along_of_forall fun _ _ _ => trivial) reach

/-- Where the condition on a step is exactly what keeps `P`, a property that holds at
the start holds in every state reached just when all steps meet the condition. -/
theorem always_iff_along {I P : σ → Prop} {Cond : σ → ε → Prop}
    (preserved : ∀ s e next, I s → step s e = some next → I next)
    (exact : ∀ s e next, I s → P s → step s e = some next → (P next ↔ Cond s e))
    {s : σ} {events : List ε} (inv : I s) (start : P s) :
    (∀ before t, before <+: events → run step s before = some t → P t) ↔
      Along step Cond s events := by
  induction events generalizing s with
  | nil =>
    refine ⟨fun _ => trivial, fun _ before t hbefore hrun => ?_⟩
    obtain rfl := List.prefix_nil.mp hbefore
    cases hrun
    exact start
  | cons e rest ih =>
    cases hstep : step s e with
    | none =>
      -- the run ends here
      refine ⟨fun _ => by simp [Along, hstep], fun _ before t hbefore hrun => ?_⟩
      rcases List.prefix_cons_iff.mp hbefore with rfl | ⟨before, rfl, -⟩
      · cases hrun
        exact start
      · simp [run, hstep] at hrun
    | some next =>
      have hexact := exact s e next inv start hstep
      have hinv := preserved s e next inv hstep
      rw [along_cons hstep]
      constructor
      · intro always
        have hnext : P next := always [e] next (by simp) (by simp [run, hstep])
        refine ⟨hexact.mp hnext, (ih hinv hnext).mp fun before t hbefore hrun => ?_⟩
        exact always (e :: before) t (List.cons_prefix_cons.mpr ⟨rfl, hbefore⟩)
          (run_cons_eq_some.mpr ⟨next, hstep, hrun⟩)
      · rintro ⟨hcond, halong⟩ before t hbefore hrun
        rcases List.prefix_cons_iff.mp hbefore with rfl | ⟨before, rfl, hrest⟩
        · cases hrun
          exact start
        · rw [run_cons hstep] at hrun
          exact (ih hinv (hexact.mpr hcond)).mpr halong before t hrest hrun

end Chirps.Library
