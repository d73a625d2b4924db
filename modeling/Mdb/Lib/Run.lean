import Mathlib

/-!
# Runs of a step relation

* `Reach init step s`: `s` is reached from an initial state by finitely many steps;
  `Reach.invariant` is the induction principle every safety result is an instance of;
* `Steps step s evs t`: a run from `s` to `t` whose steps are labelled `evs`, in order;
  `Steps.history` is its induction principle, `Steps.simulate` is forward simulation.
-/

namespace Run

variable {S E : Type}

/-- The states a system can be in: the initial ones and what its steps lead to. -/
inductive Reach (init : S → Prop) (step : S → S → Prop) : S → Prop where
  | start {s : S} (h : init s) : Reach init step s
  | next {s t : S} (hs : Reach init step s) (ht : step s t) : Reach init step t

/-- **Invariants.** What holds initially and is kept by every step holds in every state reached. -/
theorem Reach.invariant {init : S → Prop} {step : S → S → Prop} {I : S → Prop} {s : S}
    (h : Reach init step s) (h0 : ∀ s, init s → I s) (hstep : ∀ s t, I s → step s t → I t) :
    I s := by
  induction h with
  | start h => exact h0 _ h
  | next _ ht ih => exact hstep _ _ ih ht

/-- What is reached by some of the steps is reached. -/
theorem Reach.mono {init : S → Prop} {step step' : S → S → Prop} {s : S} (h : Reach init step s)
    (hle : ∀ s t, step s t → step' s t) : Reach init step' s := by
  induction h with
  | start h => exact .start h
  | next _ ht ih => exact .next ih (hle _ _ ht)

/-- A run from one state to another; the labels are in the order of the steps. -/
inductive Steps (step : S → E → S → Prop) : S → List E → S → Prop where
  | refl (s : S) : Steps step s [] s
  | head {s t u : S} {e : E} {evs : List E} (h : step s e t) (hr : Steps step t evs u) :
      Steps step s (e :: evs) u

theorem Steps.append {step : S → E → S → Prop} {s t u : S} {as bs : List E}
    (h : Steps step s as t) (h' : Steps step t bs u) : Steps step s (as ++ bs) u := by
  induction h with
  | refl => exact h'
  | head ha _ ih => exact .head ha (ih h')

/-- A run of a concatenation passes through a middle state. -/
theorem Steps.split {step : S → E → S → Prop} {s u : S} {as bs : List E}
    (h : Steps step s (as ++ bs) u) : ∃ t, Steps step s as t ∧ Steps step t bs u := by
  induction as generalizing s with
  | nil => exact ⟨s, .refl s, h⟩
  | cons a as ih =>
    cases h with
    | head ha hr =>
      obtain ⟨t, h1, h2⟩ := ih hr
      exact ⟨t, .head ha h1, h2⟩

/-- **Invariants along labelled runs.** -/
theorem Steps.invariant {step : S → E → S → Prop} {I : S → Prop} {s t : S} {evs : List E}
    (h : Steps step s evs t) (hs : I s) (hstep : ∀ s e t, I s → step s e t → I t) : I t := by
  induction h with
  | refl s => exact hs
  | head ha _ ih => exact ih (hstep _ _ _ hs ha)

/-- **Invariants of a state and the labels that led to it.** -/
theorem Steps.history {step : S → E → S → Prop} {I : List E → S → Prop} {s t : S} {evs : List E}
    (h : Steps step s evs t) (hs : I [] s)
    (hstep : ∀ as s e t, I as s → step s e t → I (as ++ [e]) t) : I evs t := by
  suffices hI : ∀ as, I as s → I (as ++ evs) t from hI [] hs
  clear hs
  induction h with
  | refl s => exact fun as has => by rwa [List.append_nil]
  | head ha _ ih =>
    intro as has
    rw [List.append_cons]
    exact ih (as ++ [_]) (hstep as _ _ _ has ha)

/-- **Forward simulation.** If every step of one system can be answered by a step of the other with
the same label, then every run has a counterpart with the same labels. -/
theorem Steps.simulate {T : Type} {step : S → E → S → Prop} {step' : T → E → T → Prop}
    {R : S → T → Prop} {s s' : S} {evs : List E} (h : Steps step s evs s')
    (hsim : ∀ s e s' t, R s t → step s e s' → ∃ t', step' t e t' ∧ R s' t') {t : T} (hR : R s t) :
    ∃ t', Steps step' t evs t' ∧ R s' t' := by
  induction h generalizing t with
  | refl s => exact ⟨t, .refl t, hR⟩
  | head ha _ ih =>
    obtain ⟨t₁, h1, hR1⟩ := hsim _ _ _ _ hR ha
    obtain ⟨t', h2, hR2⟩ := ih hR1
    exact ⟨t', .head h1 h2, hR2⟩

end Run
