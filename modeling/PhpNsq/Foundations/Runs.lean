import Mathlib.Data.List.Basic

/-!
# Runs of a labelled step relation

A run takes one step for every label of a list. Runs compose along concatenation
(`run_append`), so a run can be taken apart at its first or at its last step.
The induction rule is `Run.invariant`: a property of the labels taken so far and
of the state reached holds along a run when it holds at the start and every step
keeps it. `Run.progress` is the same induction for the existence of a run. A step relation is
restricted to the steps that meet a condition by `guarded`, and the rule then hands the condition to
the step lemma.
-/

set_option autoImplicit false

namespace Foundations

variable {σ ℓ : Type*}

/-- One step for every label. -/
def Run (step : σ → ℓ → σ → Prop) : σ → List ℓ → σ → Prop
  | start, [], last => start = last
  | start, label :: labels, last => ∃ next, step start label next ∧ Run step next labels last

/-- The steps that meet a condition on the state they start from and their label. -/
def guarded (condition : σ → ℓ → Prop) (step : σ → ℓ → σ → Prop) : σ → ℓ → σ → Prop :=
  fun state label next => condition state label ∧ step state label next

variable {step : σ → ℓ → σ → Prop}

@[simp] theorem run_nil {start last : σ} : Run step start [] last ↔ start = last := Iff.rfl

@[simp] theorem run_cons {start last : σ} {label : ℓ} {labels : List ℓ} :
    Run step start (label :: labels) last ↔
      ∃ next, step start label next ∧ Run step next labels last := Iff.rfl

theorem run_append {start last : σ} {first second : List ℓ} :
    Run step start (first ++ second) last ↔
      ∃ middle, Run step start first middle ∧ Run step middle second last := by
  induction first generalizing start with
  | nil => simp
  | cons label labels ih =>
      simp only [List.cons_append, run_cons, ih]
      constructor
      · rintro ⟨next, here, middle, before, after⟩
        exact ⟨middle, ⟨next, here, before⟩, after⟩
      · rintro ⟨middle, ⟨next, here, before⟩, after⟩
        exact ⟨next, here, middle, before, after⟩

theorem run_singleton {start last : σ} {label : ℓ} :
    Run step start [label] last ↔ step start label last := by
  simp

/-- A run of guarded steps is a run. -/
theorem Run.unguarded {condition : σ → ℓ → Prop} {start last : σ} {labels : List ℓ}
    (run : Run (guarded condition step) start labels last) : Run step start labels last := by
  induction labels generalizing start with
  | nil => exact run
  | cons label labels ih =>
      obtain ⟨next, ⟨-, one⟩, more⟩ := run
      exact ⟨next, one, ih more⟩

/-- Induction along a run whose labels are known: a step is taken at a place in them. -/
theorem Run.invariant_within {start last : σ} {labels : List ℓ}
    (run : Run step start labels last) (holds : List ℓ → σ → Prop)
    (keep : ∀ taken label rest state next, labels = taken ++ label :: rest → holds taken state →
      step state label next → holds (taken ++ [label]) next) (initial : holds [] start) :
    holds labels last := by
  have from_taken : ∀ (rest taken : List ℓ) (state : σ), labels = taken ++ rest →
      holds taken state → Run step state rest last → holds (taken ++ rest) last := by
    intro rest
    induction rest with
    | nil =>
        intro taken state _ here done
        rw [run_nil] at done
        simpa [← done] using here
    | cons label rest ih =>
        intro taken state split here run
        obtain ⟨next, one, more⟩ := run
        have moved := keep taken label rest state next split here one
        simpa using ih (taken ++ [label]) next (by simpa using split) moved more
  simpa using from_taken labels [] start rfl initial run

/-- **Induction along a run**, over the labels taken and the state reached. -/
theorem Run.invariant {start last : σ} {labels : List ℓ} (run : Run step start labels last)
    (holds : List ℓ → σ → Prop)
    (keep : ∀ taken state label next, holds taken state → step state label next →
      holds (taken ++ [label]) next) (initial : holds [] start) : holds labels last :=
  run.invariant_within holds
    (fun taken label _ state next _ here one => keep taken state label next here one) initial

/-- **A run exists** when a step can be taken at every place in the labels, to a state that
keeps the property. -/
theorem Run.progress {start : σ} {labels : List ℓ} (holds : List ℓ → σ → Prop)
    (advance : ∀ taken label rest state, labels = taken ++ label :: rest → holds taken state →
      ∃ next, step state label next ∧ holds (taken ++ [label]) next)
    (initial : holds [] start) : ∃ last, Run step start labels last ∧ holds labels last := by
  have from_taken : ∀ (rest taken : List ℓ) (state : σ), labels = taken ++ rest →
      holds taken state → ∃ last, Run step state rest last ∧ holds labels last := by
    intro rest
    induction rest with
    | nil =>
        intro taken state split here
        exact ⟨state, rfl, by simpa [split] using here⟩
    | cons label rest ih =>
        intro taken state split here
        obtain ⟨next, one, moved⟩ := advance taken label rest state split here
        obtain ⟨last, more, final⟩ := ih (taken ++ [label]) next (by simpa using split) moved
        exact ⟨last, ⟨next, one, more⟩, final⟩
  exact from_taken labels [] start rfl initial

/-- A run of a step function reaches one state. -/
theorem Run.unique (functional : ∀ state label first second, step state label first →
      step state label second → first = second) {start first second : σ} {labels : List ℓ}
    (left : Run step start labels first) (right : Run step start labels second) :
    first = second := by
  induction labels generalizing start with
  | nil => exact left.symm.trans right
  | cons label labels ih =>
      obtain ⟨next, one, more⟩ := left
      obtain ⟨other, another, rest⟩ := right
      obtain rfl := functional _ _ _ _ one another
      exact ih more rest

/-- The runs of a partial step function are its iterates. -/
theorem foldlM_eq_some_iff {next : σ → ℓ → Option σ} {start last : σ} {labels : List ℓ} :
    labels.foldlM next start = some last ↔
      Run (fun state label state' => next state label = some state') start labels last := by
  induction labels generalizing start with
  | nil => exact Option.some_inj
  | cons label labels ih =>
      rw [List.foldlM_cons, run_cons, Option.bind_eq_bind, Option.bind_eq_some_iff]
      exact exists_congr fun state => and_congr_right fun _ => ih

/-- Two places in one list are the same, or one is before the other. -/
theorem split_trichotomy {first second behind behind' : List ℓ} {here there : ℓ}
    (same : first ++ here :: behind = second ++ there :: behind') :
    (first = second ∧ here = there ∧ behind = behind') ∨
      (∃ between, second = first ++ here :: between ∧ behind = between ++ there :: behind') ∨
      ∃ between, first = second ++ there :: between ∧ behind' = between ++ here :: behind := by
  rcases List.append_eq_append_iff.mp same with ⟨more, before, rest⟩ | ⟨more, before, rest⟩
  · cases more with
    | nil =>
        obtain ⟨label, tail⟩ := List.cons.inj rest
        exact .inl ⟨by simp [before], label, tail⟩
    | cons label more =>
        obtain ⟨rfl, tail⟩ := List.cons.inj rest
        exact .inr (.inl ⟨more, before, tail⟩)
  · cases more with
    | nil =>
        obtain ⟨label, tail⟩ := List.cons.inj rest
        exact .inl ⟨by simp [before], label.symm, tail.symm⟩
    | cons label more =>
        obtain ⟨rfl, tail⟩ := List.cons.inj rest
        exact .inr (.inr ⟨more, before, tail⟩)

end Foundations
