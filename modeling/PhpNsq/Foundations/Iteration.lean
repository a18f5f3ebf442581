import Mathlib.Data.Nat.Notation
import Mathlib.Logic.Relation

/-!
# Loops without a bound

A `while (1)` loop is a body that either goes round again with a new state or
leaves with a result. The body is iterated with fuel, and the loop exits with a
result when some amount of fuel reaches it. The result is unique
(`Exits.unique`), one pass of the body can be peeled off in front
(`exits_of_again`, `exits_of_leave`), and a loop that stays in a set of states
where the body always goes round again never exits (`not_exits_of_invariant`).

`Passes` is the reflexive and transitive closure of going round again: the states
the loop is in between two passes of its body.

Two loops whose bodies decide alike on related states exit alike
(`Exits.simulation`).
-/

set_option autoImplicit false

namespace Foundations

universe u v

/-- What one pass of a loop body decides. -/
inductive Next (σ : Type u) (ρ : Type v) where
  | again (state : σ)
  | leave (result : ρ)

variable {σ : Type u} {ρ : Type v}

/-- Run the body at most `fuel` times. -/
def iterate (body : σ → Next σ ρ) : ℕ → σ → Option ρ
  | 0, _ => none
  | fuel + 1, state =>
      match body state with
      | .again next => iterate body fuel next
      | .leave result => some result

/-- The loop leaves with a result. -/
def Exits (body : σ → Next σ ρ) (state : σ) (result : ρ) : Prop :=
  ∃ fuel, iterate body fuel state = some result

/-- The states between the passes of the body. -/
abbrev Passes (body : σ → Next σ ρ) : σ → σ → Prop :=
  Relation.ReflTransGen fun state next => body state = .again next

variable {body : σ → Next σ ρ}

theorem exits_of_leave {state : σ} {result : ρ} (left : body state = .leave result) {other : ρ} :
    Exits body state other ↔ other = result := by
  constructor
  · rintro ⟨_ | fuel, exit⟩
    · cases exit
    · simpa [iterate, left] using exit.symm
  · rintro rfl
    exact ⟨1, by simp [iterate, left]⟩

theorem exits_of_again {state next : σ} (round : body state = .again next) {result : ρ} :
    Exits body state result ↔ Exits body next result := by
  constructor
  · rintro ⟨_ | fuel, exit⟩
    · cases exit
    · exact ⟨fuel, by simpa [iterate, round] using exit⟩
  · rintro ⟨fuel, exit⟩
    exact ⟨fuel + 1, by simpa [iterate, round] using exit⟩

/-- Two states with the same pass have the same exits. -/
theorem exits_congr {first second : σ} (same : body first = body second) {result : ρ} :
    Exits body first result ↔ Exits body second result := by
  cases pass : body second with
  | again next => rw [exits_of_again (same.trans pass), exits_of_again pass]
  | leave left => rw [exits_of_leave (same.trans pass), exits_of_leave pass]

/-- Passes in front of an exit change nothing about it. -/
theorem Passes.exits_iff {state next : σ} (passes : Passes body state next) {result : ρ} :
    Exits body state result ↔ Exits body next result := by
  induction passes with
  | refl => rfl
  | tail _ round ih => exact ih.trans (exits_of_again round)

/-- An exit is reached by passes that end in a state where the body leaves. -/
theorem Exits.passes {state : σ} {result : ρ} (exit : Exits body state result) :
    ∃ last, Passes body state last ∧ body last = .leave result := by
  obtain ⟨fuel, exit⟩ := exit
  induction fuel generalizing state with
  | zero => cases exit
  | succ fuel ih =>
      cases pass : body state with
      | leave left =>
          simp only [iterate, pass, Option.some.injEq] at exit
          exact ⟨state, .refl, exit ▸ pass⟩
      | again next =>
          simp only [iterate, pass] at exit
          obtain ⟨last, passes, left⟩ := ih exit
          exact ⟨last, .head pass passes, left⟩

/-- **A loop exits with at most one result.** -/
theorem Exits.unique {state : σ} {first second : ρ} (left : Exits body state first)
    (right : Exits body state second) : first = second := by
  obtain ⟨last, passes, leaves⟩ := left.passes
  exact ((exits_of_leave leaves).mp (passes.exits_iff.mp right)).symm

/-- **A loop that always goes round again never exits.** -/
theorem not_exits_of_invariant (stays : σ → Prop)
    (round : ∀ state, stays state → ∃ next, body state = .again next ∧ stays next) {state : σ}
    (start : stays state) (result : ρ) : ¬ Exits body state result := by
  rintro ⟨fuel, exit⟩
  induction fuel generalizing state with
  | zero => cases exit
  | succ fuel ih =>
      obtain ⟨next, again, stay⟩ := round state start
      exact ih stay (by simpa [iterate, again] using exit)

/-- Two passes from one state are comparable: the body is a function. -/
theorem Passes.total {state first second : σ} (left : Passes body state first)
    (right : Passes body state second) : Passes body first second ∨ Passes body second first :=
  Relation.ReflTransGen.total_of_right_unique
    (fun _ _ _ one two => Next.again.inj (one.symm.trans two)) left right

/-- A property that every pass keeps holds of every state between passes. -/
theorem Passes.invariant {keeps : σ → Prop}
    (round : ∀ state next, keeps state → body state = .again next → keeps next)
    {state next : σ} (passes : Passes body state next) (start : keeps state) : keeps next := by
  induction passes with
  | refl => exact start
  | tail _ again ih => exact round _ _ ih again

/-! ## Two loops side by side -/

section Simulation

variable {τ υ : Type*} {image : τ → Next τ υ}

/-- Two passes decide alike: related states to go on with, or related results. -/
inductive Next.Related (again : σ → τ → Prop) (leave : ρ → υ → Prop) :
    Next σ ρ → Next τ υ → Prop where
  | again {state : σ} {other : τ} (related : again state other) :
      Related again leave (.again state) (.again other)
  | leave {result : ρ} {other : υ} (related : leave result other) :
      Related again leave (.leave result) (.leave other)

/-- The two sides change places. -/
theorem Next.Related.flip {again : σ → τ → Prop} {leave : ρ → υ → Prop} {here : Next σ ρ}
    {there : Next τ υ} (related : Next.Related again leave here there) :
    Next.Related (fun other state => again state other) (fun other result => leave result other)
      there here := by
  cases related with
  | again related => exact .again related
  | leave related => exact .leave related

/-- **A loop that decides alike exits alike.** -/
theorem Exits.simulation {again : σ → τ → Prop} {leave : ρ → υ → Prop}
    (simulate : ∀ state other, again state other →
      Next.Related again leave (body state) (image other))
    {state : σ} {other : τ} {result : ρ} (exit : Exits body state result)
    (begin : again state other) : ∃ result', Exits image other result' ∧ leave result result' := by
  obtain ⟨fuel, exit⟩ := exit
  induction fuel generalizing state other with
  | zero => cases exit
  | succ fuel ih =>
      have alike := simulate state other begin
      generalize here : body state = decision at alike
      generalize there : image other = decision' at alike
      cases alike with
      | again related =>
          simp only [iterate, here] at exit
          obtain ⟨result', exits, final⟩ := ih related exit
          exact ⟨result', (exits_of_again there).mpr exits, final⟩
      | leave related =>
          simp only [iterate, here, Option.some.injEq] at exit
          exact ⟨_, (exits_of_leave there).mpr rfl, exit ▸ related⟩

end Simulation

end Foundations
