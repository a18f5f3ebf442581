import Mathlib.Data.List.Nodup
import Mathlib.Data.List.Range

/-!
# Walks of a pointer over an array

A loop that goes over an array keeps a pointer in its state, and a pass works on the entry
that the pointer leads to. `visits` is the entries of all passes; a pass that does not come to
its end is the last one. When every pass but the last moves the pointer from one place to
the next, the entries are those places, in order (`visits_within`, `visits_eq`).

Going up from the first entry and going down from the last are the two walks that visit
every entry of the array once and nothing outside of it (`WalksOnce.up`, `WalksOnce.down`).
-/

set_option autoImplicit false

namespace Foundations

variable {σ ℓ : Type*}

/-- The pointer in front of every pass. -/
def visits (step : σ → ℓ → Option σ) (pointer : σ → ℤ) : σ → List ℓ → List ℤ
  | _, [] => []
  | s, label :: labels =>
      pointer s :: (step s label).elim [] fun next => visits step pointer next labels

section Visits

variable {step : σ → ℓ → Option σ} {pointer : σ → ℤ} {start last : σ} {labels : List ℓ}

/-- A loop that comes to its end has all its passes. -/
theorem length_visits (done : labels.foldlM step start = some last) :
    (visits step pointer start labels).length = labels.length := by
  induction labels generalizing start with
  | nil => rfl
  | cons label labels ih =>
      rw [List.foldlM_cons] at done
      obtain ⟨next, one, more⟩ := Option.bind_eq_some_iff.mp done
      rw [visits, one, Option.elim_some, List.length_cons, ih more, List.length_cons]

variable (holds : ℕ → σ → Prop) {place : ℕ → ℤ} {count : ℕ}

/-- **The entries of the passes** are the places of a property that every pass keeps, as far as
the passes go. -/
theorem visits_within
    (at_place : ∀ passes s, passes < count → holds passes s → pointer s = place passes)
    (keep : ∀ passes s label next, holds passes s → step s label = some next →
      holds (passes + 1) next)
    (initial : holds 0 start) (within : labels.length ≤ count) :
    visits step pointer start labels <+: (List.range labels.length).map place := by
  have from_pass : ∀ (labels : List ℓ) (passes : ℕ) (s : σ), holds passes s →
      passes + labels.length ≤ count →
      visits step pointer s labels <+: (List.range' passes labels.length).map place := by
    intro labels
    induction labels with
    | nil => exact fun _ _ _ _ => List.nil_prefix
    | cons label labels ih =>
        intro passes s here within
        rw [List.length_cons] at within ⊢
        rw [visits, List.range'_succ, List.map_cons, List.cons_prefix_cons]
        refine ⟨at_place passes s (by omega) here, ?_⟩
        cases one : step s label with
        | none => exact List.nil_prefix
        | some next => exact ih (passes + 1) next (keep passes s label next here one) (by omega)
  rw [List.range_eq_range']
  exact from_pass labels 0 start initial (by omega)

/-- A loop that comes to its end visits all of them. -/
theorem visits_eq
    (at_place : ∀ passes s, passes < count → holds passes s → pointer s = place passes)
    (keep : ∀ passes s label next, holds passes s → step s label = some next →
      holds (passes + 1) next)
    (initial : holds 0 start) (within : labels.length ≤ count)
    (done : labels.foldlM step start = some last) :
    visits step pointer start labels = (List.range labels.length).map place := by
  refine (visits_within holds at_place keep initial within).eq_of_length ?_
  rw [length_visits done, List.length_map, List.length_range]

end Visits

/-- A walk over an array of so many entries: these places in order, every entry once, and nothing
outside of the array. -/
structure WalksOnce (visited : List ℤ) (place : ℕ → ℤ) (count : ℕ) : Prop where
  order : visited = (List.range count).map place
  nodup : visited.Nodup
  covers : ∀ index, index ∈ visited ↔ 0 ≤ index ∧ index < count

namespace WalksOnce

variable {visited : List ℤ} {count : ℕ}

/-- From the first entry to the last. -/
theorem up (order : visited = (List.range count).map fun i : ℕ => (i : ℤ)) :
    WalksOnce visited (fun i => i) count := by
  refine ⟨order, ?_, ?_⟩
  · rw [order]
    exact List.nodup_range.map fun first second same => Int.ofNat.inj same
  · intro index
    rw [order, List.mem_map]
    constructor
    · rintro ⟨i, inside, rfl⟩
      have := List.mem_range.mp inside
      omega
    · rintro ⟨nonneg, below⟩
      exact ⟨index.toNat, List.mem_range.mpr (by omega), by omega⟩

/-- From the last entry to the first. -/
theorem down (order : visited = (List.range count).map fun i : ℕ => (count : ℤ) - 1 - i) :
    WalksOnce visited (fun i => (count : ℤ) - 1 - i) count := by
  refine ⟨order, ?_, ?_⟩
  · rw [order]
    refine List.nodup_range.map ?_
    intro first second (same : (count : ℤ) - 1 - first = count - 1 - second)
    omega
  · intro index
    rw [order, List.mem_map]
    constructor
    · rintro ⟨i, inside, rfl⟩
      have := List.mem_range.mp inside
      omega
    · rintro ⟨nonneg, below⟩
      exact ⟨(count - 1 - index).toNat, List.mem_range.mpr (by omega), by omega⟩

end WalksOnce

end Foundations
