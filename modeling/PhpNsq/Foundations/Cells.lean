import Mathlib.Data.List.Range

/-!
# Memory as seen through a pointer

A pointer is the function from offsets to the values found there. Storing a list
of values at an offset changes exactly the cells the list covers, and a slice is
the list of values between two offsets. The lemmas say what a slice reads after a
store: the old values before the stored list (`slice_store_before`), the list
itself where it was stored (`slice_store_self`), and so the concatenation when
storing behind what was already collected (`slice_store_append`).
-/

set_option autoImplicit false

namespace Foundations

/-- The memory behind a pointer: the value at every offset. -/
abbrev Cells (α : Type*) := ℕ → α

namespace Cells

variable {α : Type*}

/-- The pointer moved forward by an offset. -/
def advance (cells : Cells α) (offset : ℕ) : Cells α := fun index => cells (offset + index)

/-- The values of `count` cells from an offset on. -/
def slice (cells : Cells α) (offset count : ℕ) : List α :=
  (List.range count).map fun index => cells (offset + index)

/-- Copy a list of values to an offset. -/
def store (cells : Cells α) (offset : ℕ) (values : List α) : Cells α := fun index =>
  if offset ≤ index then values[index - offset]?.getD (cells index) else cells index

@[simp] theorem length_slice (cells : Cells α) (offset count : ℕ) :
    (cells.slice offset count).length = count := by
  simp [slice]

@[simp] theorem slice_zero (cells : Cells α) (offset : ℕ) : cells.slice offset 0 = [] := rfl

@[simp] theorem store_nil (cells : Cells α) (offset : ℕ) : cells.store offset [] = cells := by
  funext index
  simp [store]

@[simp] theorem slice_advance (cells : Cells α) (offset start count : ℕ) :
    (cells.advance offset).slice start count = cells.slice (offset + start) count := by
  simp [slice, advance, Nat.add_assoc]

theorem slice_succ (cells : Cells α) (offset count : ℕ) :
    cells.slice offset (count + 1) = cells offset :: cells.slice (offset + 1) count := by
  simp only [slice, List.range_succ_eq_map, List.map_cons, List.map_map, Nat.add_zero]
  congr 1
  exact List.map_congr_left fun index _ => by
    simp only [Function.comp_apply, Nat.succ_eq_add_one]
    congr 1
    omega

theorem slice_add (cells : Cells α) (offset first second : ℕ) :
    cells.slice offset (first + second) =
      cells.slice offset first ++ cells.slice (offset + first) second := by
  simp [slice, List.range_add, Function.comp_def, Nat.add_assoc]

/-- A slice is determined by the cells it reads. -/
theorem slice_congr {first second : Cells α} {offset count : ℕ}
    (agree : ∀ index < count, first (offset + index) = second (offset + index)) :
    first.slice offset count = second.slice offset count :=
  List.map_congr_left fun index member => agree index (List.mem_range.mp member)

/-- A slice inside a slice. -/
theorem take_drop_slice (cells : Cells α) {offset count start width : ℕ}
    (within : start + width ≤ count) :
    ((cells.slice offset count).drop start).take width = cells.slice (offset + start) width := by
  obtain ⟨rest, rfl⟩ := Nat.exists_eq_add_of_le within
  rw [Nat.add_assoc, slice_add, List.drop_left' (length_slice ..), slice_add,
    List.take_left' (length_slice ..)]

/-- The middle part of what a slice holds, at its place. -/
theorem slice_of_append {cells : Cells α} {before middle after : List α} {size start width : ℕ}
    (holds : cells.slice 0 size = before ++ (middle ++ after)) (place : before.length = start)
    (length : middle.length = width) : cells.slice start width = middle := by
  have total := congrArg List.length holds
  simp only [length_slice, List.length_append] at total
  have part : ((cells.slice 0 size).drop start).take width = cells.slice (0 + start) width :=
    take_drop_slice cells (by omega)
  rw [Nat.zero_add] at part
  rw [← part, holds, List.drop_left' place, List.take_left' length]

theorem slice_store_before (cells : Cells α) {offset start count : ℕ} (values : List α)
    (before : start + count ≤ offset) :
    (cells.store offset values).slice start count = cells.slice start count :=
  slice_congr fun index bound => if_neg (by omega)

theorem slice_store_self (cells : Cells α) (offset : ℕ) (values : List α) :
    (cells.store offset values).slice offset values.length = values := by
  apply List.ext_getElem
  · simp
  · intro index _ bound
    simp [slice, store, bound]

/-- A list stored over a constant is read with the constant behind it. -/
theorem slice_store_const (value : α) {values : List α} {width : ℕ}
    (short : values.length ≤ width) :
    (store (fun _ => value) 0 values).slice 0 width =
      values ++ List.replicate (width - values.length) value := by
  obtain ⟨rest, rfl⟩ := Nat.exists_eq_add_of_le short
  have stored := slice_store_self (fun _ => value) 0 values
  have behind : (store (fun _ => value) 0 values).slice (0 + values.length) rest =
      List.replicate rest value := by
    apply List.ext_getElem
    · simp
    · intro index _ _
      simp [slice, store]
  rw [slice_add, stored, behind, Nat.add_sub_cancel_left]

/-- **Storing behind what was collected appends to it.** -/
theorem slice_store_append {cells : Cells α} {collected : List α} (values : List α)
    (sofar : cells.slice 0 collected.length = collected) :
    (cells.store collected.length values).slice 0 (collected.length + values.length) =
      collected ++ values := by
  have front : (cells.store collected.length values).slice 0 collected.length = collected := by
    rw [slice_store_before cells values (by omega), sofar]
  have back := slice_store_self cells collected.length values
  rw [slice_add, front, Nat.zero_add, back]

/-- Two stores, one behind the other, are one. -/
theorem store_store (cells : Cells α) (first second : List α) :
    (cells.store 0 first).store first.length second = cells.store 0 (first ++ second) := by
  funext index
  by_cases before : index < first.length
  · have outside : ¬ first.length ≤ index := by omega
    simp [store, outside, List.getElem?_append_left before]
  · have inside : first.length ≤ index := by omega
    simp [store, inside, List.getElem?_append_right inside]

/-- A store of one value. -/
theorem store_singleton (cells : Cells α) (offset index : ℕ) (value : α) :
    cells.store offset [value] index = if index = offset then value else cells index := by
  rw [store]
  split
  · next behind =>
      split
      · next here => simp [here]
      · next apart =>
          rw [List.getElem?_eq_none (by rw [List.length_singleton]; omega)]
          rfl
  · next before => rw [if_neg (by omega)]

/-- A store leaves the cells behind it unchanged. -/
theorem store_of_le (cells : Cells α) {offset index : ℕ} {values : List α}
    (behind : offset + values.length ≤ index) : cells.store offset values index = cells index := by
  have outside : values[index - offset]? = none := List.getElem?_eq_none (by omega)
  simp [store, outside]

end Cells

end Foundations
