import PhpNsq.Foundations.Cells

/-!
# Assembling a text in a buffer

A text is assembled piece by piece: each piece is stored at an offset, and the offset moves behind
it. A C string is stored with its terminator, which the next piece overwrites. `extent` is the
end of what was ever stored, so the buffer is not overrun when it reaches that far.

What was assembled is the concatenation of the pieces (`holds_put`, `holds_putString`). In a buffer
that was cleared, the terminator and the cells behind it are clear (`Clear`).
-/

set_option autoImplicit false

namespace Foundations

/-- A buffer in which a text is assembled. -/
structure Assembly (α : Type*) where
  cells : Cells α
  offset : ℕ
  extent : ℕ

namespace Assembly

variable {α : Type*}

/-- Nothing was stored. -/
def start (memory : Cells α) : Assembly α := ⟨memory, 0, 0⟩

/-- Fill the beginning with a value. -/
def fill (value : α) (count : ℕ) (a : Assembly α) : Assembly α where
  cells := a.cells.store 0 (List.replicate count value)
  offset := a.offset
  extent := max a.extent count

/-- Store a piece. -/
def put (values : List α) (a : Assembly α) : Assembly α where
  cells := a.cells.store a.offset values
  offset := a.offset + values.length
  extent := max a.extent (a.offset + values.length)

/-- Store a piece with a terminator behind it. -/
def putString (terminator : α) (values : List α) (a : Assembly α) : Assembly α where
  cells := a.cells.store a.offset (values ++ [terminator])
  offset := a.offset + values.length
  extent := max a.extent (a.offset + values.length + 1)

/-- The text that was assembled. -/
structure Holds (a : Assembly α) (text : List α) : Prop where
  offset : a.offset = text.length
  slice : a.cells.slice 0 text.length = text

variable {a : Assembly α} {text values : List α} {value : α} {count : ℕ}

theorem holds_start (memory : Cells α) : (start memory).Holds [] := ⟨rfl, rfl⟩

theorem holds_fill (memory : Cells α) : ((start memory).fill value count).Holds [] := ⟨rfl, rfl⟩

/-- **A piece is appended.** -/
theorem holds_put (holds : a.Holds text) : (a.put values).Holds (text ++ values) := by
  constructor
  · rw [put, holds.offset, List.length_append]
  · rw [put, holds.offset, List.length_append]
    exact Cells.slice_store_append values holds.slice

/-- So is a piece with a terminator. -/
theorem holds_putString (holds : a.Holds text) :
    (a.putString value values).Holds (text ++ values) := by
  have stored : (a.cells.store text.length (values ++ [value])).slice 0
      (text.length + (values ++ [value]).length) = [] ++ ((text ++ values) ++ [value]) := by
    rw [Cells.slice_store_append _ holds.slice, List.nil_append, List.append_assoc]
  constructor
  · rw [putString, holds.offset, List.length_append]
  · rw [putString, holds.offset]
    exact Cells.slice_of_append stored rfl rfl

/-- The cells behind the text have this value, up to a count. -/
def Clear (value : α) (count : ℕ) (a : Assembly α) : Prop :=
  ∀ index, a.offset ≤ index → index < count → a.cells index = value

theorem clear_fill (memory : Cells α) : ((start memory).fill value count).Clear value count := by
  intro index _ inside
  have here : (List.replicate count value)[index]? = some value := by
    rw [List.getElem?_replicate, if_pos inside]
  simp [fill, Cells.store, here]

theorem clear_put (clear : a.Clear value count) : (a.put values).Clear value count := by
  intro index (behind : a.offset + values.length ≤ index) inside
  change a.cells.store a.offset values index = value
  rw [Cells.store_of_le _ behind]
  exact clear index (by omega) inside

theorem clear_putString (clear : a.Clear value count) :
    (a.putString value values).Clear value count := by
  intro index (behind : a.offset + values.length ≤ index) inside
  by_cases here : index = a.offset + values.length
  · have place : a.offset ≤ index := by omega
    have last : index - a.offset = values.length := by omega
    simp [putString, Cells.store, place, last]
  · change a.cells.store a.offset (values ++ [value]) index = value
    rw [Cells.store_of_le _ (by rw [List.length_append, List.length_singleton]; omega)]
    exact clear index (by omega) inside

/-- **The text in a cleared buffer.** -/
theorem slice_of_clear (holds : a.Holds text) (clear : a.Clear value count)
    (inside : text.length ≤ count) :
    a.cells.slice 0 count = text ++ List.replicate (count - text.length) value := by
  obtain ⟨rest, rfl⟩ := Nat.exists_eq_add_of_le inside
  have behind : a.cells.slice (0 + text.length) rest = List.replicate rest value := by
    apply List.ext_getElem
    · simp
    · intro index bound _
      rw [Cells.length_slice] at bound
      have here := clear (text.length + index) (by rw [holds.offset]; omega) (by omega)
      simp [Cells.slice, here]
  rw [Cells.slice_add, holds.slice, behind, Nat.add_sub_cancel_left]

end Assembly

end Foundations
