import PhpNsq.Foundations.BigEndian
import PhpNsq.Foundations.Cells

/-!
# Strings that are copied to blocks of memory

A string in memory ends at its first NUL, and a copy of it stores the NUL as well. A block of the
size of the text has no room for that: the NUL comes to stand in the first byte behind the block,
which belongs to somebody else.

Copies to blocks that lie apart, and have room for them, do not meet: each block holds what its own
copy stored in it (`copied_of_mem`), so its text is read back (`stringAt_copied`). Without room for
the NUL somebody else may store another byte there, and the text goes on (`stringAt_overwritten`).
-/

set_option autoImplicit false

namespace Foundations

/-- A copy of a string to a block of some size. -/
structure StringCopy where
  block : ℕ
  size : ℕ
  text : Bytes
  deriving DecidableEq

namespace StringCopy

/-- The text and the terminator are stored, whatever the size of the block is. -/
def store (copy : StringCopy) (cells : Cells UInt8) : Cells UInt8 :=
  cells.store copy.block (copy.text ++ [0])

/-- The address is one of the block. -/
def Covers (copy : StringCopy) (address : ℕ) : Prop :=
  copy.block ≤ address ∧ address < copy.block + copy.size

/-- One block ends where the other begins, or before. -/
def Apart (first second : StringCopy) : Prop :=
  first.block + first.size ≤ second.block ∨ second.block + second.size ≤ first.block

/-- The block has room for the terminator. -/
def Fits (copy : StringCopy) : Prop := copy.text.length < copy.size

variable {copy other : StringCopy} {cells : Cells UInt8} {address : ℕ}

theorem Apart.symm (apart : copy.Apart other) : other.Apart copy := Or.symm apart

theorem Apart.not_covers (apart : copy.Apart other) (covers : other.Covers address) :
    ¬ copy.Covers address := by
  rintro ⟨low, high⟩
  obtain ⟨low', high'⟩ := covers
  rcases apart with before | behind
  · omega
  · omega

/-- What is copied to a block with room for it changes nothing outside of the block. -/
theorem store_of_not_covers (fits : copy.Fits) (outside : ¬ copy.Covers address) :
    copy.store cells address = cells address := by
  have stored : copy.block ≤ address → copy.block + (copy.text ++ [0]).length ≤ address := by
    intro low
    by_contra within
    rw [List.length_append, List.length_singleton] at within
    rw [Fits] at fits
    exact outside ⟨low, by omega⟩
  by_cases low : copy.block ≤ address
  · exact cells.store_of_le (stored low)
  · exact if_neg low

/-- In its own block the copy does not depend on what was there, as far as it goes. -/
theorem store_congr {cells' : Cells UInt8} (same : cells address = cells' address) :
    copy.store cells address = copy.store cells' address := by
  rw [store, store, Cells.store, Cells.store, same]

end StringCopy

/-- Copies one after the other. -/
def copied (cells : Cells UInt8) (copies : List StringCopy) : Cells UInt8 :=
  copies.foldl (fun cells copy => copy.store cells) cells

section Copied

variable {cells : Cells UInt8} {copies : List StringCopy} {address : ℕ}

/-- Outside of all blocks nothing is changed. -/
theorem copied_of_not_covers (fits : ∀ copy ∈ copies, copy.Fits)
    (outside : ∀ copy ∈ copies, ¬ copy.Covers address) :
    copied cells copies address = cells address := by
  induction copies generalizing cells with
  | nil => rfl
  | cons copy copies ih =>
      obtain ⟨here, others⟩ := List.forall_mem_cons.mp fits
      obtain ⟨apart, beyond⟩ := List.forall_mem_cons.mp outside
      exact (ih others beyond).trans (StringCopy.store_of_not_covers here apart)

/-- **A block holds what its own copy stored**, when the blocks lie apart and have room. -/
theorem copied_of_mem (apart : copies.Pairwise StringCopy.Apart)
    (fits : ∀ copy ∈ copies, copy.Fits) {copy : StringCopy} (member : copy ∈ copies)
    (covers : copy.Covers address) : copied cells copies address = copy.store cells address := by
  induction copies generalizing cells with
  | nil => cases member
  | cons first copies ih =>
      obtain ⟨here, others⟩ := List.forall_mem_cons.mp fits
      obtain ⟨away, apart⟩ := List.pairwise_cons.mp apart
      rcases List.mem_cons.mp member with rfl | later
      · exact copied_of_not_covers others fun other inside =>
          (away other inside).symm.not_covers covers
      · have untouched := (away copy later).not_covers covers
        calc copied (first.store cells) copies address
            = copy.store (first.store cells) address := ih apart others later
          _ = copy.store cells address :=
              StringCopy.store_congr (StringCopy.store_of_not_covers here untouched)

/-- The text and its terminator stand at the beginning of the block. -/
theorem slice_copied (apart : copies.Pairwise StringCopy.Apart)
    (fits : ∀ copy ∈ copies, copy.Fits) {copy : StringCopy} (member : copy ∈ copies) :
    (copied cells copies).slice copy.block (copy.text.length + 1) = copy.text ++ [0] := by
  have room := fits copy member
  rw [StringCopy.Fits] at room
  have stored : (copied cells copies).slice copy.block (copy.text.length + 1) =
      (copy.store cells).slice copy.block (copy.text.length + 1) := by
    apply Cells.slice_congr
    intro index bound
    exact copied_of_mem apart fits member ⟨by omega, by omega⟩
  have length : copy.text.length + 1 = (copy.text ++ [0]).length := by
    rw [List.length_append, List.length_singleton]
  rw [stored, length]
  exact Cells.slice_store_self cells copy.block _

end Copied

/-! ## Reading -/

/-- The string at an address: what stands in front of the first NUL. There is none when the memory
that is mapped ends before. -/
def stringAt (cells : Cells UInt8) (mapped address : ℕ) : Option Bytes :=
  let found := cells.slice address (mapped - address)
  if (0 : UInt8) ∈ found then some (found.takeWhile fun byte => byte != 0) else none

/-- A text with its terminator is read. -/
theorem stringAt_of_slice {cells : Cells UInt8} {mapped address : ℕ} {text : Bytes}
    (free : (0 : UInt8) ∉ text) (room : address + text.length < mapped)
    (stored : cells.slice address (text.length + 1) = text ++ [0]) :
    stringAt cells mapped address = some text := by
  obtain ⟨behind, count⟩ := Nat.exists_eq_add_of_le (show text.length + 1 ≤ mapped - address by omega)
  have found : cells.slice address (mapped - address) =
      text ++ 0 :: cells.slice (address + (text.length + 1)) behind := by
    rw [count, Cells.slice_add, stored, List.append_assoc, List.singleton_append]
  have nonzero : ∀ byte ∈ text, (byte != 0) = true := by
    intro byte member
    have different : byte ≠ 0 := fun zero => free (zero ▸ member)
    simpa using different
  rw [stringAt, found, if_pos (List.mem_append_right _ List.mem_cons_self),
    List.takeWhile_append_of_pos nonzero, List.takeWhile_cons_of_neg (by decide), List.append_nil]

/-- **What was copied is read back**, from a memory that agrees on the block. -/
theorem stringAt_copied {before cells : Cells UInt8} {copies : List StringCopy} {mapped : ℕ}
    (apart : copies.Pairwise StringCopy.Apart) (fits : ∀ copy ∈ copies, copy.Fits)
    {copy : StringCopy} (member : copy ∈ copies) (free : (0 : UInt8) ∉ copy.text)
    (inside : copy.block + copy.size ≤ mapped)
    (kept : ∀ address, copy.Covers address → cells address = copied before copies address) :
    stringAt cells mapped copy.block = some copy.text := by
  have room := fits copy member
  rw [StringCopy.Fits] at room
  refine stringAt_of_slice free (by omega) ?_
  rw [← slice_copied apart fits member]
  apply Cells.slice_congr
  intro index bound
  exact kept _ ⟨by omega, by omega⟩

/-! ## Without room -/

/-- The copy to a block of another size. -/
def StringCopy.resize (copy : StringCopy) (size : ℕ) : StringCopy := { copy with size := size }

/-- What is copied does not depend on the sizes. -/
theorem copied_resize (cells : Cells UInt8) (copies : List StringCopy) (width : ℕ) :
    copied cells (copies.map (·.resize width)) = copied cells copies :=
  List.foldl_map

/-- The copies with a byte of somebody else over the terminator of one of them. -/
def overwritten (copies : List StringCopy) (copy : StringCopy) (byte : UInt8) : Cells UInt8 :=
  Function.update (copied (fun _ => 0) copies) (copy.block + copy.text.length) byte

section Overwritten

variable {copies : List StringCopy} {copy bad : StringCopy} {width mapped : ℕ} {byte : UInt8}
  (spread : copies.Pairwise fun first second => (first.resize width).Apart (second.resize width))
  (short : ∀ copy ∈ copies, copy.text.length + 1 < width) (member : bad ∈ copies)

include spread short

/-- The blocks hold what was copied to them, and nothing behind it. -/
theorem copied_of_spread (inside : copy ∈ copies) {address : ℕ}
    (covers : (copy.resize width).Covers address) :
    copied (fun _ => 0) copies address = copy.store (fun _ => 0) address := by
  have apart : (copies.map (·.resize width)).Pairwise StringCopy.Apart :=
    List.pairwise_map.mpr spread
  have fits : ∀ wide ∈ copies.map (·.resize width), wide.Fits :=
    List.forall_mem_map.mpr fun copy inside => Nat.lt_of_succ_lt (short copy inside)
  have wide : copy.resize width ∈ copies.map (·.resize width) :=
    List.mem_map.mpr ⟨copy, inside, rfl⟩
  have holds : copied (fun _ => 0) (copies.map (·.resize width)) address =
      (copy.resize width).store (fun _ => 0) address := copied_of_mem apart fits wide covers
  rw [copied_resize] at holds
  exact holds

include member

/-- The byte behind a text belongs to no other copy. -/
theorem terminator_not_covers (other : copy ∈ copies) (different : copy ≠ bad) :
    ¬ (copy.resize width).Covers (bad.block + bad.text.length) := by
  have symmetric : Std.Symm fun first second : StringCopy =>
      (first.resize width).Apart (second.resize width) := ⟨fun _ _ => StringCopy.Apart.symm⟩
  have apart := spread.forall other member different
  have within := short bad member
  exact apart.not_covers ⟨Nat.le_add_right .., Nat.add_lt_add_left (Nat.lt_of_succ_lt within) _⟩

/-- The blocks hold what was copied to them when the terminator is in none of them. -/
theorem overwritten_of_covers (sizes : ∀ copy ∈ copies, copy.size ≤ width)
    (full : bad.size ≤ bad.text.length) (other : copy ∈ copies) {address : ℕ}
    (covers : copy.Covers address) :
    overwritten copies bad byte address = copied (fun _ => 0) copies address := by
  refine Function.update_of_ne ?_ _ _
  rintro rfl
  obtain ⟨low, high⟩ := covers
  by_cases same : copy = bad
  · subst same
    omega
  · have room := sizes copy other
    refine terminator_not_covers spread short member other same ⟨low, ?_⟩
    exact lt_of_lt_of_le high (Nat.add_le_add_left room _)

/-- The other texts are read as they were copied. -/
theorem stringAt_overwritten_of_ne (free : (0 : UInt8) ∉ copy.text) (other : copy ∈ copies)
    (different : copy ≠ bad) (inside : copy.block + width ≤ mapped) :
    stringAt (overwritten copies bad byte) mapped copy.block = some copy.text := by
  have within := short copy other
  have length : (copy.text ++ [0]).length = copy.text.length + 1 := by
    rw [List.length_append, List.length_singleton]
  have stored := Cells.slice_store_self (fun _ => 0) copy.block (copy.text ++ [0])
  rw [length] at stored
  refine stringAt_of_slice free (by omega) (Eq.trans ?_ stored)
  apply Cells.slice_congr
  intro index bound
  have covers : (copy.resize width).Covers (copy.block + index) :=
    ⟨Nat.le_add_right .., Nat.add_lt_add_left (Nat.lt_trans (length ▸ bound) within) _⟩
  have elsewhere : copy.block + index ≠ bad.block + bad.text.length := fun same =>
    terminator_not_covers spread short member other different (same ▸ covers)
  rw [overwritten, Function.update_of_ne elsewhere, copied_of_spread spread short other covers]
  rfl

/-- **A text whose terminator was overwritten goes on** behind its block. -/
theorem stringAt_overwritten (free : (0 : UInt8) ∉ bad.text) (nonzero : byte ≠ 0)
    (inside : bad.block + width ≤ mapped) :
    stringAt (overwritten copies bad byte) mapped bad.block = some (bad.text ++ [byte]) := by
  have within := short bad member
  have holds : ∀ index < width, index ≠ bad.text.length →
      overwritten copies bad byte (bad.block + index) =
        bad.store (fun _ => 0) (bad.block + index) := by
    intro index bound apart
    rw [overwritten, Function.update_of_ne (by omega)]
    exact copied_of_spread spread short member
      ⟨Nat.le_add_right .., Nat.add_lt_add_left bound _⟩
  have front : (overwritten copies bad byte).slice bad.block bad.text.length = bad.text := by
    have stored : (bad.store fun _ => 0).slice bad.block (bad.text.length + 1) =
        bad.text ++ [0] := by
      have self := Cells.slice_store_self (fun _ => 0) bad.block (bad.text ++ [0])
      rwa [List.length_append] at self
    rw [Cells.slice_add] at stored
    refine Eq.trans ?_ (List.append_inj_left stored (Cells.length_slice ..))
    apply Cells.slice_congr
    intro index bound
    exact holds index (by omega) (by omega)
  have terminator : overwritten copies bad byte (bad.block + bad.text.length) = byte :=
    Function.update_self ..
  have behind : overwritten copies bad byte (bad.block + (bad.text.length + 1)) = 0 := by
    rw [holds _ within (Nat.succ_ne_self _)]
    refine Cells.store_of_le _ ?_
    rw [List.length_append, List.length_singleton]
  have length : (bad.text ++ [byte]).length = bad.text.length + 1 := by
    rw [List.length_append, List.length_singleton]
  refine stringAt_of_slice ?_ (by omega) ?_
  · rw [List.mem_append, List.mem_singleton, not_or]
    exact ⟨free, nonzero.symm⟩
  · rw [length, Nat.add_assoc, Cells.slice_add, front, Cells.slice_succ, Cells.slice_succ,
      Cells.slice_zero, terminator, Nat.add_assoc, behind, List.append_assoc]
    rfl

end Overwritten

end Foundations
