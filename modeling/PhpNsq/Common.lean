import Mathlib.Data.List.TakeWhile
import PhpNsq.Foundations.BigEndian
import PhpNsq.Foundations.Cells

/-!
# The byte readers of common.c and the C strings of the extension

`readI16`, `readI32` and `ntoh64` read big-endian integers through a pointer. Each
is the number that the bytes denote, in the type of its result: `readI32` gives a
signed 32-bit value, so a size prefix of `2 ^ 31` or more is negative
(`readI32_eq`).

A `char *` argument is the list of the bytes it leads to, and `cString` is the part
before the first NUL. `sprintf` into an array writes the text and a terminator; when
they do not fit, the array is overrun and the model has no result.
-/

set_option autoImplicit false

namespace PhpNsq

open Foundations

/-- `INT_MAX` of a 32-bit `int`. -/
def intMax : ℤ := 2 ^ 31 - 1

/-! ## Big-endian readers -/

def readI16 (pData : Cells UInt8) : UInt16 :=
  UInt16.ofNat ((pData 0).toNat <<< 8 ||| (pData 1).toNat)

/-- The result is stored through an `int32_t *`, so it is the signed 32-bit value
of the bits. -/
def readI32 (pData : Cells UInt8) : ℤ :=
  (((pData 0).toNat <<< 24 ||| (pData 1).toNat <<< 16 ||| (pData 2).toNat <<< 8 |||
    (pData 3).toNat : ℕ) : ℤ).bmod (2 ^ 32)

def ntoh64 (data : Cells UInt8) : UInt64 :=
  UInt64.ofNat ((data 7).toNat ||| (data 6).toNat <<< 8 ||| (data 5).toNat <<< 16 |||
    (data 4).toNat <<< 24 ||| (data 3).toNat <<< 32 ||| (data 2).toNat <<< 40 |||
    (data 1).toNat <<< 48 ||| (data 0).toNat <<< 56)

theorem slice_two (cells : Cells UInt8) : cells.slice 0 2 = [cells 0, cells 1] := rfl

theorem slice_four (cells : Cells UInt8) :
    cells.slice 0 4 = [cells 0, cells 1, cells 2, cells 3] := rfl

theorem slice_eight (cells : Cells UInt8) :
    cells.slice 0 8 = [cells 0, cells 1, cells 2, cells 3, cells 4, cells 5, cells 6, cells 7] :=
  rfl

theorem readI16_eq (pData : Cells UInt8) :
    readI16 pData = UInt16.ofNat (ofBigEndian (pData.slice 0 2)) := by
  rw [slice_two, ← joinHigh_eq]
  simp [readI16, joinHigh]

theorem readI32_eq (pData : Cells UInt8) :
    readI32 pData = (ofBigEndian (pData.slice 0 4) : ℤ).bmod (2 ^ 32) := by
  have joined : (pData 0).toNat <<< 24 ||| (pData 1).toNat <<< 16 ||| (pData 2).toNat <<< 8 |||
      (pData 3).toNat = ofBigEndian (pData.slice 0 4) := by
    rw [slice_four, ← joinHigh_eq]
    simp only [joinHigh, List.foldl_cons, List.foldl_nil, Nat.shiftLeft_or_distrib,
      ← Nat.shiftLeft_add, Nat.zero_shiftLeft, Nat.zero_or, Nat.reduceAdd]
  exact congrArg (fun n : ℕ => (n : ℤ).bmod (2 ^ 32)) joined

theorem ntoh64_eq (data : Cells UInt8) :
    ntoh64 data = UInt64.ofNat (ofBigEndian (data.slice 0 8)) := by
  have joined := joinLow_eq [data 6, data 5, data 4, data 3, data 2, data 1, data 0]
    (show (data 7).toNat < 2 ^ 8 from (data 7).toNat_lt)
  have split : ofBigEndian (data.slice 0 8) =
      ofBigEndian [data 0, data 1, data 2, data 3, data 4, data 5, data 6] * 2 ^ 8 +
        (data 7).toNat := by
    rw [slice_eight]
    exact (ofBigEndian_append [data 0, data 1, data 2, data 3, data 4, data 5, data 6]
      [data 7]).trans (by simp [ofBigEndian_cons])
  rw [split]
  exact congrArg UInt64.ofNat joined

/-- A number below `2 ^ 31` is read back by `readI32`. -/
theorem readI32_of_slice {pData : Cells UInt8} {n : ℕ} (bytes : pData.slice 0 4 = bigEndian 4 n)
    (bound : n < 2 ^ 31) : readI32 pData = n := by
  rw [readI32_eq, bytes, ofBigEndian_bigEndian_of_lt (by omega)]
  exact Int.bmod_eq_of_le (by omega) (by omega)

/-! ## C strings -/

/-- The part of a `char *` argument before the first NUL. -/
def cString (bytes : Bytes) : Bytes := bytes.takeWhile fun byte => byte != 0

theorem bne_zero_of_notMem {bytes : Bytes} (free : (0 : UInt8) ∉ bytes) :
    ∀ byte ∈ bytes, (byte != 0) = true := by
  intro byte member
  have nonzero : byte ≠ 0 := fun zero => free (zero ▸ member)
  simpa using nonzero

theorem cString_of_notMem {bytes : Bytes} (free : (0 : UInt8) ∉ bytes) : cString bytes = bytes := by
  have whole : (bytes ++ []).takeWhile (fun byte => byte != 0) = bytes ++ _ :=
    List.takeWhile_append_of_pos (bne_zero_of_notMem free)
  simpa [cString] using whole

/-- A NUL ends the string. -/
theorem cString_append_nul {bytes : Bytes} (free : (0 : UInt8) ∉ bytes) (rest : Bytes) :
    cString (bytes ++ 0 :: rest) = bytes := by
  rw [cString, List.takeWhile_append_of_pos (bne_zero_of_notMem free)]
  simp

/-- The terminator of a C string is not part of it. -/
theorem cString_append_zero (bytes : Bytes) : cString (bytes ++ [0]) = cString bytes := by
  induction bytes with
  | nil => rfl
  | cons byte bytes ih =>
      rw [cString, cString, List.cons_append, List.takeWhile_cons, List.takeWhile_cons]
      by_cases zero : (byte != 0) = true
      · rw [if_pos zero, if_pos zero]
        exact congrArg (byte :: ·) ih
      · rw [if_neg zero, if_neg zero]

theorem zero_not_mem_cString (bytes : Bytes) : (0 : UInt8) ∉ cString bytes := by
  intro member
  have nonzero := List.mem_takeWhile_imp member
  simp at nonzero

theorem length_cString_le (bytes : Bytes) : (cString bytes).length ≤ bytes.length :=
  (List.takeWhile_prefix _).length_le

/-- `sprintf` into an array of `room` bytes. -/
def sprintf (room : ℕ) (text : Bytes) : Option Bytes :=
  if text.length + 1 ≤ room then some text else none

/-- `snprintf` into an array of `room` bytes, which cuts the text. -/
def snprintf (room : ℕ) (text : Bytes) : Bytes := text.take (room - 1)

theorem sprintf_eq_some {room : ℕ} {text written : Bytes} :
    sprintf room text = some written ↔ text.length + 1 ≤ room ∧ text = written := by
  rw [sprintf]
  split
  · next fits => simp [fits]
  · next fits => simp [fits]

theorem snprintf_of_lt {room : ℕ} {text : Bytes} (fits : text.length < room) :
    snprintf room text = text :=
  List.take_of_length_le (by omega)

/-- `strcmp(pointer, literal) == 0`: the bytes of the literal and its terminator. -/
def strcmpEq (pointer : Cells UInt8) (literal : Bytes) : Bool :=
  pointer.slice 0 (literal.length + 1) == literal ++ [0]

/-- Where a terminated text stands, `strcmp` compares with it. -/
theorem strcmpEq_iff {pointer : Cells UInt8} {text literal : Bytes}
    (holds : pointer.slice 0 (text.length + 1) = text ++ [0]) (free : (0 : UInt8) ∉ text)
    (literal_free : (0 : UInt8) ∉ literal) : strcmpEq pointer literal = true ↔ text = literal := by
  constructor
  · intro same
    have matched : pointer.slice 0 (literal.length + 1) = literal ++ [0] := by
      simpa [strcmpEq] using same
    -- one slice that is long enough for both
    have first := pointer.slice_add 0 (text.length + 1) (literal.length + 1)
    have second := pointer.slice_add 0 (literal.length + 1) (text.length + 1)
    rw [holds, List.append_assoc] at first
    rw [matched, List.append_assoc, Nat.add_comm (literal.length + 1)] at second
    have strings := congrArg cString (first.symm.trans second)
    rwa [List.singleton_append, List.singleton_append, cString_append_nul free,
      cString_append_nul literal_free] at strings
  · rintro rfl
    simp [strcmpEq, holds]

end PhpNsq
