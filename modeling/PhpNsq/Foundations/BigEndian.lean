import Mathlib.Data.List.Induction
import Mathlib.Data.Nat.ModEq
import Mathlib.Tactic.Ring
import Mathlib.Tactic.NormNum

/-!
# Big-endian byte strings

A number is written in a fixed number of bytes, most significant byte first, and
a byte string is read back as the number it denotes. Reading what was written
gives the number modulo the width (`ofBigEndian_bigEndian`). Reading a
concatenation adds the two readings, the left one scaled by the width of the
right one (`ofBigEndian_append`), so that a truncated byte string denotes the
number divided by the width that is missing (`ofBigEndian_take`).

The last section combines bytes with shifts and bitwise disjunction, which is
how a program usually reads such a string.
-/

set_option autoImplicit false

namespace Foundations

/-- A string of bytes. -/
abbrev Bytes := List UInt8

/-- The bytes of an ASCII text. -/
def ascii (text : String) : Bytes := text.toList.map fun char => UInt8.ofNat char.toNat

/-- The number written in `width` bytes, most significant first. Higher digits
are dropped. -/
def bigEndian : ℕ → ℕ → Bytes
  | 0, _ => []
  | width + 1, n => UInt8.ofNat (n / 256 ^ width) :: bigEndian width n

/-- The number a byte string denotes, most significant byte first. -/
def ofBigEndian : Bytes → ℕ
  | [] => 0
  | byte :: rest => byte.toNat * 256 ^ rest.length + ofBigEndian rest

@[simp] theorem bigEndian_zero (n : ℕ) : bigEndian 0 n = [] := rfl

theorem bigEndian_succ (width n : ℕ) :
    bigEndian (width + 1) n = UInt8.ofNat (n / 256 ^ width) :: bigEndian width n := rfl

@[simp] theorem ofBigEndian_nil : ofBigEndian [] = 0 := rfl

theorem ofBigEndian_cons (byte : UInt8) (rest : Bytes) :
    ofBigEndian (byte :: rest) = byte.toNat * 256 ^ rest.length + ofBigEndian rest := rfl

@[simp] theorem length_bigEndian (width n : ℕ) : (bigEndian width n).length = width := by
  induction width with
  | zero => rfl
  | succ width ih => rw [bigEndian_succ, List.length_cons, ih]

/-- **Reading what was written.** -/
theorem ofBigEndian_bigEndian (width n : ℕ) :
    ofBigEndian (bigEndian width n) = n % 256 ^ width := by
  induction width with
  | zero => simp [Nat.mod_one]
  | succ width ih =>
      have digit : (UInt8.ofNat (n / 256 ^ width)).toNat = n / 256 ^ width % 256 := by simp
      rw [bigEndian_succ, ofBigEndian_cons, length_bigEndian, digit, ih, Nat.pow_succ,
        Nat.mod_mul, Nat.add_comm, Nat.mul_comm]

theorem ofBigEndian_bigEndian_of_lt {width n : ℕ} (bound : n < 256 ^ width) :
    ofBigEndian (bigEndian width n) = n := by
  rw [ofBigEndian_bigEndian, Nat.mod_eq_of_lt bound]

theorem ofBigEndian_lt (bytes : Bytes) : ofBigEndian bytes < 256 ^ bytes.length := by
  induction bytes with
  | nil => simp
  | cons byte rest ih =>
      have digit : byte.toNat + 1 ≤ 256 := byte.toNat_lt
      calc ofBigEndian (byte :: rest)
          < byte.toNat * 256 ^ rest.length + 256 ^ rest.length := by
            rw [ofBigEndian_cons]
            exact Nat.add_lt_add_left ih _
        _ = (byte.toNat + 1) * 256 ^ rest.length := by ring
        _ ≤ 256 * 256 ^ rest.length := Nat.mul_le_mul_right _ digit
        _ = 256 ^ (byte :: rest).length := by rw [List.length_cons, Nat.pow_succ, Nat.mul_comm]

theorem ofBigEndian_append (left right : Bytes) :
    ofBigEndian (left ++ right) = ofBigEndian left * 256 ^ right.length + ofBigEndian right := by
  induction left with
  | nil => simp
  | cons byte rest ih =>
      rw [List.cons_append, ofBigEndian_cons, ofBigEndian_cons, ih, List.length_append, pow_add]
      ring

@[simp] theorem ofBigEndian_replicate_zero (count : ℕ) :
    ofBigEndian (List.replicate count 0) = 0 := by
  induction count with
  | zero => rfl
  | succ count ih => rw [List.replicate_succ, ofBigEndian_cons, ih]; simp

/-- The two parts of a byte string cut after `kept` bytes. -/
theorem ofBigEndian_cut (bytes : Bytes) (kept : ℕ) :
    ofBigEndian bytes = ofBigEndian (bytes.take kept) * 256 ^ (bytes.length - kept) +
        ofBigEndian (bytes.drop kept) ∧
      ofBigEndian (bytes.drop kept) < 256 ^ (bytes.length - kept) := by
  have whole := ofBigEndian_append (bytes.take kept) (bytes.drop kept)
  rw [List.take_append_drop, List.length_drop] at whole
  have low := ofBigEndian_lt (bytes.drop kept)
  rw [List.length_drop] at low
  exact ⟨whole, low⟩

/-- A byte string cut after `kept` bytes denotes the number divided by the width
of what was cut off. -/
theorem ofBigEndian_take (bytes : Bytes) (kept : ℕ) :
    ofBigEndian (bytes.take kept) = ofBigEndian bytes / 256 ^ (bytes.length - kept) := by
  obtain ⟨whole, low⟩ := ofBigEndian_cut bytes kept
  rw [whole, Nat.mul_comm, Nat.mul_add_div (Nat.pow_pos (by norm_num)), Nat.div_eq_of_lt low,
    Nat.add_zero]

/-- The bytes cut off denote the remainder. -/
theorem ofBigEndian_drop (bytes : Bytes) (kept : ℕ) :
    ofBigEndian (bytes.drop kept) = ofBigEndian bytes % 256 ^ (bytes.length - kept) := by
  obtain ⟨whole, low⟩ := ofBigEndian_cut bytes kept
  rw [whole, Nat.mul_comm, Nat.mul_add_mod, Nat.mod_eq_of_lt low]

/-! ## Shifts and bitwise disjunction -/

/-- Join bytes from the most significant one down. -/
def joinHigh (bytes : Bytes) : ℕ := bytes.foldl (fun high byte => high <<< 8 ||| byte.toNat) 0

/-- Join bytes from the least significant one up, behind `low` of `width` bits. -/
def joinLow : ℕ → ℕ → Bytes → ℕ
  | low, _, [] => low
  | low, width, byte :: rest => joinLow (low ||| byte.toNat <<< width) (width + 8) rest

theorem joinHigh_eq (bytes : Bytes) : joinHigh bytes = ofBigEndian bytes := by
  induction bytes using List.reverseRecOn with
  | nil => rfl
  | append_singleton bytes byte ih =>
      have digit : byte.toNat < 2 ^ 8 := byte.toNat_lt
      have last : joinHigh (bytes ++ [byte]) = joinHigh bytes <<< 8 ||| byte.toNat := by
        simp [joinHigh]
      rw [last, ← Nat.shiftLeft_add_eq_or_of_lt digit, Nat.shiftLeft_eq, ih, ofBigEndian_append]
      simp [ofBigEndian_cons]

theorem joinLow_eq (bytes : Bytes) {low width : ℕ} (bound : low < 2 ^ width) :
    joinLow low width bytes = ofBigEndian bytes.reverse * 2 ^ width + low := by
  induction bytes generalizing low width with
  | nil => simp [joinLow]
  | cons byte rest ih =>
      have joined : low ||| byte.toNat <<< width = byte.toNat * 2 ^ width + low := by
        rw [Nat.or_comm, ← Nat.shiftLeft_add_eq_or_of_lt bound, Nat.shiftLeft_eq]
      have wider : byte.toNat * 2 ^ width + low < 2 ^ (width + 8) := by
        have digit : byte.toNat + 1 ≤ 256 := byte.toNat_lt
        calc byte.toNat * 2 ^ width + low < (byte.toNat + 1) * 2 ^ width := by
              rw [Nat.add_mul, Nat.one_mul]
              exact Nat.add_lt_add_left bound _
          _ ≤ 256 * 2 ^ width := Nat.mul_le_mul_right _ digit
          _ = 2 ^ (width + 8) := by ring
      rw [joinLow, joined, ih wider, List.reverse_cons, ofBigEndian_append]
      simp only [ofBigEndian_cons, ofBigEndian_nil, List.length_cons, List.length_nil]
      ring

end Foundations
