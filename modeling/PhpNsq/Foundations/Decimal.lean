import PhpNsq.Foundations.BigEndian
import Mathlib.Data.Nat.Digits.Defs
import Mathlib.Data.Nat.Digits.Lemmas

/-!
# Decimal numerals

The decimal text of an integer, as `printf` writes it for `%d`, and the reader of
such a text. Reading what was written gives the integer back (`readDecimal_decimal`),
so decimal texts are never confused. The text consists of digits and at most one
minus sign (`decimal_bytes`), hence contains no separator, and its length is bounded by
the number of digits of a bound (`length_decimal_le`).
-/

set_option autoImplicit false

namespace Foundations

/-- The byte of a decimal digit. -/
def digitByte (digit : ℕ) : UInt8 := UInt8.ofNat (48 + digit)

/-- The value of a digit byte. -/
def digitValue (byte : UInt8) : ℕ := byte.toNat - 48

def IsDigit (byte : UInt8) : Prop := 48 ≤ byte.toNat ∧ byte.toNat ≤ 57

instance (byte : UInt8) : Decidable (IsDigit byte) := inferInstanceAs (Decidable (_ ∧ _))

instance (text : Bytes) : Decidable (∀ byte ∈ text, IsDigit byte) :=
  List.decidableBAll IsDigit text

/-- The decimal text of a natural number. -/
def decimalNat (n : ℕ) : Bytes :=
  if n = 0 then [digitByte 0] else (Nat.digits 10 n).reverse.map digitByte

/-- The decimal text of an integer. -/
def decimal (n : ℤ) : Bytes :=
  if n < 0 then 45 :: decimalNat n.natAbs else decimalNat n.natAbs

/-- Read a nonempty string of digits. -/
def readDecimalNat (text : Bytes) : Option ℕ :=
  if text ≠ [] ∧ ∀ byte ∈ text, IsDigit byte then
    some (Nat.ofDigits 10 (text.reverse.map digitValue))
  else none

/-- Read a decimal integer. -/
def readDecimal : Bytes → Option ℤ
  | 45 :: text => (readDecimalNat text).map fun (n : ℕ) => -(n : ℤ)
  | text => (readDecimalNat text).map fun (n : ℕ) => (n : ℤ)

theorem toNat_digitByte {digit : ℕ} (bound : digit < 10) : (digitByte digit).toNat = 48 + digit := by
  simp only [digitByte, UInt8.toNat_ofNat']
  omega

theorem digitValue_digitByte {digit : ℕ} (bound : digit < 10) :
    digitValue (digitByte digit) = digit := by
  rw [digitValue, toNat_digitByte bound, Nat.add_sub_cancel_left]

theorem isDigit_digitByte {digit : ℕ} (bound : digit < 10) : IsDigit (digitByte digit) := by
  rw [IsDigit, toNat_digitByte bound]
  omega

theorem decimalNat_ne_nil (n : ℕ) : decimalNat n ≠ [] := by
  by_cases zero : n = 0
  · simp [decimalNat, zero]
  · simp [decimalNat, zero, Nat.digits_ne_nil_iff_ne_zero]

theorem isDigit_of_mem_decimalNat {n : ℕ} {byte : UInt8} (member : byte ∈ decimalNat n) :
    IsDigit byte := by
  by_cases zero : n = 0
  · rw [decimalNat, if_pos zero, List.mem_singleton] at member
    exact member ▸ isDigit_digitByte (by norm_num)
  · rw [decimalNat, if_neg zero] at member
    obtain ⟨digit, inside, rfl⟩ := List.mem_map.mp member
    exact isDigit_digitByte (Nat.digits_lt_base (by norm_num) (List.mem_reverse.mp inside))

theorem readDecimalNat_decimalNat (n : ℕ) : readDecimalNat (decimalNat n) = some n := by
  have accepted : decimalNat n ≠ [] ∧ ∀ byte ∈ decimalNat n, IsDigit byte :=
    ⟨decimalNat_ne_nil n, fun _ => isDigit_of_mem_decimalNat⟩
  rw [readDecimalNat, if_pos accepted, Option.some.injEq]
  by_cases zero : n = 0
  · simp [decimalNat, zero, digitValue_digitByte]
  · have values : ((Nat.digits 10 n).map digitByte).map digitValue = Nat.digits 10 n := by
      rw [List.map_map]
      refine (List.map_congr_left fun digit member => ?_).trans (List.map_id _)
      exact digitValue_digitByte (Nat.digits_lt_base (by norm_num) member)
    rw [decimalNat, if_neg zero, ← List.map_reverse, List.reverse_reverse, values,
      Nat.ofDigits_digits]

/-- A text that starts with a digit has no sign. -/
theorem readDecimal_of_digits {text : Bytes} (digits : ∀ byte ∈ text, IsDigit byte) :
    readDecimal text = (readDecimalNat text).map fun (n : ℕ) => (n : ℤ) := by
  match text with
  | [] => rfl
  | byte :: rest =>
      have digit := digits byte (List.mem_cons_self ..)
      have unsigned : byte ≠ 45 := by
        rintro rfl
        exact absurd digit (by decide)
      rw [readDecimal]
      rintro tail ⟨⟩
      exact unsigned rfl

/-- **Reading a decimal text gives the integer back.** -/
theorem readDecimal_decimal (n : ℤ) : readDecimal (decimal n) = some n := by
  by_cases negative : n < 0
  · rw [decimal, if_pos negative, readDecimal, readDecimalNat_decimalNat, Option.map_some]
    congr 1
    omega
  · rw [decimal, if_neg negative, readDecimal_of_digits fun _ => isDigit_of_mem_decimalNat,
      readDecimalNat_decimalNat, Option.map_some]
    congr 1
    omega

/-- The bytes of a decimal text. -/
theorem decimal_bytes {n : ℤ} {byte : UInt8} (member : byte ∈ decimal n) :
    byte = 45 ∨ IsDigit byte := by
  rw [decimal] at member
  split at member
  · exact (List.mem_cons.mp member).imp_right isDigit_of_mem_decimalNat
  · exact .inr (isDigit_of_mem_decimalNat member)

/-- A byte that is neither a digit nor the minus sign does not occur. -/
theorem not_mem_decimal {n : ℤ} {byte : UInt8} (sign : byte ≠ 45) (digit : ¬ IsDigit byte) :
    byte ∉ decimal n := fun member => (decimal_bytes member).elim sign digit

/-- So does it not in a text that denotes a number. -/
theorem readDecimal_bytes {text : Bytes} {n : ℤ} (read : readDecimal text = some n) {byte : UInt8}
    (member : byte ∈ text) : byte = 45 ∨ IsDigit byte := by
  have digits : ∀ {rest : Bytes} {m : ℕ}, readDecimalNat rest = some m →
      ∀ byte ∈ rest, IsDigit byte := fun {rest m} accepted =>
    (Option.ite_none_right_eq_some.mp accepted).1.2
  rw [readDecimal.eq_def] at read
  split at read
  · obtain ⟨m, accepted, -⟩ := Option.map_eq_some_iff.mp read
    exact (List.mem_cons.mp member).imp_right (digits accepted byte)
  · obtain ⟨m, accepted, -⟩ := Option.map_eq_some_iff.mp read
    exact .inr (digits accepted byte member)

/-- A digit behind a number that is not zero. -/
theorem decimalNat_concat {n digit : ℕ} (positive : n ≠ 0) (bound : digit < 10) :
    decimalNat n ++ [digitByte digit] = decimalNat (digit + 10 * n) := by
  have digits : Nat.digits 10 (digit + 10 * n) = digit :: Nat.digits 10 n :=
    Nat.digits_add 10 (by norm_num) digit n bound (.inr positive)
  rw [decimalNat, if_neg positive, decimalNat, if_neg (by omega), digits, List.reverse_cons,
    List.map_append]
  rfl

theorem length_decimalNat_le {n width : ℕ} (positive : 0 < width) (bound : n < 10 ^ width) :
    (decimalNat n).length ≤ width := by
  by_cases zero : n = 0
  · rw [decimalNat, if_pos zero]
    exact positive
  · rw [decimalNat, if_neg zero, List.length_map, List.length_reverse]
    exact (Nat.digits_length_le_iff (by norm_num) _).mpr bound

theorem length_decimal_le {n : ℤ} {width : ℕ} (positive : 0 < width)
    (bound : n.natAbs < 10 ^ width) : (decimal n).length ≤ width + 1 := by
  have digits := length_decimalNat_le positive bound
  rw [decimal]
  split
  · simpa using digits
  · omega

example : decimal (-120) = ascii "-120" := by decide

end Foundations
