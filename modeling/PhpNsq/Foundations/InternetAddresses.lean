import Mathlib.Data.List.TakeWhile
import PhpNsq.Foundations.Decimal
import PhpNsq.Foundations.PrefixCodes

/-!
# Internet addresses in texts

What the C library reads: `inet_pton` for both families, `inet_addr`, and `atoi`. A text without
its terminator is a list of bytes.

`inet_pton` for `AF_INET` accepts the dotted quads and no other texts (`inetPton4_eq_some`), each of
them for the address that it shows. `inet_addr` knows more forms of a number, and reads a dotted
quad as the same address (`inetAddr_dottedQuad`); what `inet_pton` accepts for `AF_INET6` is no
address to it (`inetAddr_of_inetPton6`).
-/

set_option autoImplicit false

namespace Foundations

/-! ## Numerals -/

/-- The value of a hexadecimal digit. -/
def hexDigit (byte : UInt8) : Option ℕ :=
  if IsDigit byte then some (byte.toNat - 48)
  else if 97 ≤ byte.toNat ∧ byte.toNat ≤ 102 then some (byte.toNat - 87)
  else if 65 ≤ byte.toNat ∧ byte.toNat ≤ 70 then some (byte.toNat - 55)
  else none

/-- Read a nonempty numeral in a base up to sixteen. -/
def readNumeral (base : ℕ) (text : Bytes) : Option ℕ :=
  if text = [] then none
  else
    (text.mapM fun byte => (hexDigit byte).filter fun digit => decide (digit < base)).map
      fun digits => Nat.ofDigits base digits.reverse

/-- `isspace`. -/
def IsSpace (byte : UInt8) : Prop := byte = 32 ∨ 9 ≤ byte.toNat ∧ byte.toNat ≤ 13

instance (byte : UInt8) : Decidable (IsSpace byte) := inferInstanceAs (Decidable (_ ∨ _))

/-- The number that the digits at the beginning of a text denote. -/
def leadingNumber (text : Bytes) : ℕ :=
  Nat.ofDigits 10 ((text.takeWhile fun byte => decide (IsDigit byte)).reverse.map digitValue)

/-- `atoi`, which is `strtol` for the base ten with its result cut to an `int`. -/
def atoi (text : Bytes) : ℤ :=
  let number : ℤ :=
    match text.dropWhile fun byte => decide (IsSpace byte) with
    | 45 :: digits => -(leadingNumber digits : ℤ)
    | 43 :: digits => leadingNumber digits
    | digits => leadingNumber digits
  (max (-2 ^ 63) (min number (2 ^ 63 - 1))).bmod (2 ^ 32)

/-! ## Addresses -/

/-- `struct in_addr`, by its bytes. -/
structure InAddr where
  first : UInt8
  second : UInt8
  third : UInt8
  fourth : UInt8
  deriving DecidableEq

namespace InAddr

/-- The bytes of a 32-bit number, most significant first. -/
def ofNat (n : ℕ) : InAddr where
  first := UInt8.ofNat (n / 2 ^ 24)
  second := UInt8.ofNat (n / 2 ^ 16)
  third := UInt8.ofNat (n / 2 ^ 8)
  fourth := UInt8.ofNat n

/-- `INADDR_NONE`. -/
def none : InAddr := ⟨255, 255, 255, 255⟩

variable (address : InAddr)

/-- The numbers between the dots. -/
def parts : List Bytes :=
  [decimalNat address.first.toNat, decimalNat address.second.toNat,
    decimalNat address.third.toNat, decimalNat address.fourth.toNat]

/-- The text with four decimal numbers. -/
def dottedQuad : Bytes := [46].intercalate address.parts

end InAddr

/-- Read one number of a dotted quad: up to 255, and without a leading zero. -/
def readOctet (text : Bytes) : Option UInt8 :=
  match readDecimalNat text with
  | none => none
  | some n => if n ≤ 255 ∧ (text.length = 1 ∨ text.head? ≠ some 48) then some (UInt8.ofNat n) else none

/-- `inet_pton` for `AF_INET`. -/
def inetPton4 (text : Bytes) : Option InAddr :=
  match (text.splitOn 46).mapM readOctet with
  | some [first, second, third, fourth] => some ⟨first, second, third, fourth⟩
  | _ => none

/-- A number in the notation of C. -/
def readPart : Bytes → Option ℕ
  | 48 :: 120 :: digits => readNumeral 16 digits
  | 48 :: 88 :: digits => readNumeral 16 digits
  | 48 :: digits => readNumeral 8 (48 :: digits)
  | digits => readDecimalNat digits

/-- `inet_aton`: up to four numbers, the last of them for all bytes that are left. What is behind a
blank does not matter. -/
def inetAton (text : Bytes) : Option InAddr :=
  match ((text.takeWhile fun byte => decide (¬ IsSpace byte)).splitOn 46).mapM readPart with
  | some [a] => if a < 2 ^ 32 then some (.ofNat a) else none
  | some [a, b] => if a < 2 ^ 8 ∧ b < 2 ^ 24 then some (.ofNat (a * 2 ^ 24 + b)) else none
  | some [a, b, c] =>
      if a < 2 ^ 8 ∧ b < 2 ^ 8 ∧ c < 2 ^ 16 then some (.ofNat (a * 2 ^ 24 + b * 2 ^ 16 + c))
      else none
  | some [a, b, c, d] =>
      if a < 2 ^ 8 ∧ b < 2 ^ 8 ∧ c < 2 ^ 8 ∧ d < 2 ^ 8 then
        some (.ofNat (a * 2 ^ 24 + b * 2 ^ 16 + c * 2 ^ 8 + d))
      else none
  | _ => none

/-- `inet_addr`. -/
def inetAddr (text : Bytes) : InAddr := (inetAton text).getD .none

/-- A group of an address of `AF_INET6`: up to four hexadecimal digits. -/
def readGroup (text : Bytes) : Option UInt16 :=
  if text.length ≤ 4 then (readNumeral 16 text).map UInt16.ofNat else none

/-- Groups, the last two of which may be a dotted quad. -/
def readGroups : List Bytes → Option (List UInt16)
  | [] => some []
  | [last] =>
      match inetPton4 last with
      | some address =>
          some
            [UInt16.ofNat (address.first.toNat * 2 ^ 8 + address.second.toNat),
              UInt16.ofNat (address.third.toNat * 2 ^ 8 + address.fourth.toNat)]
      | none => (readGroup last).map fun group => [group]
  | text :: texts =>
      match readGroup text, readGroups texts with
      | some group, some groups => some (group :: groups)
      | _, _ => none

/-- The texts between the colons, and none for the empty text. -/
def groupTexts (text : Bytes) : List Bytes := if text = [] then [] else text.splitOn 58

/-- Cut a text at its first two colons in a row. -/
def cutColons : Bytes → Option (Bytes × Bytes)
  | 58 :: 58 :: behind => some ([], behind)
  | byte :: text => (cutColons text).map fun (before, behind) => (byte :: before, behind)
  | [] => none

/-- `inet_pton` for `AF_INET6`: eight groups, or fewer and two colons for those that are zero. -/
def inetPton6 (text : Bytes) : Option (List UInt16) :=
  match cutColons text with
  | none => (readGroups (text.splitOn 58)).filter fun groups => decide (groups.length = 8)
  | some (before, behind) =>
      match (groupTexts before).mapM readGroup, readGroups (groupTexts behind) with
      | some front, some back =>
          if front.length + back.length ≤ 7 then
            some (front ++ List.replicate (8 - (front.length + back.length)) 0 ++ back)
          else none
      | _, _ => none

section Lists

variable {α β : Type*} {read : α → Option β}

/-- A reader that accepts the texts of a writer reads a list of them. -/
theorem mapM_eq_some_iff_eq_map {write : β → α} (inverse : ∀ a b, read a = some b ↔ a = write b)
    {texts : List α} {values : List β} :
    texts.mapM read = some values ↔ texts = values.map write := by
  induction texts generalizing values with
  | nil => cases values <;> simp
  | cons text texts ih =>
      rw [List.mapM_cons, Option.bind_eq_bind, Option.bind_eq_some_iff]
      constructor
      · rintro ⟨value, here, later⟩
        obtain ⟨others, rest, ⟨⟩⟩ := Option.bind_eq_some_iff.mp later
        rw [List.map_cons, ← ih.mp rest, ← (inverse text value).mp here]
      · intro same
        cases values with
        | nil => cases same
        | cons value values =>
            obtain ⟨here, rest⟩ := List.cons.inj same
            exact ⟨value, (inverse text value).mpr here,
              Option.bind_eq_some_iff.mpr ⟨values, ih.mpr rest, rfl⟩⟩

/-- What is read of each text is read of their list. -/
theorem mapM_map_eq_some {γ : Type*} {write : γ → α} {value : γ → β}
    (reads : ∀ c, read (write c) = some (value c)) (list : List γ) :
    (list.map write).mapM read = some (list.map value) := by
  induction list with
  | nil => rfl
  | cons c list ih => rw [List.map_cons, List.mapM_cons, reads, ih]; rfl

/-- Readers that agree on the texts of a list agree on the list. -/
theorem mapM_congr_mem {other : α → Option β} {texts : List α}
    (same : ∀ text ∈ texts, read text = other text) : texts.mapM read = texts.mapM other := by
  induction texts with
  | nil => rfl
  | cons text texts ih =>
      obtain ⟨here, others⟩ := List.forall_mem_cons.mp same
      rw [List.mapM_cons, List.mapM_cons, here, ih others]

theorem mapM_eq_some_map {value : α → β} {texts : List α}
    (reads : ∀ text ∈ texts, read text = some (value text)) :
    texts.mapM read = some (texts.map value) := by
  rw [mapM_congr_mem reads]
  exact List.mapM_pure

/-- What was read as a list was read one by one. -/
theorem isSome_of_mapM {texts : List α} {values : List β} (reads : texts.mapM read = some values) :
    ∀ text ∈ texts, (read text).isSome := by
  induction texts generalizing values with
  | nil => exact List.forall_mem_nil _
  | cons text texts ih =>
      rw [List.mapM_cons] at reads
      obtain ⟨value, here, later⟩ := Option.bind_eq_some_iff.mp reads
      obtain ⟨others, rest, -⟩ := Option.bind_eq_some_iff.mp later
      exact List.forall_mem_cons.mpr ⟨Option.isSome_of_eq_some here, ih rest⟩

/-- The elements of a list are separators, or in one of the parts. -/
theorem mem_intercalate {separator x : α} {parts : List (List α)}
    (member : x ∈ [separator].intercalate parts) : x = separator ∨ ∃ part ∈ parts, x ∈ part := by
  by_contra neither
  rw [not_or] at neither
  exact not_mem_intercalate neither.1 (fun part inside here => neither.2 ⟨part, inside, here⟩) member

theorem mem_splitOn [DecidableEq α] {separator x : α} {text : List α} (member : x ∈ text) :
    x = separator ∨ ∃ part ∈ text.splitOn separator, x ∈ part := by
  have whole : [separator].intercalate (text.splitOn separator) = text :=
    List.intercalate_splitOn separator
  rw [← whole] at member
  exact mem_intercalate member

end Lists

/-! ## Decimal numerals without leading zeros -/

theorem digitByte_digitValue {byte : UInt8} (digit : IsDigit byte) :
    digitByte (digitValue byte) = byte := by
  apply UInt8.toNat.inj
  rw [toNat_digitByte (by rw [digitValue]; have := digit.2; omega), digitValue]
  have := digit.1
  omega

/-- The text of a positive number does not start with a zero. -/
theorem head?_decimalNat {n : ℕ} (positive : n ≠ 0) : (decimalNat n).head? ≠ some 48 := by
  have some_digit : Nat.digits 10 n ≠ [] := Nat.digits_ne_nil_iff_ne_zero.mpr positive
  have leading := Nat.getLast_digit_ne_zero 10 positive
  have bound := Nat.digits_lt_base (b := 10) (by norm_num) (List.getLast_mem some_digit)
  rw [decimalNat, if_neg positive, List.head?_map, List.head?_reverse,
    List.getLast?_eq_some_getLast some_digit, Option.map_some]
  intro zero
  have value := congrArg UInt8.toNat (Option.some.inj zero)
  rw [toNat_digitByte bound] at value
  exact leading (Nat.add_left_cancel (value : 48 + _ = 48 + 0))

/-- **A numeral without leading zeros is the text of its number.** -/
theorem eq_decimalNat_of_readDecimalNat {text : Bytes} {n : ℕ} (read : readDecimalNat text = some n)
    (plain : text.length = 1 ∨ text.head? ≠ some 48) : text = decimalNat n := by
  obtain ⟨⟨some_digit, digits⟩, rfl⟩ : (text ≠ [] ∧ ∀ byte ∈ text, IsDigit byte) ∧
      Nat.ofDigits 10 (text.reverse.map digitValue) = n := by
    rwa [readDecimalNat, Option.ite_none_right_eq_some, Option.some.injEq] at read
  have texts : (text.reverse.map digitValue).reverse.map digitByte = text := by
    rw [← List.map_reverse, List.reverse_reverse, List.map_map]
    exact (List.map_congr_left fun byte member => digitByte_digitValue (digits byte member)).trans
      (List.map_id _)
  by_cases zero : text = [48]
  · rw [zero]
    rfl
  · -- the number starts with another digit, so no digit of it is lost
    obtain ⟨byte, rest, rfl⟩ := List.exists_cons_of_ne_nil some_digit
    have digit := digits byte (List.mem_cons_self ..)
    have apart : byte ≠ 48 := by
      rintro rfl
      rcases plain with alone | headed
      · exact zero (by rw [List.length_eq_one_iff] at alone; obtain ⟨_, ⟨⟩⟩ := alone; rfl)
      · exact headed rfl
    have leading : digitValue byte ≠ 0 := by
      intro none
      apply apart
      apply UInt8.toNat.inj
      have low := digit.1
      rw [digitValue] at none
      change byte.toNat = 48
      omega
    have shown : (byte :: rest).reverse.map digitValue =
        rest.reverse.map digitValue ++ [digitValue byte] := by
      rw [List.reverse_cons, List.map_append, List.map_singleton]
    have back := Nat.digits_ofDigits 10 (by norm_num) ((byte :: rest).reverse.map digitValue)
      (fun value member => by
        obtain ⟨other, inside, rfl⟩ := List.mem_map.mp member
        have high := (digits other (List.mem_reverse.mp inside)).2
        rw [digitValue]
        omega)
      (fun _ => by simpa [shown] using leading)
    have positive : Nat.ofDigits 10 ((byte :: rest).reverse.map digitValue) ≠ 0 := by
      intro none
      rw [none, Nat.digits_zero, shown] at back
      exact List.append_ne_nil_of_right_ne_nil _ (List.cons_ne_nil _ _) back.symm
    rw [decimalNat, if_neg positive, back, texts]

/-! ## Dotted quads -/

theorem readOctet_eq_some {text : Bytes} {octet : UInt8} :
    readOctet text = some octet ↔ text = decimalNat octet.toNat := by
  constructor
  · intro read
    rw [readOctet] at read
    split at read
    · cases read
    · next n number =>
        rw [Option.ite_none_right_eq_some, Option.some.injEq] at read
        obtain ⟨⟨small, plain⟩, rfl⟩ := read
        rw [UInt8.toNat_ofNat', Nat.mod_eq_of_lt (by omega)]
        exact eq_decimalNat_of_readDecimalNat number plain
  · rintro rfl
    have small : octet.toNat ≤ 255 := Nat.le_of_lt_succ octet.toNat_lt
    have plain : (decimalNat octet.toNat).length = 1 ∨
        (decimalNat octet.toNat).head? ≠ some 48 := by
      by_cases zero : octet.toNat = 0
      · exact .inl (by rw [zero]; rfl)
      · exact .inr (head?_decimalNat zero)
    rw [readOctet, readDecimalNat_decimalNat]
    simp only [small, plain, and_self, if_true, UInt8.ofNat_toNat]

theorem not_mem_decimalNat {n : ℕ} {byte : UInt8} (other : ¬ IsDigit byte) :
    byte ∉ decimalNat n := fun member => other (isDigit_of_mem_decimalNat member)

theorem InAddr.splitOn_dottedQuad (address : InAddr) :
    address.dottedQuad.splitOn 46 = address.parts := by
  refine List.splitOn_intercalate 46 ?_ (List.cons_ne_nil _ _)
  have free : ∀ n, (46 : UInt8) ∉ decimalNat n := fun n => not_mem_decimalNat (by decide)
  simp [parts, free]

/-- **`inet_pton` for `AF_INET` accepts the dotted quads**, each for the address that it shows. -/
theorem inetPton4_eq_some {text : Bytes} {address : InAddr} :
    inetPton4 text = some address ↔ text = address.dottedQuad := by
  constructor
  · intro accepted
    rw [inetPton4] at accepted
    split at accepted
    · next first second third fourth read =>
        obtain rfl := Option.some.inj accepted
        have parts : text.splitOn 46 = InAddr.parts ⟨first, second, third, fourth⟩ :=
          (mapM_eq_some_iff_eq_map fun _ _ => readOctet_eq_some).mp read
        rw [InAddr.dottedQuad, ← parts, List.intercalate_splitOn]
    · cases accepted
  · rintro rfl
    have read : address.parts.mapM readOctet =
        some [address.first, address.second, address.third, address.fourth] :=
      (mapM_eq_some_iff_eq_map fun _ _ => readOctet_eq_some).mpr rfl
    rw [inetPton4, InAddr.splitOn_dottedQuad, read]

theorem readPart_decimalNat (n : ℕ) : readPart (decimalNat n) = some n := by
  by_cases zero : n = 0
  · rw [zero]
    rfl
  · have leading := head?_decimalNat zero
    rw [← readDecimalNat_decimalNat n]
    generalize decimalNat n = text at leading ⊢
    rw [readPart.eq_def]
    split
    · exact absurd rfl leading
    · exact absurd rfl leading
    · exact absurd rfl leading
    · rfl

theorem InAddr.ofNat_bytes (address : InAddr) :
    InAddr.ofNat (address.first.toNat * 2 ^ 24 + address.second.toNat * 2 ^ 16 +
      address.third.toNat * 2 ^ 8 + address.fourth.toNat) = address := by
  obtain ⟨first, second, third, fourth⟩ := address
  have bounds : second.toNat < 256 ∧ third.toNat < 256 ∧ fourth.toNat < 256 :=
    ⟨second.toNat_lt, third.toNat_lt, fourth.toNat_lt⟩
  have low : ∀ (byte : UInt8) {n : ℕ}, n % 256 = byte.toNat → UInt8.ofNat n = byte := by
    intro byte n same
    apply UInt8.toNat.inj
    rw [UInt8.toNat_ofNat', same]
  have high := first.toNat_lt
  rw [ofNat, mk.injEq]
  refine ⟨low _ ?_, low _ ?_, low _ ?_, low _ ?_⟩
  · change (first.toNat * 2 ^ 24 + second.toNat * 2 ^ 16 + third.toNat * 2 ^ 8 +
      fourth.toNat) / 2 ^ 24 % 256 = first.toNat
    omega
  · change (first.toNat * 2 ^ 24 + second.toNat * 2 ^ 16 + third.toNat * 2 ^ 8 +
      fourth.toNat) / 2 ^ 16 % 256 = second.toNat
    omega
  · change (first.toNat * 2 ^ 24 + second.toNat * 2 ^ 16 + third.toNat * 2 ^ 8 +
      fourth.toNat) / 2 ^ 8 % 256 = third.toNat
    omega
  · change (first.toNat * 2 ^ 24 + second.toNat * 2 ^ 16 + third.toNat * 2 ^ 8 +
      fourth.toNat) % 256 = fourth.toNat
    omega

/-- The bytes of a dotted quad. -/
theorem mem_dottedQuad {address : InAddr} {byte : UInt8} (member : byte ∈ address.dottedQuad) :
    byte = 46 ∨ IsDigit byte := by
  refine (mem_intercalate member).imp_right ?_
  rintro ⟨part, inside, here⟩
  simp only [InAddr.parts, List.mem_cons, List.not_mem_nil, or_false] at inside
  rcases inside with rfl | rfl | rfl | rfl
  · exact isDigit_of_mem_decimalNat here
  · exact isDigit_of_mem_decimalNat here
  · exact isDigit_of_mem_decimalNat here
  · exact isDigit_of_mem_decimalNat here

theorem not_mem_dottedQuad {address : InAddr} {byte : UInt8} (point : byte ≠ 46)
    (digit : ¬ IsDigit byte) : byte ∉ address.dottedQuad :=
  fun member => (mem_dottedQuad member).elim point digit

theorem dottedQuad_ne_nil (address : InAddr) : address.dottedQuad ≠ [] := by
  intro empty
  have parts : 1 = 4 := by
    have parts := congrArg List.length address.splitOn_dottedQuad
    rwa [empty] at parts
  omega

/-- A text without blanks is whole. -/
theorem takeWhile_of_no_space {text : Bytes} (high : ∀ byte ∈ text, 46 ≤ byte.toNat) :
    (text.takeWhile fun byte => decide (¬ IsSpace byte)) = text := by
  refine List.takeWhile_eq_self_iff.mpr fun byte member => decide_eq_true ?_
  have above := high byte member
  rintro (rfl | blank)
  · exact absurd above (by decide)
  · omega

/-- **`inet_addr` reads a dotted quad** as the address that it shows. -/
theorem inetAddr_dottedQuad (address : InAddr) : inetAddr address.dottedQuad = address := by
  have high : ∀ byte ∈ address.dottedQuad, 46 ≤ byte.toNat := by
    intro byte member
    rcases mem_dottedQuad member with rfl | digit
    · exact le_rfl
    · exact le_trans (by omega) digit.1
  have read : address.parts.mapM readPart =
      some [address.first.toNat, address.second.toNat, address.third.toNat,
        address.fourth.toNat] := by
    simp [InAddr.parts, readPart_decimalNat]
  have small : address.first.toNat < 2 ^ 8 ∧ address.second.toNat < 2 ^ 8 ∧
      address.third.toNat < 2 ^ 8 ∧ address.fourth.toNat < 2 ^ 8 :=
    ⟨address.first.toNat_lt, address.second.toNat_lt, address.third.toNat_lt,
      address.fourth.toNat_lt⟩
  rw [inetAddr, inetAton, takeWhile_of_no_space high, InAddr.splitOn_dottedQuad, read]
  simp only [if_pos small, InAddr.ofNat_bytes, Option.getD_some]

theorem dottedQuad_injective : Function.Injective InAddr.dottedQuad := by
  intro address other same
  rw [← inetAddr_dottedQuad address, same, inetAddr_dottedQuad]

/-! ## Addresses of AF_INET6 -/

/-- The bytes of a numeral are digits. -/
theorem isSome_hexDigit_of_readNumeral {base : ℕ} {text : Bytes}
    (accepted : (readNumeral base text).isSome) : ∀ byte ∈ text, (hexDigit byte).isSome := by
  intro byte member
  obtain ⟨number, read⟩ := Option.isSome_iff_exists.mp accepted
  rw [readNumeral, Option.ite_none_left_eq_some] at read
  obtain ⟨digits, reads, -⟩ := Option.map_eq_some_iff.mp read.2
  obtain ⟨digit, here⟩ := Option.isSome_iff_exists.mp (isSome_of_mapM reads byte member)
  exact Option.isSome_of_eq_some (Option.filter_eq_some_iff.mp here).1

theorem le_of_isSome_hexDigit {byte : UInt8} (accepted : (hexDigit byte).isSome) :
    48 ≤ byte.toNat := by
  rw [hexDigit] at accepted
  split at accepted
  · next digit => exact digit.1
  · split at accepted
    · next letter => omega
    · split at accepted
      · next letter => omega
      · cases accepted

theorem isSome_hexDigit_of_isDigit {byte : UInt8} (digit : IsDigit byte) :
    (hexDigit byte).isSome := by
  rw [hexDigit, if_pos digit]
  rfl

theorem isDigit_of_readDecimalNat {text : Bytes} (accepted : (readDecimalNat text).isSome) :
    ∀ byte ∈ text, IsDigit byte := by
  obtain ⟨number, read⟩ := Option.isSome_iff_exists.mp accepted
  exact (Option.ite_none_right_eq_some.mp read).1.2

theorem readPart_bytes {text : Bytes} (accepted : (readPart text).isSome) :
    ∀ byte ∈ text, (hexDigit byte).isSome ∨ byte = 120 ∨ byte = 88 := by
  rw [readPart.eq_def] at accepted
  split at accepted
  · have digits := isSome_hexDigit_of_readNumeral accepted
    exact List.forall_mem_cons.mpr ⟨.inl rfl, List.forall_mem_cons.mpr
      ⟨.inr (.inl rfl), fun byte member => .inl (digits byte member)⟩⟩
  · have digits := isSome_hexDigit_of_readNumeral accepted
    exact List.forall_mem_cons.mpr ⟨.inl rfl, List.forall_mem_cons.mpr
      ⟨.inr (.inr rfl), fun byte member => .inl (digits byte member)⟩⟩
  · exact fun byte member => .inl (isSome_hexDigit_of_readNumeral accepted byte member)
  · exact fun byte member =>
      .inl (isSome_hexDigit_of_isDigit (isDigit_of_readDecimalNat accepted byte member))

theorem readGroup_bytes {text : Bytes} (accepted : (readGroup text).isSome) :
    ∀ byte ∈ text, (hexDigit byte).isSome := by
  obtain ⟨group, read⟩ := Option.isSome_iff_exists.mp accepted
  rw [readGroup, Option.ite_none_right_eq_some] at read
  obtain ⟨number, numeral, -⟩ := Option.map_eq_some_iff.mp read.2
  exact isSome_hexDigit_of_readNumeral (Option.isSome_of_eq_some numeral)

/-- The bytes of the groups are digits, and points where there is a dotted quad. -/
theorem readGroups_bytes {texts : List Bytes} (accepted : (readGroups texts).isSome) :
    ∀ text ∈ texts, ∀ byte ∈ text, byte = 46 ∨ (hexDigit byte).isSome := by
  induction texts using readGroups.induct with
  | case1 => exact List.forall_mem_nil _
  | case2 last address quad =>
      rw [inetPton4_eq_some] at quad
      intro text member byte inside
      obtain rfl := List.mem_singleton.mp member
      rw [quad] at inside
      exact (mem_dottedQuad inside).imp_right isSome_hexDigit_of_isDigit
  | case3 last other =>
      intro text member byte inside
      obtain rfl := List.mem_singleton.mp member
      rw [readGroups, other, Option.isSome_map] at accepted
      exact .inr (readGroup_bytes accepted byte inside)
  | case4 text texts more group groups later here ih =>
      refine List.forall_mem_cons.mpr ⟨fun byte inside => ?_, ih ?_⟩
      · exact .inr (readGroup_bytes (Option.isSome_of_eq_some here) byte inside)
      · exact Option.isSome_of_eq_some later
  | case5 text texts more failed ih =>
      rw [readGroups.eq_3 _ _ more] at accepted
      split at accepted
      · next group groups here later => exact (failed group groups here later).elim
      · cases accepted

theorem eq_of_cutColons {text before behind : Bytes}
    (cut : cutColons text = some (before, behind)) : text = before ++ 58 :: 58 :: behind := by
  induction text using cutColons.induct generalizing before with
  | case1 rest =>
      obtain ⟨rfl, rfl⟩ := Prod.mk.inj (Option.some.inj cut)
      rfl
  | case2 byte text single ih =>
      rw [cutColons.eq_2 _ _ single] at cut
      obtain ⟨⟨front, back⟩, later, same⟩ := Option.map_eq_some_iff.mp cut
      obtain ⟨rfl, rfl⟩ := Prod.mk.inj same
      rw [ih later]
      rfl
  | case3 => cases cut

theorem mem_groupTexts {text : Bytes} {byte : UInt8} (member : byte ∈ text) :
    byte = 58 ∨ ∃ part ∈ groupTexts text, byte ∈ part := by
  rw [groupTexts, if_neg (List.ne_nil_of_mem member)]
  exact mem_splitOn member

theorem length_readGroups_singleton {text : Bytes} {groups : List UInt16}
    (read : readGroups [text] = some groups) : groups.length ≤ 2 := by
  rw [readGroups] at read
  split at read
  · obtain rfl := Option.some.inj read
    exact le_rfl
  · obtain ⟨group, -, rfl⟩ := Option.map_eq_some_iff.mp read
    exact Nat.le_succ 1

/-- **What `inet_pton` accepts for `AF_INET6`** has a colon, and other than that only digits and
points. -/
theorem inetPton6_bytes {text : Bytes} (accepted : (inetPton6 text).isSome) :
    (58 : UInt8) ∈ text ∧
      ∀ byte ∈ text, byte = 58 ∨ byte = 46 ∨ (hexDigit byte).isSome := by
  obtain ⟨address, read⟩ := Option.isSome_iff_exists.mp accepted
  rw [inetPton6] at read
  split at read
  · obtain ⟨groups, eight⟩ := Option.filter_eq_some_iff.mp read
    constructor
    · by_contra free
      rw [List.splitOn_eq_singleton free] at groups
      have few := length_readGroups_singleton groups
      have full : address.length = 8 := by simpa using eight
      omega
    · intro byte member
      refine (mem_splitOn member).imp_right ?_
      rintro ⟨part, inside, here⟩
      exact readGroups_bytes (Option.isSome_of_eq_some groups) part inside byte here
  · next before behind cut =>
      obtain rfl := eq_of_cutColons cut
      refine ⟨List.mem_append_right _ (List.mem_cons_self ..), ?_⟩
      split at read
      · next front back first second =>
          intro byte member
          rw [List.mem_append, List.mem_cons, List.mem_cons] at member
          rcases member with here | rfl | rfl | here
          · refine (mem_groupTexts here).imp_right ?_
            rintro ⟨part, inside, there⟩
            exact .inr (readGroup_bytes (isSome_of_mapM first part inside) byte there)
          · exact .inl rfl
          · exact .inl rfl
          · refine (mem_groupTexts here).imp_right ?_
            rintro ⟨part, inside, there⟩
            exact readGroups_bytes (Option.isSome_of_eq_some second) part inside byte there
      · cases read

/-- **`inet_addr` rejects every address of `AF_INET6`.** -/
theorem inetAddr_of_inetPton6 {text : Bytes} (accepted : (inetPton6 text).isSome) :
    inetAddr text = .none := by
  obtain ⟨colon, bytes⟩ := inetPton6_bytes accepted
  have high : ∀ byte ∈ text, 46 ≤ byte.toNat := by
    intro byte member
    rcases bytes byte member with rfl | rfl | digit
    · decide
    · exact le_rfl
    · exact le_trans (by omega) (le_of_isSome_hexDigit digit)
  have inside : ∃ part ∈ text.splitOn 46, (58 : UInt8) ∈ part :=
    (mem_splitOn colon).resolve_left (by decide)
  obtain ⟨part, inside, here⟩ := inside
  have rejected : (text.splitOn 46).mapM readPart = none := by
    rw [Option.eq_none_iff_forall_ne_some]
    intro numbers read
    have byte := readPart_bytes (isSome_of_mapM read part inside) 58 here
    exact absurd byte (by decide)
  rw [inetAddr, inetAton, takeWhile_of_no_space high, rejected]
  rfl

/-- No dotted quad is an address of `AF_INET6`. -/
theorem inetPton6_dottedQuad (address : InAddr) : ¬ (inetPton6 address.dottedQuad).isSome :=
  fun accepted => not_mem_dottedQuad (by decide) (by decide) (inetPton6_bytes accepted).1

/-! ## atoi -/

theorem leadingNumber_decimalNat (n : ℕ) : leadingNumber (decimalNat n) = n := by
  have digits : ((decimalNat n).takeWhile fun byte => decide (IsDigit byte)) = decimalNat n :=
    List.takeWhile_eq_self_iff.mpr fun _ member => decide_eq_true (isDigit_of_mem_decimalNat member)
  have read := readDecimalNat_decimalNat n
  rw [readDecimalNat, Option.ite_none_right_eq_some] at read
  rw [leadingNumber, digits]
  exact Option.some.inj read.2

/-- A text that starts with a digit is a number without a sign. -/
theorem atoi_of_isDigit {byte : UInt8} {text : Bytes} (digit : IsDigit byte) :
    atoi (byte :: text) =
      (max (-2 ^ 63) (min (leadingNumber (byte :: text) : ℤ) (2 ^ 63 - 1))).bmod (2 ^ 32) := by
  have low := digit.1
  have no_space : ¬ IsSpace byte := by
    rintro (rfl | blank)
    · exact absurd low (by decide)
    · omega
  have kept : ((byte :: text).dropWhile fun byte => decide (IsSpace byte)) = byte :: text := by
    rw [List.dropWhile_cons_of_neg (by simpa using no_space)]
  rw [atoi, kept]
  split
  · next signed =>
      obtain ⟨rfl, -⟩ := List.cons.inj signed
      exact absurd low (by decide)
  · next signed =>
      obtain ⟨rfl, -⟩ := List.cons.inj signed
      exact absurd low (by decide)
  · rfl

/-- **`atoi` reads the decimal text of an `int`.** -/
theorem atoi_decimal {n : ℤ} (low : -2 ^ 31 ≤ n) (high : n < 2 ^ 31) : atoi (decimal n) = n := by
  have inside : (max (-2 ^ 63) (min n (2 ^ 63 - 1))).bmod (2 ^ 32) = n := by
    rw [min_eq_left (by omega), max_eq_right (by omega)]
    exact Int.bmod_eq_of_le (by omega) (by omega)
  by_cases negative : n < 0
  · have value : -((n.natAbs : ℕ) : ℤ) = n := by omega
    have kept : ((45 :: decimalNat n.natAbs).dropWhile fun byte => decide (IsSpace byte)) =
        45 :: decimalNat n.natAbs := rfl
    rw [decimal, if_pos negative, atoi, kept]
    simp only [leadingNumber_decimalNat, value]
    exact inside
  · have value : ((n.natAbs : ℕ) : ℤ) = n := by omega
    obtain ⟨byte, text, shown⟩ := List.exists_cons_of_ne_nil (decimalNat_ne_nil n.natAbs)
    have digit : IsDigit byte :=
      isDigit_of_mem_decimalNat (n := n.natAbs) (shown ▸ List.mem_cons_self ..)
    rw [decimal, if_neg negative, shown, atoi_of_isDigit digit, ← shown, leadingNumber_decimalNat,
      value]
    exact inside

end Foundations
