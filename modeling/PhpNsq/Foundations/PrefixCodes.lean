import PhpNsq.Foundations.BigEndian

/-!
# Streams of self-delimiting codes

A decoder takes one value from the front of a stream and leaves the rest. When it
reads every code back whatever follows it, and no code is empty, the concatenation of any
codes is decoded to exactly the values they stand for (`decodeStream_flatMap`).

Two ways to delimit a code are a line, which ends with the first occurrence of a
separator (`cutLine_append`), and a length in front of the bytes it counts
(`cutBody_append`).
-/

set_option autoImplicit false

namespace Foundations

section Streams

variable {α β : Type*}

/-- Decode values until nothing is left, at most `fuel` of them. -/
def decodeAll (decode : List β → Option (α × List β)) : ℕ → List β → Option (List α)
  | _, [] => some []
  | 0, _ :: _ => none
  | fuel + 1, symbol :: stream =>
      match decode (symbol :: stream) with
      | none => none
      | some (value, rest) => (decodeAll decode fuel rest).map (value :: ·)

/-- Decode a whole stream. No code is empty, so its length is fuel enough. -/
def decodeStream (decode : List β → Option (α × List β)) (stream : List β) : Option (List α) :=
  decodeAll decode stream.length stream

variable {decode : List β → Option (α × List β)}

theorem decodeAll_cons {fuel : ℕ} {code rest : List β} {value : α} (some_code : code ≠ [])
    (reads : decode (code ++ rest) = some (value, rest)) :
    decodeAll decode (fuel + 1) (code ++ rest) = (decodeAll decode fuel rest).map (value :: ·) := by
  cases code with
  | nil => exact absurd rfl some_code
  | cons symbol code =>
      rw [List.cons_append] at reads ⊢
      simp only [decodeAll, reads]

/-- **A stream of codes is decoded to the values they stand for**, with nothing left over. -/
theorem decodeStream_flatMap {pairs : List (α × List β)} (some_code : ∀ pair ∈ pairs, pair.2 ≠ [])
    (reads : ∀ pair ∈ pairs, ∀ rest, decode (pair.2 ++ rest) = some (pair.1, rest)) :
    decodeStream decode (pairs.flatMap Prod.snd) = some (pairs.map Prod.fst) := by
  have enough : ∀ fuel, (pairs.flatMap Prod.snd).length ≤ fuel →
      decodeAll decode fuel (pairs.flatMap Prod.snd) = some (pairs.map Prod.fst) := by
    induction pairs with
    | nil =>
        intro fuel _
        cases fuel <;> rfl
    | cons pair pairs ih =>
        intro fuel bound
        have here := some_code pair (List.mem_cons_self ..)
        have long : 0 < pair.2.length := List.length_pos_iff.mpr here
        rw [List.flatMap_cons, List.length_append] at bound
        obtain ⟨fuel, rfl⟩ : ∃ less, fuel = less + 1 := ⟨fuel - 1, by omega⟩
        have others := ih (fun other member => some_code other (List.mem_cons_of_mem _ member))
          (fun other member => reads other (List.mem_cons_of_mem _ member)) fuel (by omega)
        rw [List.flatMap_cons, decodeAll_cons here (reads pair (List.mem_cons_self ..) _), others]
        rfl
  exact enough _ (Nat.le_refl _)

/-- Decode the values that are whole in what has come in, at most `fuel` of them. What is left
waits for more. -/
def decodeSome (decode : List β → Option (α × List β)) : ℕ → List β → List α × List β
  | _, [] => ([], [])
  | 0, symbol :: received => ([], symbol :: received)
  | fuel + 1, symbol :: received =>
      match decode (symbol :: received) with
      | none => ([], symbol :: received)
      | some (value, rest) =>
          let (values, left) := decodeSome decode fuel rest
          (value :: values, left)

/-- The same, with fuel enough. -/
def decodeReceived (decode : List β → Option (α × List β)) (received : List β) :
    List α × List β :=
  decodeSome decode received.length received

theorem decodeSome_of_none {received : List β} (fuel : ℕ)
    (waits : received = [] ∨ decode received = none) :
    decodeSome decode fuel received = ([], received) := by
  cases received with
  | nil => cases fuel <;> rfl
  | cons symbol received =>
      have none := waits.resolve_left (List.cons_ne_nil _ _)
      cases fuel with
      | zero => rfl
      | succ fuel => simp only [decodeSome, none]

theorem decodeSome_append {fuel : ℕ} {code rest : List β} {value : α} (some_code : code ≠ [])
    (reads : decode (code ++ rest) = some (value, rest)) :
    decodeSome decode (fuel + 1) (code ++ rest) =
      (value :: (decodeSome decode fuel rest).1, (decodeSome decode fuel rest).2) := by
  cases code with
  | nil => exact absurd rfl some_code
  | cons symbol code =>
      rw [List.cons_append] at reads ⊢
      simp only [decodeSome, reads]

/-- **Whole codes are decoded**, and a part of a code that is behind them is left. -/
theorem decodeReceived_append {pairs : List (α × List β)} {left : List β}
    (some_code : ∀ pair ∈ pairs, pair.2 ≠ [])
    (reads : ∀ pair ∈ pairs, ∀ rest, decode (pair.2 ++ rest) = some (pair.1, rest))
    (waits : left = [] ∨ decode left = none) :
    decodeReceived decode (pairs.flatMap Prod.snd ++ left) = (pairs.map Prod.fst, left) := by
  have enough : ∀ fuel, (pairs.flatMap Prod.snd ++ left).length ≤ fuel →
      decodeSome decode fuel (pairs.flatMap Prod.snd ++ left) = (pairs.map Prod.fst, left) := by
    induction pairs with
    | nil => exact fun fuel _ => decodeSome_of_none fuel waits
    | cons pair pairs ih =>
        intro fuel bound
        have here := some_code pair (List.mem_cons_self ..)
        have long : 0 < pair.2.length := List.length_pos_iff.mpr here
        rw [List.flatMap_cons, List.append_assoc, List.length_append] at bound
        obtain ⟨fuel, rfl⟩ : ∃ less, fuel = less + 1 := ⟨fuel - 1, by omega⟩
        have others := ih (fun other member => some_code other (List.mem_cons_of_mem _ member))
          (fun other member => reads other (List.mem_cons_of_mem _ member)) fuel (by omega)
        rw [List.flatMap_cons, List.append_assoc,
          decodeSome_append here (reads pair (List.mem_cons_self ..) _), others]
        rfl
  exact enough _ (Nat.le_refl _)

/-- A beginning of a stream of codes is some whole codes, and a part of the next one. -/
theorem split_prefix {pairs : List (α × List β)} {received : List β}
    (begins : received <+: pairs.flatMap Prod.snd) :
    ∃ whole waiting left, pairs = whole ++ waiting ∧
      received = whole.flatMap Prod.snd ++ left ∧ (waiting = [] → left = []) ∧
      ∀ pair ∈ waiting.head?, left <+: pair.2 ∧ left.length < pair.2.length := by
  induction pairs generalizing received with
  | nil =>
      obtain rfl := List.prefix_nil.mp begins
      exact ⟨[], [], [], rfl, rfl, fun _ => rfl, fun pair none => by cases none⟩
  | cons pair pairs ih =>
      rw [List.flatMap_cons] at begins
      have front : pair.2 <+: pair.2 ++ pairs.flatMap Prod.snd := List.prefix_append ..
      by_cases short : received.length < pair.2.length
      · have part := List.prefix_of_prefix_length_le begins front short.le
        refine ⟨[], pair :: pairs, received, rfl, rfl, fun none => (by cases none), ?_⟩
        rintro other ⟨⟩
        exact ⟨part, short⟩
      · obtain ⟨more, rfl⟩ := List.prefix_of_prefix_length_le front begins (not_lt.mp short)
        obtain ⟨whole, waiting, left, rfl, rfl, nothing, next⟩ :=
          ih ((List.prefix_append_right_inj _).mp begins)
        refine ⟨pair :: whole, waiting, left, rfl, ?_, nothing, next⟩
        rw [List.flatMap_cons, List.append_assoc]

/-- **A beginning of a stream is decoded to the values whose codes it contains.** What is left is a
part of the next code. -/
theorem decodeReceived_prefix {pairs : List (α × List β)}
    (some_code : ∀ pair ∈ pairs, pair.2 ≠ [])
    (reads : ∀ pair ∈ pairs, ∀ rest, decode (pair.2 ++ rest) = some (pair.1, rest))
    (waits : ∀ pair ∈ pairs, ∀ part, part <+: pair.2 → part.length < pair.2.length →
      decode part = none)
    {received : List β} (begins : received <+: pairs.flatMap Prod.snd) :
    ∃ whole waiting left, pairs = whole ++ waiting ∧
      received = whole.flatMap Prod.snd ++ left ∧ (waiting = [] → left = []) ∧
      (∀ pair ∈ waiting.head?, left <+: pair.2 ∧ left.length < pair.2.length) ∧
      decodeReceived decode received = (whole.map Prod.fst, left) := by
  obtain ⟨whole, waiting, left, rfl, rfl, nothing, next⟩ := split_prefix begins
  refine ⟨whole, waiting, left, rfl, rfl, nothing, next, ?_⟩
  refine decodeReceived_append (fun pair member => some_code pair (List.mem_append_left _ member))
    (fun pair member => reads pair (List.mem_append_left _ member)) ?_
  cases waiting with
  | nil => exact .inl (nothing rfl)
  | cons pair waiting =>
      obtain ⟨part, short⟩ := next pair rfl
      exact .inr (waits pair (List.mem_append_right _ (List.mem_cons_self ..)) left part short)

/-- The part in front of the first separator, and the part behind it. -/
def cutLine [DecidableEq β] (separator : β) : List β → Option (List β × List β)
  | [] => none
  | symbol :: stream =>
      if symbol = separator then some ([], stream)
      else (cutLine separator stream).map fun (line, rest) => (symbol :: line, rest)

theorem cutLine_append [DecidableEq β] {separator : β} {line : List β} (free : separator ∉ line)
    (rest : List β) : cutLine separator (line ++ separator :: rest) = some (line, rest) := by
  induction line with
  | nil => simp [cutLine]
  | cons symbol line ih =>
      rw [List.mem_cons, not_or] at free
      obtain ⟨apart, free⟩ := free
      rw [List.cons_append, cutLine, if_neg (Ne.symm apart), ih free]
      rfl

theorem cutLine_of_notMem [DecidableEq β] {separator : β} {line : List β}
    (free : separator ∉ line) : cutLine separator line = none := by
  induction line with
  | nil => rfl
  | cons symbol line ih =>
      rw [List.mem_cons, not_or] at free
      obtain ⟨apart, free⟩ := free
      rw [cutLine, if_neg (Ne.symm apart), ih free]
      rfl

theorem notMem_of_cutLine [DecidableEq β] {separator : β} {stream : List β}
    (whole : cutLine separator stream = none) : separator ∉ stream := by
  induction stream with
  | nil => exact List.not_mem_nil
  | cons symbol stream ih =>
      rw [cutLine] at whole
      split at whole
      · cases whole
      · next other =>
          rw [List.mem_cons, not_or]
          exact ⟨Ne.symm other, ih (Option.map_eq_none_iff.mp whole)⟩

/-- A stream is cut at the first separator. -/
theorem eq_of_cutLine [DecidableEq β] {separator : β} {stream line rest : List β}
    (cut : cutLine separator stream = some (line, rest)) :
    stream = line ++ separator :: rest ∧ separator ∉ line := by
  induction stream generalizing line with
  | nil => cases cut
  | cons symbol stream ih =>
      rw [cutLine] at cut
      split at cut
      · next here =>
          obtain ⟨rfl, rfl⟩ := Prod.mk.inj (Option.some.inj cut)
          exact ⟨congrArg (· :: stream) here, List.not_mem_nil⟩
      · next other =>
          obtain ⟨⟨front, back⟩, later, same⟩ := Option.map_eq_some_iff.mp cut
          obtain ⟨rfl, rfl⟩ := Prod.mk.inj same
          obtain ⟨rfl, free⟩ := ih later
          refine ⟨rfl, ?_⟩
          rw [List.mem_cons, not_or]
          exact ⟨Ne.symm other, free⟩

/-- A symbol of no word is in no line of these words, unless it separates them. -/
theorem not_mem_intercalate {symbol separator : β} (apart : symbol ≠ separator)
    {words : List (List β)} (free : ∀ word ∈ words, symbol ∉ word) :
    symbol ∉ [separator].intercalate words := by
  induction words with
  | nil => simp [List.intercalate_nil]
  | cons word words ih =>
      have here := free word (List.mem_cons_self ..)
      have others := ih fun other member => free other (List.mem_cons_of_mem _ member)
      cases words with
      | nil => rwa [List.intercalate_singleton]
      | cons next words =>
          rw [List.intercalate_cons_cons]
          simp [here, apart, others]

end Streams

/-- A four-byte length and the bytes it counts, and the part behind them. -/
def cutBody (stream : Bytes) : Option (Bytes × Bytes) :=
  let length := ofBigEndian (stream.take 4)
  let rest := stream.drop 4
  if stream.length < 4 ∨ rest.length < length then none
  else some (rest.take length, rest.drop length)

theorem cutBody_append {body : Bytes} (bound : body.length < 256 ^ 4) (rest : Bytes) :
    cutBody (bigEndian 4 body.length ++ (body ++ rest)) = some (body, rest) := by
  have width := length_bigEndian 4 body.length
  have front : (bigEndian 4 body.length ++ (body ++ rest)).take 4 = bigEndian 4 body.length :=
    List.take_left' width
  have back : (bigEndian 4 body.length ++ (body ++ rest)).drop 4 = body ++ rest :=
    List.drop_left' width
  have fits : ¬ ((bigEndian 4 body.length ++ (body ++ rest)).length < 4 ∨
      (body ++ rest).length < body.length) := by
    simp only [List.length_append, width]
    omega
  simp only [cutBody, front, back, ofBigEndian_bigEndian_of_lt bound]
  rw [if_neg fits, List.take_left, List.drop_left]

/-- A part of a body is not cut off. -/
theorem cutBody_part {body part : Bytes} (bound : body.length < 256 ^ 4)
    (begins : part <+: bigEndian 4 body.length ++ body) (short : part.length < 4 + body.length) :
    cutBody part = none := by
  have width := length_bigEndian 4 body.length
  by_cases four : part.length < 4
  · rw [cutBody, if_pos (.inl four)]
  · have front : part.take 4 = bigEndian 4 body.length := by
      obtain ⟨more, whole⟩ := begins
      have cut := congrArg (List.take 4) whole
      rwa [List.take_append_of_le_length (not_lt.mp four), List.take_left' width] at cut
    have less : (part.drop 4).length < ofBigEndian (part.take 4) := by
      rw [front, ofBigEndian_bigEndian_of_lt bound, List.length_drop]
      omega
    rw [cutBody, if_pos (.inr less)]

end Foundations
