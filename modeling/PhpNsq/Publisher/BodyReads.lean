import PhpNsq.Publisher.Heartbeats

/-!
# The reads of a body

A schedule is what the calls of `read` give, one after the other; behind it the peer has
closed, and `read` gives zero bytes for ever (`nextRead`). The loops of a reader run on it
without a bound, so that whether they come to an end is part of the model.

What the reads of one body have to be for the loop to leave with the body is `TakesBody`: the lengths,
less one for each `-1`, add up to a count behind the last of them that ends the loop. A body
that has been begun is waited for without an end (`Reader.not_exits_body`). For `send_identify`
that is also so of a prefix, and it returns only if its reply was complete (`identifyReturns_iff`).
-/

set_option autoImplicit false

namespace PhpNsq

open Foundations

/-- What the next `read` gives: behind the schedule the peer has closed. -/
def nextRead : List ReadAnswer → ReadAnswer × List ReadAnswer
  | [] => (.got [], [])
  | answer :: answers => (answer, answers)

/-- One call of `read` of a reader. A result that is longer than what was asked for is
impossible. -/
def Reader.pass (code : ReaderCode) (contents : Cells UInt8) :
    Reader × List ReadAnswer →
      Next (Reader × List ReadAnswer) (Option (Reply × List ReadAnswer))
  | (reader, answers) =>
      let (answer, rest) := nextRead answers
      if answer.data.length ≤ reader.requested then
        match reader.step code contents answer with
        | .again next => .again (next, rest)
        | .leave reply => .leave (some (reply, rest))
      else .leave none

/-- A reader leaves with the collected body, and does not take the rest of the schedule. -/
def Reader.Collects (code : ReaderCode) (contents : Cells UInt8) (reader : Reader)
    (answers : List ReadAnswer) (message : Cells UInt8) (rest : List ReadAnswer) : Prop :=
  ∃ l msgSize, Exits (Reader.pass code contents) (reader, answers)
    (some (.collected l msgSize message, rest))

/-- **`send_identify` returns** after finitely many reads. -/
def IdentifyReturns (contents : Cells UInt8) (answers : List ReadAnswer) : Prop :=
  ∃ message rest, Reader.Collects sendIdentifyReader contents .againRead answers message rest

/-! ## The reads of one body -/

/-- What is added to `l`. -/
def ReadAnswer.count : ReadAnswer → ℤ
  | .notYet => -1
  | .got data => data.length

/-- What is written to the body at `l`. -/
def ReadAnswer.storeIn (message : Cells UInt8) (l : ℤ) : ReadAnswer → Cells UInt8
  | .notYet => message
  | .got data => message.store l.toNat data

/-- A body read gives at most the size, and is written within the buffer. -/
def ReadAnswer.Fits (l msgSize : ℤ) : ReadAnswer → Prop
  | .notYet => True
  | .got data => data.length ≤ msgSize ∧
      (data = [] ∨ (0 ≤ l ∧ l + data.length ≤ msgSize + 1))

/-- The reads of one body from a count on: the last of them ends the loop. -/
def TakesBody (code : ReaderCode) (msgSize : ℤ) : ℤ → List ReadAnswer → Prop
  | _, [] => False
  | l, answer :: answers =>
      answer.Fits l msgSize ∧
        if code.goesOn (l + answer.count) msgSize then
          TakesBody code msgSize (l + answer.count) answers
        else answers = []

/-- What they leave in the buffer. -/
def bodyOf (message : Cells UInt8) : ℤ → List ReadAnswer → Cells UInt8
  | _, [] => message
  | l, answer :: answers => bodyOf (answer.storeIn message l) (l + answer.count) answers

/-- The first bytes of a prefix, whose size is one that a buffer can be asked for. -/
def Opens (data : Bytes) : Prop :=
  data ≠ [] ∧ data.length ≤ 4 ∧ 0 ≤ Reader.sizeOf data ∧ Reader.sizeOf data ≠ intMax

/-- **A complete reply** to `send_identify`, behind any reads that gave none of it. -/
def Replied : List ReadAnswer → Prop
  | [] => False
  | .notYet :: answers => Replied answers
  | .got [] :: answers => Replied answers
  | .got (byte :: data) :: answers =>
      Opens (byte :: data) ∧ ((Reader.sizeOf (byte :: data) = 0 ∧ answers = []) ∨
        ∃ body rest, answers = body ++ rest ∧
          TakesBody sendIdentifyReader (Reader.sizeOf (byte :: data)) 0 body)

/-! ## Collecting a body -/

section Collecting

variable {code : ReaderCode} {contents message message' : Cells UInt8} {reader next : Reader}
  {answer : ReadAnswer} {answers rest : List ReadAnswer} {l msgSize : ℤ}

/-! At the end of the stream a read fits, and changes neither the count nor the buffer. -/

theorem ReadAnswer.fits_end (nonneg : 0 ≤ msgSize) : Fits l msgSize (.got []) :=
  ⟨nonneg, .inl rfl⟩

theorem ReadAnswer.add_count_end (l : ℤ) : l + (ReadAnswer.got []).count = l := add_zero l

theorem ReadAnswer.storeIn_end (message : Cells UInt8) (l : ℤ) :
    (ReadAnswer.got []).storeIn message l = message := Cells.store_nil ..

/-- A body read that fits. -/
theorem Reader.step_fits (fits : answer.Fits l msgSize) :
    Reader.step code contents (.again l msgSize message) answer =
      Reader.afterBody code (l + answer.count) msgSize (answer.storeIn message l) := by
  cases answer with
  | notYet => rfl
  | got data =>
      have inside : ¬ (data ≠ [] ∧ (l < 0 ∨ msgSize + 1 < l + data.length)) := by
        rintro ⟨some_data, outside⟩
        rcases fits.2 with none | place
        · exact some_data none
        · omega
      exact if_neg inside

/-- A body read that leaves the buffer. -/
theorem Reader.step_not_fits (possible : answer.data.length ≤ msgSize)
    (outside : ¬ answer.Fits l msgSize) :
    Reader.step code contents (.again l msgSize message) answer =
      .leave (.fault .heapOverflow) := by
  cases answer with
  | notYet => exact absurd trivial outside
  | got data =>
      have fault : data ≠ [] ∧ (l < 0 ∨ msgSize + 1 < l + data.length) := by
        refine ⟨fun none => outside ⟨possible, .inl none⟩, ?_⟩
        by_contra inside
        exact outside ⟨possible, .inr (by omega)⟩
      exact if_pos fault

/-- A body read that does not fit is impossible or a fault. -/
theorem Reader.pass_not_fits (outside : ¬ answer.Fits l msgSize) :
    ∃ left, Reader.pass code contents (.again l msgSize message, answer :: answers) = .leave left ∧
      ∀ l' msgSize' message' rest, left ≠ some (.collected l' msgSize' message', rest) := by
  by_cases possible : (answer.data.length : ℤ) ≤ msgSize
  · refine ⟨some (.fault .heapOverflow, answers), ?_, ?_⟩
    · simp only [Reader.pass, nextRead, Reader.requested, if_pos possible,
        Reader.step_not_fits possible outside]
    · rintro l' msgSize' message' rest same
      cases same
  · refine ⟨none, if_neg possible, ?_⟩
    rintro l' msgSize' message' rest same
    cases same

theorem ReadAnswer.Fits.length_le (nonneg : 0 ≤ msgSize) (fits : answer.Fits l msgSize) :
    answer.data.length ≤ msgSize := by
  cases answer with
  | notYet => exact nonneg
  | got data => exact fits.1

/-- A pass over a body read that fits. -/
theorem Reader.pass_fits (nonneg : 0 ≤ msgSize) (fits : answer.Fits l msgSize) :
    Reader.pass code contents (.again l msgSize message, answer :: answers) =
      if code.goesOn (l + answer.count) msgSize then
        .again (.again (l + answer.count) msgSize (answer.storeIn message l), answers)
      else
        .leave (some
          (.collected (l + answer.count) msgSize (answer.storeIn message l), answers)) := by
  have possible := fits.length_le nonneg
  simp only [Reader.pass, nextRead, Reader.requested, if_pos possible, Reader.step_fits fits,
    Reader.afterBody]
  cases code.goesOn (l + answer.count) msgSize with
  | true => rfl
  | false => rfl

/-- The peer has closed. -/
theorem Reader.pass_nil :
    Reader.pass code contents (reader, []) = Reader.pass code contents (reader, [.got []]) := rfl

/-- **A begun body is waited for without an end** when nothing comes any more. -/
theorem Reader.not_exits_body (nonneg : 0 ≤ msgSize) (more : code.goesOn l msgSize = true)
    (left : Option (Reply × List ReadAnswer)) :
    ¬ Exits (Reader.pass code contents) (.again l msgSize message, []) left := by
  refine not_exits_of_invariant (fun state => state = (Reader.again l msgSize message, [])) ?_ rfl
    left
  rintro state rfl
  refine ⟨_, ?_, rfl⟩
  rw [Reader.pass_nil, Reader.pass_fits nonneg (ReadAnswer.fits_end nonneg),
    ReadAnswer.add_count_end, ReadAnswer.storeIn_end, more, if_pos rfl]

/-- Behind a body read that fits. -/
theorem Reader.collects_cons (nonneg : 0 ≤ msgSize) :
    Reader.Collects code contents (.again l msgSize message) (answer :: answers) message' rest ↔
      answer.Fits l msgSize ∧
        if code.goesOn (l + answer.count) msgSize then
          Reader.Collects code contents
            (.again (l + answer.count) msgSize (answer.storeIn message l)) answers message' rest
        else message' = answer.storeIn message l ∧ rest = answers := by
  by_cases fits : answer.Fits l msgSize
  · rw [and_iff_right fits]
    have pass : Reader.pass code contents (.again l msgSize message, answer :: answers) = _ :=
      Reader.pass_fits nonneg fits
    cases more : code.goesOn (l + answer.count) msgSize with
    | true =>
        rw [more, if_pos rfl] at pass
        exact exists_congr fun _ => exists_congr fun _ => exits_of_again pass
    | false =>
        rw [more, if_neg Bool.false_ne_true] at pass
        rw [if_neg Bool.false_ne_true]
        constructor
        · rintro ⟨l', msgSize', exits⟩
          cases (exits_of_leave pass).mp exits
          exact ⟨rfl, rfl⟩
        · rintro ⟨rfl, rfl⟩
          exact ⟨_, _, (exits_of_leave pass).mpr rfl⟩
  · refine iff_of_false ?_ fun both => fits both.1
    rintro ⟨l', msgSize', exits⟩
    obtain ⟨left, leaves, not_collected⟩ :
        ∃ left, Reader.pass code contents (.again l msgSize message, answer :: answers) =
          .leave left ∧ _ := Reader.pass_not_fits fits
    exact not_collected _ _ _ _ ((exits_of_leave leaves).mp exits).symm

/-- Behind the schedule a body is collected only if its loop ends at once. -/
theorem Reader.collects_nil (nonneg : 0 ≤ msgSize) :
    Reader.Collects code contents (.again l msgSize message) [] message' rest ↔
      code.goesOn l msgSize = false ∧ message' = message ∧ rest = [] := by
  cases more : code.goesOn l msgSize with
  | true =>
      refine iff_of_false ?_ fun three => Bool.false_ne_true three.1.symm
      rintro ⟨l', msgSize', exits⟩
      exact Reader.not_exits_body nonneg more _ exits
  | false =>
      have closed : Reader.Collects code contents (.again l msgSize message) [.got []] message'
          rest ↔ _ := Reader.collects_cons nonneg
      rw [ReadAnswer.add_count_end, ReadAnswer.storeIn_end, more, if_neg Bool.false_ne_true,
        and_iff_right (ReadAnswer.fits_end nonneg)] at closed
      rw [and_iff_right rfl]
      refine Iff.trans ?_ closed
      exact exists_congr fun _ => exists_congr fun _ => exits_congr Reader.pass_nil

/-- **A body is collected** by the reads that take it. -/
theorem Reader.collects_body (nonneg : 0 ≤ msgSize) :
    Reader.Collects code contents (.again l msgSize message) answers message' rest ↔
      (answers = [] ∧ rest = [] ∧ code.goesOn l msgSize = false ∧ message' = message) ∨
        ∃ body, answers = body ++ rest ∧ TakesBody code msgSize l body ∧
          message' = bodyOf message l body := by
  induction answers generalizing l message with
  | nil =>
      rw [Reader.collects_nil nonneg]
      constructor
      · rintro ⟨ends, rfl, rfl⟩
        exact .inl ⟨rfl, rfl, ends, rfl⟩
      · rintro (⟨-, rfl, ends, rfl⟩ | ⟨body, nothing, taken, -⟩)
        · exact ⟨ends, rfl, rfl⟩
        · obtain ⟨rfl, -⟩ := List.append_eq_nil_iff.mp nothing.symm
          exact taken.elim
  | cons answer answers ih =>
      rw [Reader.collects_cons nonneg]
      constructor
      · rintro ⟨fits, behind⟩
        right
        split at behind
        · next more =>
            rcases ih.mp behind with ⟨rfl, rfl, ends, -⟩ | ⟨body, rfl, taken, rfl⟩
            · rw [more] at ends
              cases ends
            · exact ⟨answer :: body, rfl, ⟨fits, by rwa [if_pos more]⟩, rfl⟩
        · next ends =>
            obtain ⟨rfl, rfl⟩ := behind
            exact ⟨[answer], rfl, ⟨fits, by rw [if_neg ends]⟩, rfl⟩
      · rintro (⟨nothing, -⟩ | ⟨body, split, taken, rfl⟩)
        · cases nothing
        · cases body with
          | nil => exact taken.elim
          | cons first body =>
              obtain ⟨rfl, rfl⟩ := List.cons.inj split
              obtain ⟨fits, behind⟩ := taken
              refine ⟨fits, ?_⟩
              split
              · next more =>
                  rw [if_pos more] at behind
                  exact ih.mpr (.inr ⟨body, rfl, behind, rfl⟩)
              · next ends =>
                  rw [if_neg ends] at behind
                  subst behind
                  exact ⟨rfl, rfl⟩

/-! ## Reading a prefix -/

theorem Opens.step {data : Bytes} (opens : Opens data) :
    Reader.step code contents .againRead (.got data) =
      .again (.again 0 (Reader.sizeOf data) (Reader.cleared contents (Reader.sizeOf data))) := by
  rw [Reader.step_data opens.1, if_pos opens.2.2]

theorem Reader.step_not_opens {data : Bytes} (some_data : data ≠ []) (short : data.length ≤ 4)
    (closed : ¬ Opens data) :
    Reader.step code contents .againRead (.got data) = .leave (.fault .badAllocation) := by
  rw [Reader.step_data some_data, if_neg fun good => closed ⟨some_data, short, good⟩]

/-- A body is collected behind the first bytes of its prefix. -/
theorem Reader.collects_data {data : Bytes} (some_data : data ≠ []) :
    Reader.Collects code contents .againRead (.got data :: answers) message' rest ↔
      Opens data ∧ Reader.Collects code contents
        (.again 0 (Reader.sizeOf data) (Reader.cleared contents (Reader.sizeOf data))) answers
        message' rest := by
  by_cases short : data.length ≤ 4
  · have possible : ((ReadAnswer.got data).data.length : ℤ) ≤ requested .againRead :=
      Nat.cast_le.mpr short
    by_cases opens : Opens data
    · rw [and_iff_right opens]
      refine exists_congr fun _ => exists_congr fun _ => exits_of_again ?_
      simp only [Reader.pass, nextRead, if_pos possible, opens.step]
    · refine iff_of_false ?_ fun both => opens both.1
      rintro ⟨l', msgSize', exits⟩
      have leaves : Reader.pass code contents (.againRead, .got data :: answers) =
          .leave (some (.fault .badAllocation, answers)) := by
        simp only [Reader.pass, nextRead, if_pos possible,
          Reader.step_not_opens some_data short opens]
      cases (exits_of_leave leaves).mp exits
  · refine iff_of_false ?_ fun both => short both.1.2.1
    rintro ⟨l', msgSize', exits⟩
    have impossible : ¬ ((ReadAnswer.got data).data.length : ℤ) ≤ requested .againRead :=
      fun le => short (Nat.cast_le.mp le)
    have leaves : Reader.pass code contents (.againRead, .got data :: answers) = .leave none :=
      if_neg impossible
    cases (exits_of_leave leaves).mp exits

end Collecting

/-! ## The body of a frame -/

section Frame

variable {code : ReaderCode} {contents : Cells UInt8} {rest : List ReadAnswer}

/-- The prefix of a frame opens its body. -/
theorem opens_size (frame : RawFrame) : Opens (bigEndian 4 frame.size) := by
  have bound := frame.size_lt
  have size : Reader.sizeOf (bigEndian 4 frame.size) = frame.size :=
    Reader.sizeOf_bigEndian (by omega)
  refine ⟨List.ne_nil_of_length_pos (by simp), by simp, ?_, ?_⟩
  · rw [size]
    exact Int.natCast_nonneg _
  · rw [size, intMax]
    omega

/-- A body that comes whole is collected. -/
theorem Reader.collects_whole (reads : code.ReadsOn) (frame : RawFrame)
    {message' : Cells UInt8} {rest' : List ReadAnswer} :
    Reader.Collects code contents (.again 0 frame.size (Reader.cleared contents frame.size))
        (.got frame.payload :: rest) message' rest' ↔
      message' = frame.buffer contents ∧ rest' = rest := by
  have length : (frame.payload.length : ℤ) = frame.size := congrArg _ frame.length_payload
  have fits : (ReadAnswer.got frame.payload).Fits 0 frame.size :=
    ⟨length.le, .inr ⟨le_rfl, by omega⟩⟩
  have complete : code.goesOn (0 + (ReadAnswer.got frame.payload).count) frame.size = false :=
    reads.enough _ _ (by rw [ReadAnswer.count, length, zero_add])
  rw [Reader.collects_cons (Int.natCast_nonneg _), and_iff_right fits, complete,
    if_neg Bool.false_ne_true]
  rfl

/-- Some of a body is not collected, when the loop goes on behind each part of it. -/
theorem Reader.not_collects_pieces {size l : ℕ}
    (more : ∀ k : ℕ, l ≤ k → k < size → code.goesOn k size = true)
    {message message' : Cells UInt8} {pieces : List Bytes}
    (short : l + pieces.flatten.length < size) :
    ¬ Reader.Collects code contents (.again l size message) (pieces.map .got) message' rest := by
  induction pieces generalizing l message with
  | nil =>
      rw [List.map_nil, Reader.collects_nil (Int.natCast_nonneg _), more l le_rfl (by omega)]
      rintro ⟨ends, -⟩
      cases ends
  | cons piece pieces ih =>
      rw [List.flatten_cons, List.length_append] at short
      have onward : code.goesOn (l + (ReadAnswer.got piece).count) size = true :=
        more (l + piece.length) (by omega) (by omega)
      rw [List.map_cons, Reader.collects_cons (Int.natCast_nonneg _), onward, if_pos rfl]
      rintro ⟨-, collects⟩
      refine ih (l := l + piece.length) (fun k from_here => more k (by omega)) (by omega) collects

end Frame

/-! ## send_identify -/

section Identify

variable {contents : Cells UInt8} {answers : List ReadAnswer}

/-- Zero bytes of a prefix are a reason to read again, for ever. -/
theorem not_identifyReturns_nil : ¬ IdentifyReturns contents [] := by
  rintro ⟨message, rest, l, msgSize, exits⟩
  refine not_exits_of_invariant (fun state => state = (Reader.againRead, [])) ?_ rfl _ exits
  rintro state rfl
  exact ⟨_, rfl, rfl⟩

/-- A read that gives nothing of a prefix is passed over. -/
theorem identifyReturns_cons {answer : ReadAnswer}
    (again : Reader.pass sendIdentifyReader contents (.againRead, answer :: answers) =
      .again (.againRead, answers)) :
    IdentifyReturns contents (answer :: answers) ↔ IdentifyReturns contents answers :=
  exists_congr fun _ => exists_congr fun _ => exists_congr fun _ => exists_congr fun _ =>
    exits_of_again again

/-- The body loop ends at once for a size of zero only. -/
theorem sendIdentifyReader_ends {msgSize : ℤ} (nonneg : 0 ≤ msgSize) :
    sendIdentifyReader.goesOn 0 msgSize = false ↔ msgSize = 0 := by
  have ends : sendIdentifyReader.goesOn 0 msgSize = false ↔ ¬ 0 < msgSize := decide_eq_false_iff_not
  rw [ends]
  omega

/-- **`send_identify` returns** exactly when the schedule holds a complete reply. -/
theorem identifyReturns_iff : IdentifyReturns contents answers ↔ Replied answers := by
  induction answers with
  | nil => exact iff_of_false not_identifyReturns_nil id
  | cons answer answers ih =>
      cases answer with
      | notYet => exact (identifyReturns_cons rfl).trans ih
      | got data =>
          cases data with
          | nil => exact (identifyReturns_cons rfl).trans ih
          | cons byte data =>
              rw [IdentifyReturns, Replied]
              simp only [Reader.collects_data (List.cons_ne_nil byte data)]
              constructor
              · rintro ⟨message, rest, opens, collects⟩
                refine ⟨opens, ?_⟩
                rcases (Reader.collects_body opens.2.2.1).mp collects with
                  ⟨rfl, -, ends, -⟩ | ⟨body, split, taken, -⟩
                · exact .inl ⟨(sendIdentifyReader_ends opens.2.2.1).mp ends, rfl⟩
                · exact .inr ⟨body, rest, split, taken⟩
              · rintro ⟨opens, ⟨zero, rfl⟩ | ⟨body, rest, split, taken⟩⟩
                · have ends := (sendIdentifyReader_ends opens.2.2.1).mpr zero
                  exact ⟨_, [], opens,
                    (Reader.collects_body opens.2.2.1).mpr (.inl ⟨rfl, rfl, ends, rfl⟩)⟩
                · exact ⟨_, rest, opens,
                    (Reader.collects_body opens.2.2.1).mpr (.inr ⟨body, split, taken, rfl⟩)⟩

/-- A cut frame is no reply to `send_identify`, wherever it is cut. -/
theorem not_identifyReturns_cut (frame : RawFrame) (waits : ℕ) {pieces : List Bytes}
    (short : pieces.flatten.length < frame.size) :
    ¬ IdentifyReturns contents
      (List.replicate waits .notYet ++ .got (bigEndian 4 frame.size) :: pieces.map .got) := by
  have opens := opens_size frame
  have bound := frame.size_lt
  induction waits with
  | succ waits ih => rwa [List.replicate_succ, List.cons_append, identifyReturns_cons rfl]
  | zero =>
      rintro ⟨message, rest, collects⟩
      rw [List.replicate_zero, List.nil_append, Reader.collects_data opens.1,
        Reader.sizeOf_bigEndian (by omega)] at collects
      refine Reader.not_collects_pieces (l := 0) (fun k _ below => ?_) (by omega) collects.2
      exact decide_eq_true (Nat.cast_lt.mpr below)

end Identify

end PhpNsq
