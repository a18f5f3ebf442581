import PhpNsq.Publisher.FrameReader

/-!
# A frame under every schedule of reads

`read` on a non-blocking socket gives `-1` or some of the bytes it was asked for. A
schedule is what the calls give, one after the other, and `drive` runs a reader over it:
how the reader ends, where it wrote which bytes of the stream, and how far the stream
was read.

A reader reads a frame exactly (`ReadsFrame`) when it collects `size` bytes, writes each of
them at its own offset, and stops behind the frame. The three readers do so under plain
schedules only (`readsFrame_iff`): the prefix has to come whole, no `-1` may come
in front of or within the body, and no read of the body may go beyond the frame. A `-1` is added to
`l`, a short prefix leaves its other bytes to the body, and every body read asks for the whole
size again.
-/

set_option autoImplicit false

namespace PhpNsq

open Foundations

/-- Bytes of the stream that were written to the body, where the first of them came from,
and how many they are. -/
structure Write where
  offset : ℤ
  position : ℕ
  count : ℕ

/-- Every byte stands at its own offset in a body of this size. -/
structure Write.InPlace (size : ℕ) (write : Write) : Prop where
  nonneg : 0 ≤ write.offset
  own : write.offset + 4 = write.position
  inside : write.offset + write.count ≤ size

/-- How a reader ended. -/
structure Outcome where
  reply : Reply
  writes : List Write
  position : ℕ

namespace Outcome

/-- With what was written before. -/
def behind (here : List Write) (outcome : Outcome) : Outcome :=
  { outcome with writes := here ++ outcome.writes }

/-- The frame is collected, every byte stands at its own offset, and the stream is behind
the frame. -/
structure Exact (frame : RawFrame) (outcome : Outcome) : Prop where
  collected : ∃ msgSize message, outcome.reply = .collected frame.size msgSize message ∧
    message.slice 0 frame.size = frame.payload
  writes : ∀ write ∈ outcome.writes, write.InPlace frame.size
  position : outcome.position = frame.size + 4

theorem exact_behind {frame : RawFrame} {here : List Write} {outcome : Outcome} :
    (outcome.behind here).Exact frame ↔
      (∀ write ∈ here, write.InPlace frame.size) ∧ outcome.Exact frame := by
  constructor
  · rintro ⟨collected, writes, position⟩
    exact ⟨fun write member => writes write (List.mem_append_left _ member), collected,
      fun write member => writes write (List.mem_append_right _ member), position⟩
  · rintro ⟨before, collected, writes, position⟩
    refine ⟨collected, fun write member => ?_, position⟩
    exact (List.mem_append.mp member).elim (before write) (writes write)

end Outcome

/-- What a call of `read` may give: at most what was asked for, and nothing only if nothing was. -/
def Reader.Allows (reader : Reader) (answer : ReadAnswer) : Prop :=
  answer.data.length ≤ reader.requested ∧ (answer = .got [] → reader.requested = 0)

instance (reader : Reader) : DecidablePred reader.Allows := fun answer =>
  inferInstanceAs (Decidable (answer.data.length ≤ reader.requested ∧
    (answer = .got [] → reader.requested = 0)))

/-- What is written to the body. -/
def Reader.writes (position : ℕ) : Reader → ReadAnswer → List Write
  | .again l _ _, .got data => if data = [] then [] else [⟨l, position, data.length⟩]
  | _, _ => []

/-- Run a reader over a schedule, until it ends. -/
def drive (code : ReaderCode) (contents : Cells UInt8) :
    Reader → ℕ → List ReadAnswer → Option Outcome
  | _, _, [] => none
  | reader, position, answer :: answers =>
      if reader.Allows answer then
        let behind := position + answer.data.length
        let here := reader.writes position answer
        match reader.step code contents answer with
        | .leave reply => some ⟨reply, here, behind⟩
        | .again next => (drive code contents next behind answers).map (Outcome.behind here)
      else none

/-- A reader reads a frame exactly. -/
def ReadsFrame (code : ReaderCode) (contents : Cells UInt8) (frame : RawFrame)
    (answers : List ReadAnswer) : Prop :=
  ∃ outcome, drive code contents .againRead 0 answers = some outcome ∧ outcome.Exact frame

/-! ## Plain schedules -/

/-- The missing bytes of a body come without a `-1`, and nothing comes with them. -/
def PlainBody : ℕ → List ReadAnswer → Prop
  | 0, _ => True
  | _ + 1, [] => False
  | _ + 1, .notYet :: _ => False
  | missing + 1, .got data :: answers =>
      data ≠ [] ∧ data.length ≤ missing + 1 ∧ PlainBody (missing + 1 - data.length) answers

/-- The size prefix comes whole after some `-1`, and the body is plain. -/
def PlainSchedule (size : ℕ) : List ReadAnswer → Prop
  | [] => False
  | .notYet :: answers => PlainSchedule size answers
  | .got data :: answers => data.length = 4 ∧ PlainBody size answers

@[simp] theorem plainBody_zero (answers : List ReadAnswer) : PlainBody 0 answers := by
  cases answers with
  | nil => trivial
  | cons answer answers => trivial

section Drive

variable {code : ReaderCode} {contents : Cells UInt8} {reader : Reader} {position : ℕ}
  {answer : ReadAnswer} {answers : List ReadAnswer} {outcome : Outcome}

/-- One call of `read`. -/
theorem drive_cons_eq_some :
    drive code contents reader position (answer :: answers) = some outcome ↔
      reader.Allows answer ∧
        ((∃ reply, reader.step code contents answer = .leave reply ∧
            outcome = ⟨reply, reader.writes position answer, position + answer.data.length⟩) ∨
          ∃ next tail, reader.step code contents answer = .again next ∧
            drive code contents next (position + answer.data.length) answers = some tail ∧
            outcome = tail.behind (reader.writes position answer)) := by
  rw [drive]
  split
  · next allowed =>
      cases step : reader.step code contents answer with
      | leave reply => simp [allowed, eq_comm]
      | again next => simp [allowed, eq_comm]
  · next refused => simp [refused]

/-! ## Plain schedules are enough -/

variable {frame : RawFrame} {message : Cells UInt8} {undelivered rest : Bytes}

/-- The front of a stream that is not longer than its first part. -/
theorem front_of_append {front behind first second : Bytes}
    (stream : front ++ behind = first ++ second) (short : front.length ≤ first.length) :
    front = first.take front.length ∧ behind = first.drop front.length ++ second := by
  have front_eq := congrArg (List.take front.length) stream
  have behind_eq := congrArg (List.drop front.length) stream
  rw [List.take_left, List.take_append_of_le_length short] at front_eq
  rw [List.drop_left, List.drop_append_of_le_length short] at behind_eq
  exact ⟨front_eq, behind_eq⟩

/-- A piece of a body is stored behind what was collected of it. -/
theorem store_piece {l : ℕ} {data : Bytes} (below : l < frame.size)
    (stored : message.slice 0 l = frame.payload.take l)
    (piece : data = (frame.payload.drop l).take data.length) :
    (message.store l data).slice 0 (l + data.length) = frame.payload.take (l + data.length) := by
  have collected : (frame.payload.take l).length = l := by
    rw [List.length_take, frame.length_payload]
    exact Nat.min_eq_left below.le
  have appended := Cells.slice_store_append data
    (show message.slice 0 (frame.payload.take l).length = frame.payload.take l by
      rw [collected, stored])
  rw [collected] at appended
  rw [appended, List.take_add, ← piece]

/-- **A plain body is collected in place.** -/
theorem drive_plainBody (contents message : Cells UInt8) (reads : code.ReadsOn) {l : ℕ}
    (below : l < frame.size) (stored : message.slice 0 l = frame.payload.take l)
    (plain : PlainBody (frame.size - l) answers)
    (delivers : answers.flatMap ReadAnswer.data ++ undelivered = frame.payload.drop l ++ rest) :
    ∃ outcome, drive code contents (.again l frame.size message) (l + 4) answers = some outcome ∧
      outcome.Exact frame := by
  induction answers generalizing l message with
  | nil =>
      obtain ⟨missing, left⟩ : ∃ missing, frame.size - l = missing + 1 :=
        Nat.exists_eq_succ_of_ne_zero (by omega)
      rw [left] at plain
      exact plain.elim
  | cons answer answers ih =>
      obtain ⟨missing, left⟩ : ∃ missing, frame.size - l = missing + 1 :=
        Nat.exists_eq_succ_of_ne_zero (by omega)
      rw [left] at plain
      cases answer with
      | notYet => exact plain.elim
      | got data =>
          obtain ⟨some_data, fits, more⟩ := plain
          have length : (frame.payload.drop l).length = missing + 1 := by
            rw [List.length_drop, frame.length_payload, left]
          rw [List.flatMap_cons, List.append_assoc] at delivers
          obtain ⟨piece, later⟩ := front_of_append delivers (by rw [length]; exact fits)
          have allowed : (Reader.again l frame.size message).Allows (.got data) := by
            refine ⟨?_, fun empty => absurd (ReadAnswer.got.inj empty) some_data⟩
            change (data.length : ℤ) ≤ frame.size
            omega
          have inPlace : (⟨l, l + 4, data.length⟩ : Write).InPlace frame.size := by
            constructor
            · exact Int.natCast_nonneg l
            · push_cast
              rfl
            · change (l : ℤ) + data.length ≤ frame.size
              omega
          have writes : Reader.writes (l + 4) (.again l frame.size message) (.got data) =
              [⟨l, l + 4, data.length⟩] := if_neg some_data
          have stored' : (message.store l data).slice 0 (l + data.length) =
              frame.payload.take (l + data.length) := store_piece below stored piece
          by_cases complete : l + data.length = frame.size
          · refine ⟨_, drive_cons_eq_some.mpr ⟨allowed, .inl ⟨_, Reader.step_last reads complete, rfl⟩⟩,
              ⟨_, _, rfl, ?_⟩, ?_, ?_⟩
            · rw [complete] at stored'
              rw [stored', ← frame.length_payload, List.take_length]
            · rw [writes]
              exact List.forall_mem_singleton.mpr inPlace
            · change l + 4 + data.length = frame.size + 4
              omega
          · have next : Reader.step code contents (.again l frame.size message) (.got data) =
                .again (.again (l + data.length : ℕ) frame.size (message.store l data)) :=
              Reader.step_piece reads some_data (by omega)
            rw [List.drop_drop] at later
            obtain ⟨outcome, driven, exact_rest⟩ := ih _ (l := l + data.length) (by omega) stored'
              (by rwa [show frame.size - (l + data.length) = missing + 1 - data.length by omega]) later
            refine ⟨_, drive_cons_eq_some.mpr ⟨allowed, .inr ⟨_, outcome, next, ?_, rfl⟩⟩,
              Outcome.exact_behind.mpr ⟨?_, exact_rest⟩⟩
            · rwa [Nat.add_right_comm] at driven
            · rw [writes]
              exact List.forall_mem_singleton.mpr inPlace

/-- A prefix that comes whole is that of the frame. -/
theorem prefix_of_delivers {data behind : Bytes} (four : data.length = 4)
    (delivers : data ++ behind = frame.encode ++ rest) :
    data = bigEndian 4 frame.size ∧ behind = frame.payload ++ rest := by
  rw [RawFrame.encode, List.append_assoc] at delivers
  exact List.append_inj delivers (four.trans (length_bigEndian ..).symm)

theorem drive_plainSchedule (reads : code.ReadsOn) (plain : PlainSchedule frame.size answers)
    (delivers : answers.flatMap ReadAnswer.data ++ undelivered = frame.encode ++ rest) :
    ReadsFrame code contents frame answers := by
  induction answers with
  | nil => exact plain.elim
  | cons answer answers ih =>
      cases answer with
      | notYet =>
          obtain ⟨outcome, driven, exact_rest⟩ := ih plain delivers
          have allowed : Reader.againRead.Allows .notYet := by decide
          exact ⟨_, drive_cons_eq_some.mpr ⟨allowed, .inr ⟨_, outcome, rfl, driven, rfl⟩⟩,
            Outcome.exact_behind.mpr ⟨List.forall_mem_nil _, exact_rest⟩⟩
      | got data =>
          obtain ⟨four, plain⟩ := plain
          rw [List.flatMap_cons, List.append_assoc] at delivers
          obtain ⟨rfl, body⟩ : data = bigEndian 4 frame.size ∧ _ :=
            prefix_of_delivers four delivers
          have allowed : Reader.againRead.Allows (.got (bigEndian 4 frame.size)) := by
            refine ⟨?_, fun empty => ?_⟩
            · change ((bigEndian 4 frame.size).length : ℤ) ≤ 4
              rw [four]
              rfl
            · rw [ReadAnswer.got.inj empty] at four
              cases four
          have size_pos := frame.four_le_size
          obtain ⟨outcome, driven, exact_rest⟩ := drive_plainBody contents
            (Reader.cleared contents frame.size) reads (show 0 < frame.size by omega) rfl plain body
          refine ⟨_, drive_cons_eq_some.mpr
            ⟨allowed, .inr ⟨_, outcome, Reader.step_prefix frame, ?_, rfl⟩⟩,
            Outcome.exact_behind.mpr ⟨List.forall_mem_nil _, exact_rest⟩⟩
          change drive code contents _ (0 + (bigEndian 4 frame.size).length) answers = some outcome
          rwa [four]

/-! ## And no other schedule is -/

/-- A reader of a body that has lost its place: a write would not stand at its own offset. -/
def Spoiled (l : ℤ) (position : ℕ) : Prop := l + 4 < position ∨ (l ≤ 0 ∧ position < 4)

/-- One more body read, if the reader had nothing to write or wrote it in place. -/
theorem drive_afterBody {l msgSize : ℤ} {message' : Cells UInt8}
    (step : reader.step code contents answer = Reader.afterBody code l msgSize message')
    (driven : drive code contents reader position (answer :: answers) = some outcome)
    (exact_frame : outcome.Exact frame) :
    l = frame.size ∨ ∃ tail, drive code contents (.again l msgSize message')
      (position + answer.data.length) answers = some tail ∧ tail.Exact frame := by
  obtain ⟨-, ⟨reply, leaves, rfl⟩ | ⟨next, tail, goes, driven, rfl⟩⟩ := drive_cons_eq_some.mp driven
  · obtain ⟨_, _, collected, -⟩ := exact_frame.collected
    rw [step, Reader.afterBody] at leaves
    split at leaves
    · cases leaves
    · obtain rfl := Next.leave.inj leaves
      exact .inl (Reply.collected.inj collected).1
  · rw [step, Reader.afterBody] at goes
    split at goes
    · obtain rfl := Next.again.inj goes
      exact .inr ⟨tail, driven, (Outcome.exact_behind.mp exact_frame).2⟩
    · cases goes

/-- What is written is written in place. -/
theorem writes_inPlace
    (driven : drive code contents reader position (answer :: answers) = some outcome)
    (exact_frame : outcome.Exact frame) :
    ∀ write ∈ reader.writes position answer, write.InPlace frame.size := by
  obtain ⟨-, ⟨reply, -, rfl⟩ | ⟨next, tail, -, -, rfl⟩⟩ := drive_cons_eq_some.mp driven
  · exact exact_frame.writes
  · exact (Outcome.exact_behind.mp exact_frame).1

/-- A piece of a body that is written is written in place, and the reader goes on behind it. -/
theorem drive_piece {l msgSize : ℤ} {data : Bytes} (some_data : data ≠ [])
    (driven : drive code contents (.again l msgSize message) position (.got data :: answers) =
      some outcome) (exact_frame : outcome.Exact frame) :
    (0 ≤ l ∧ l + 4 = position ∧ l + data.length ≤ frame.size) ∧
      (l + data.length = frame.size ∨
        ∃ tail, drive code contents
          (.again (l + data.length) msgSize (message.store l.toNat data))
          (position + data.length) answers = some tail ∧ tail.Exact frame) := by
  have inPlace := writes_inPlace driven exact_frame ⟨l, position, data.length⟩
    (by simp [Reader.writes, some_data])
  refine ⟨⟨inPlace.nonneg, inPlace.own, inPlace.inside⟩, ?_⟩
  by_cases outside : data ≠ [] ∧ (l < 0 ∨ msgSize + 1 < l + data.length)
  · have fault : (Reader.again l msgSize message).step code contents (.got data) =
        .leave (.fault .heapOverflow) := if_pos outside
    obtain ⟨-, ⟨reply, leaves, rfl⟩ | ⟨next, tail, goes, -⟩⟩ := drive_cons_eq_some.mp driven
    · obtain ⟨_, _, collected, -⟩ := exact_frame.collected
      rw [fault] at leaves
      obtain rfl := Next.leave.inj leaves
      cases collected
    · rw [fault] at goes
      cases goes
  · have step : (Reader.again l msgSize message).step code contents (.got data) =
        Reader.afterBody code (l + data.length) msgSize (message.store l.toNat data) :=
      if_neg outside
    exact drive_afterBody step driven exact_frame

/-- **A reader that has lost its place collects nothing more.** -/
theorem not_exact_of_spoiled {l msgSize : ℤ} (spoiled : Spoiled l position) (below : l < frame.size)
    (driven : drive code contents (.again l msgSize message) position answers = some outcome) :
    ¬ outcome.Exact frame := by
  intro exact_frame
  induction answers generalizing l position outcome message with
  | nil => cases driven
  | cons answer answers ih =>
      cases answer with
      | notYet =>
          rcases drive_afterBody rfl driven exact_frame with complete | ⟨tail, driven, exact_rest⟩
          · omega
          · refine ih ?_ (by omega) driven exact_rest
            rcases spoiled with behind | short
            · exact .inl (by change l - 1 + 4 < ((position + 0 : ℕ) : ℤ); omega)
            · exact .inr ⟨by omega, short.2⟩
      | got data =>
          by_cases empty : data = []
          · subst empty
            have step : (Reader.again l msgSize message).step code contents (.got []) =
                Reader.afterBody code l msgSize message := by
              simp [Reader.step]
            rcases drive_afterBody step driven exact_frame with complete | ⟨tail, driven, exact_rest⟩
            · omega
            · exact ih spoiled below driven exact_rest
          · obtain ⟨⟨nonneg, own, -⟩, -⟩ := drive_piece empty driven exact_frame
            rcases spoiled with behind | ⟨nonpos, short⟩
            · omega
            · omega

/-- A body that is read in place is plain. -/
theorem plainBody_of_exact {l : ℕ} (below : l < frame.size)
    (driven : drive code contents (.again l frame.size message) (l + 4) answers = some outcome)
    (exact_frame : outcome.Exact frame) : PlainBody (frame.size - l) answers := by
  induction answers generalizing l outcome message with
  | nil => cases driven
  | cons answer answers ih =>
      obtain ⟨missing, left⟩ : ∃ missing, frame.size - l = missing + 1 :=
        Nat.exists_eq_succ_of_ne_zero (by omega)
      rw [left]
      cases answer with
      | notYet =>
          rcases drive_afterBody rfl driven exact_frame with complete | ⟨tail, driven, exact_rest⟩
          · omega
          · refine absurd exact_rest (not_exact_of_spoiled ?_ (by omega) driven)
            exact .inl (by change (l : ℤ) - 1 + 4 < ((l + 4 + 0 : ℕ) : ℤ); omega)
      | got data =>
          have some_data : data ≠ [] := by
            rintro rfl
            have size : (frame.size : ℤ) = 0 := (drive_cons_eq_some.mp driven).1.2 rfl
            omega
          obtain ⟨⟨-, -, fits⟩, onward⟩ := drive_piece some_data driven exact_frame
          refine ⟨some_data, by omega, ?_⟩
          by_cases complete : l + data.length = frame.size
          · rw [show missing + 1 - data.length = 0 by omega]
            exact plainBody_zero answers
          · rcases onward with whole | ⟨tail, driven, exact_rest⟩
            · omega
            · have next : drive code contents (.again (l + data.length : ℕ) frame.size
                  (message.store l data)) (l + data.length + 4) answers = some tail := by
                rwa [Nat.cast_add, Nat.add_right_comm]
              rw [show missing + 1 - data.length = frame.size - (l + data.length) by omega]
              exact ih (by omega) next exact_rest

/-- Bytes of a prefix end a reader only with a fault. -/
theorem prefix_leaves {data : Bytes} (some_data : data ≠ []) {reply : Reply}
    (leaves : Reader.step code contents .againRead (.got data) = .leave reply) :
    reply = .fault .badAllocation := by
  rw [Reader.step_data some_data] at leaves
  split at leaves
  · cases leaves
  · exact (Next.leave.inj leaves).symm

/-- Otherwise the body is read. -/
theorem prefix_goes {data : Bytes} (some_data : data ≠ []) {next : Reader}
    (goes : Reader.step code contents .againRead (.got data) = .again next) :
    next = .again 0 (Reader.sizeOf data) (Reader.cleared contents (Reader.sizeOf data)) := by
  rw [Reader.step_data some_data] at goes
  split at goes
  · exact (Next.again.inj goes).symm
  · cases goes

/-- A frame that is read exactly came under a plain schedule. -/
theorem plainSchedule_of_readsFrame (exactly : ReadsFrame code contents frame answers)
    (delivers : answers.flatMap ReadAnswer.data ++ undelivered = frame.encode ++ rest) :
    PlainSchedule frame.size answers := by
  obtain ⟨outcome, driven, exact_frame⟩ := exactly
  induction answers generalizing outcome with
  | nil => cases driven
  | cons answer answers ih =>
      obtain ⟨allowed, onward⟩ := drive_cons_eq_some.mp driven
      cases answer with
      | notYet =>
          rcases onward with ⟨reply, leaves, -⟩ | ⟨next, tail, goes, driven, rfl⟩
          · cases leaves
          · obtain rfl := Next.again.inj goes
            exact ih delivers tail driven (Outcome.exact_behind.mp exact_frame).2
      | got data =>
          have some_data : data ≠ [] := by
            rintro rfl
            exact absurd (allowed.2 rfl) (by decide)
          have fits : (data.length : ℤ) ≤ 4 := allowed.1
          rcases onward with ⟨reply, leaves, rfl⟩ | ⟨next, tail, goes, driven, rfl⟩
          · obtain rfl := prefix_leaves some_data leaves
            obtain ⟨_, _, collected, -⟩ := exact_frame.collected
            cases collected
          · obtain rfl := prefix_goes some_data goes
            have exact_rest := (Outcome.exact_behind.mp exact_frame).2
            have size_pos := frame.four_le_size
            rw [Nat.zero_add] at driven
            by_cases four : data.length = 4
            · rw [List.flatMap_cons, List.append_assoc] at delivers
              obtain ⟨rfl, -⟩ : data = bigEndian 4 frame.size ∧ _ :=
                prefix_of_delivers four delivers
              have bound := frame.size_lt
              rw [Reader.sizeOf_bigEndian (by omega)] at driven
              have body : drive code contents (.again (0 : ℕ) frame.size
                  (Reader.cleared contents frame.size)) (0 + 4) answers = some tail := by
                rwa [show (ReadAnswer.got (bigEndian 4 frame.size)).data.length = 0 + 4 from four]
                  at driven
              exact ⟨four, plainBody_of_exact (by omega) body exact_rest⟩
            · refine absurd exact_rest (not_exact_of_spoiled ?_ (by omega) driven)
              exact .inr ⟨le_refl _, by change data.length < 4; omega⟩

/-- **A frame is read exactly under plain schedules, and under no others.** -/
theorem readsFrame_iff (reads : code.ReadsOn)
    (delivers : answers.flatMap ReadAnswer.data ++ undelivered = frame.encode ++ rest) :
    ReadsFrame code contents frame answers ↔ PlainSchedule frame.size answers :=
  ⟨fun exactly => plainSchedule_of_readsFrame exactly delivers,
    fun plain => drive_plainSchedule reads plain delivers⟩

end Drive

end PhpNsq
