import PhpNsq.Publisher.ReplyMemory
import PhpNsq.Subscriber.Delivery

/-!
# What the two clients take a frame for

The subscriber looks at the type of a frame and at its size: a frame of type 0 and size 15 is
answered with `NOP`, whatever its data is. The publisher compares the data with `strcmp` and
does not look at the type: data with a NUL behind the literal is taken for the literal.

`Classified` is that both find what the frame is. `classified_iff` lists the frames for which
one of them does not.
-/

set_option autoImplicit false

namespace PhpNsq

open Foundations

namespace RawFrame

variable (frame : RawFrame)

/-- A heartbeat of nsqd. -/
def IsHeartbeat : Prop := frame.frameType = 0 ∧ frame.data = ascii "_heartbeat_"

/-- The response `OK`. -/
def IsOK : Prop := frame.frameType = 0 ∧ frame.data = ascii "OK"

end RawFrame

/-! ## The subscriber -/

namespace ReadState

/-- The next pass of `readcb` takes the whole of a frame: it is at the size prefix, or has
some of the payload, and the rest has come. -/
def Takes (s : ReadState) (frame : RawFrame) : Prop :=
  (s.isFirst = true ∧ s.l = 0 ∧ ∃ rest, s.input = frame.encode ++ rest) ∨
    (s.isFirst = false ∧ ∃ k rest, k ≤ frame.size ∧ s.Holding frame.payload k ∧
      s.input = frame.payload.drop k ++ rest)

/-- The pass of `readcb` that takes the frame answers with `NOP`. -/
def AnswersNop (malloc : Malloc) (memory : Memory) (s : ReadState) : Prop :=
  ∃ t, Yields (s.pass malloc memory) t ∧ t.log = s.log ++ [nop]

variable {malloc : Malloc} {memory : Memory} {s : ReadState} {frame : RawFrame}

/-- The prefix of a frame opens its buffer. -/
theorem openBuffer_frame (memory : Memory) (ready : s.l = 0) {rest : Bytes}
    (input : s.input = bigEndian 4 frame.size ++ rest) :
    s.openBuffer memory = .ok (s.withPrefix memory frame.size) ∧
      (s.withPrefix memory frame.size).Holding frame.payload 0 ∧
      (s.withPrefix memory frame.size).input = rest := by
  have bound := frame.size_lt
  have some_input : s.input ≠ [] := by
    intro empty
    have lengths := congrArg List.length (input.symm.trans empty)
    simp at lengths
  have size : prefixSize s.input = frame.size := by
    rw [input, prefixSize, List.take_left' (length_bigEndian ..)]
    exact Reader.sizeOf_bigEndian (by omega)
  have fits : ¬ ((frame.size : ℤ) < 0 ∨ (frame.size : ℤ) = intMax) := by
    rw [intMax]
    omega
  refine ⟨?_, ⟨ready, ?_, ?_, by simp⟩, ?_⟩
  · rw [openBuffer_withPrefix memory some_input size, if_neg fits]
  · rw [frame.length_payload]
    rfl
  · rw [frame.length_payload]
    rfl
  · simp only [withPrefix, input]
    exact List.drop_left' (length_bigEndian ..)

/-- The rest of a payload completes it. -/
theorem Holding.collect {k : ℕ} (holding : s.Holding frame.payload k) (within : k ≤ frame.size)
    {rest : Bytes} (input : s.input = frame.payload.drop k ++ rest) :
    ∃ read : ReadState, s.collect malloc = read.dispatch malloc ∧
      read.Holding frame.payload frame.size ∧ read.log = s.log := by
  obtain ⟨-, read, whole, -⟩ := readBody_holding holding input (List.append_nil _).symm
    (by rwa [frame.length_payload]) (.inl rfl)
  have length : k + (frame.payload.drop k).length = frame.size := by
    rw [List.length_drop, frame.length_payload]
    omega
  rw [length] at whole
  have complete := whole.l.trans (congrArg Nat.cast frame.length_payload.symm) |>.trans
    whole.size.symm
  refine ⟨_, ?_, whole, rfl⟩
  rw [collect_of_readBody read, if_neg (by omega), if_pos complete]

/-- The frame is dispatched with all of its payload. -/
theorem Takes.pass (takes : s.Takes frame) :
    ∃ read : ReadState, s.pass malloc memory = read.dispatch malloc ∧
      read.Holding frame.payload frame.size ∧ read.log = s.log := by
  rcases takes with ⟨first, ready, rest, input⟩ | ⟨middle, k, rest, within, holding, input⟩
  · rw [RawFrame.encode, List.append_assoc] at input
    obtain ⟨opened, holding, left⟩ := openBuffer_frame memory ready input
    rw [pass_of_openBuffer first opened]
    exact holding.collect (Nat.zero_le _) left
  · rw [pass_of_not_first middle]
    exact holding.collect within input

/-- Only type 0 is read as zero. -/
theorem readI32_eq_zero_iff (holding : s.Holding frame.payload frame.size) :
    readI32 s.message = 0 ↔ frame.frameType = 0 := by
  have whole : s.message.slice 0 frame.size = bigEndian 4 frame.frameType.toNat ++ frame.data := by
    rw [holding.collected, List.take_of_length_le frame.length_payload.le, RawFrame.payload]
  have first : s.message.slice 0 4 = bigEndian 4 frame.frameType.toNat :=
    Cells.slice_of_append (whole.trans (List.nil_append _).symm) rfl (length_bigEndian ..)
  have bound := frame.frameType.toNat_lt
  rw [readI32_eq, first, ofBigEndian_bigEndian_of_lt bound, ← UInt32.toNat_inj, UInt32.toNat_zero]
  generalize frame.frameType.toNat = n at bound
  rw [Int.bmod_def]
  omega

/-- A response is answered when its size is 15. -/
theorem dispatchResponse_nop :
    (∃ t, Yields s.dispatchResponse t ∧ t.log = s.log ++ [nop]) ↔ s.msg.size = 15 := by
  by_cases beat : s.msg.size = 15
  · have nonzero : s.msg.size ≠ 0 := by omega
    simp only [dispatchResponse, if_pos beat, if_pos nonzero, yields_again]
    exact iff_of_true ⟨_, rfl, rfl⟩ beat
  · refine iff_of_false ?_ beat
    rintro ⟨t, yields, answered⟩
    have silent : t.log = s.log := by
      simp only [dispatchResponse, if_neg beat] at yields
      split at yields
      · exact (yields_again.mp yields) ▸ rfl
      · exact (yields_ok.mp yields) ▸ rfl
    simp [silent] at answered

/-- A message is queued, or nothing is done. -/
theorem dispatchMessage_log {t : ReadState} (yields : Yields (s.dispatchMessage malloc) t) :
    t.log = s.log ∨ ∃ message, t.log = s.log ++ [.enqueued message] := by
  rw [dispatchMessage] at yields
  split at yields
  · exact .inl ((yields_again.mp yields) ▸ rfl)
  · simp only at yields
    split at yields
    · exact .inl ((yields_again.mp yields) ▸ rfl)
    · split at yields
      · exact absurd yields not_yields_error
      · split at yields
        · exact absurd yields not_yields_error
        · obtain rfl := yields_again.mp yields
          dsimp only
          split
          · exact .inr ⟨_, rfl⟩
          · exact .inl rfl

/-- **A dispatched frame is answered** exactly when it has type 0 and size 15. -/
theorem dispatchOn_nop {frameType : ℤ} :
    (∃ t, Yields (s.dispatchOn malloc frameType) t ∧ t.log = s.log ++ [nop]) ↔
      frameType = 0 ∧ s.msg.size = 15 := by
  by_cases response : frameType = 0
  · rw [and_iff_right response, dispatchOn, if_pos response]
    exact dispatchResponse_nop (s := s.noteType frameType)
  · refine iff_of_false ?_ fun both => response both.1
    rintro ⟨t, yields, answered⟩
    rw [dispatchOn, if_neg response] at yields
    by_cases business : frameType = 2
    · rw [if_pos business] at yields
      rcases dispatchMessage_log (s := s.noteType frameType) yields with same | ⟨message, queued⟩
      · exact absurd (same.symm.trans answered) (by simp [noteType])
      · exact absurd (queued.symm.trans answered) (by simp [noteType, nop])
    · have silent : t.log = s.log := by
        rw [if_neg business] at yields
        split at yields
        · exact (yields_ok.mp yields) ▸ rfl
        · exact (yields_again.mp yields) ▸ rfl
      simp [silent] at answered

/-- **The subscriber answers** the frames of type 0 with eleven bytes of data. -/
theorem answersNop_iff (takes : s.Takes frame) :
    AnswersNop malloc memory s ↔ frame.frameType = 0 ∧ frame.data.length = 11 := by
  obtain ⟨read, pass, holding, log⟩ : ∃ read : ReadState,
      s.pass malloc memory = read.dispatch malloc ∧ _ := takes.pass
  have size : read.msg.size = 15 ↔ frame.data.length = 11 := by
    rw [holding.size, frame.length_payload, RawFrame.size]
    omega
  rw [AnswersNop, pass, ← log, dispatch, dispatchOn_nop, readI32_eq_zero_iff holding, size]

end ReadState

/-! ## The publisher -/

section Publisher

variable {frame : RawFrame} {contents : Cells UInt8}

/-- With a zero behind the data, `strcmp` finds the literal where the data is the literal, or
goes on behind it with a NUL. -/
theorem readsAs_iff {literal : Bytes} (zero : contents frame.size = 0)
    (free : (0 : UInt8) ∉ literal) :
    ReadsAs literal frame contents ↔ frame.data = literal ∨ literal ++ [0] <+: frame.data := by
  rw [ReadsAs, Cells.slice_succ, zero]
  constructor
  · intro reads
    by_cases long : literal.length < frame.data.length
    · exact .inr (List.prefix_of_prefix_length_le reads (List.prefix_append ..)
        (by rw [List.length_append, List.length_singleton]; omega))
    · -- the terminator of the literal is the zero behind the data
      have behind : frame.data ++ [0] <+: frame.data ++
          0 :: contents.slice (frame.size + 1) literal.length := by
        rw [List.prefix_append_right_inj, List.cons_prefix_cons]
        exact ⟨rfl, List.nil_prefix⟩
      have within : frame.data ++ [0] <+: literal ++ [0] :=
        List.prefix_of_prefix_length_le behind reads
          (by rw [List.length_append, List.length_append]; omega)
      rcases List.prefix_concat_iff.mp within with same | early
      · exact .inl (List.append_cancel_right same)
      · exact absurd (early.subset (List.mem_append_right _ (List.mem_singleton_self _))) free
  · rintro (same | inside)
    · rw [same, List.prefix_append_right_inj, List.cons_prefix_cons]
      exact ⟨rfl, List.nil_prefix⟩
    · exact inside.trans (List.prefix_append ..)

end Publisher

/-! ## Both -/

/-- **The frame is classified correctly**: the subscriber answers exactly a heartbeat, a call of
`publish` or `deferredPublish` answers and reads on for exactly a heartbeat, and reports success
for exactly an `OK`. -/
structure Classified (malloc : Malloc) (memory : Memory) (r : ReadState) (sock : ℤ)
    (fresh : ℕ → Cells UInt8) (s : PubState) (incoming : Incoming) : Prop where
  subscriber : r.AnswersNop malloc memory ↔ incoming.frame.IsHeartbeat
  publisher : s.hear sock fresh [incoming] = some (s.beaten incoming) ↔ incoming.frame.IsHeartbeat
  success : s.hear sock fresh [incoming] = some (s.ended incoming sock) ↔ incoming.frame.IsOK

/-- What a frame has to be for that: data of eleven bytes in a frame of type 0 is a heartbeat, the
literals come in frames of type 0 only, and no data goes on behind one of them with a NUL. -/
structure RawFrame.Plain (frame : RawFrame) : Prop where
  eleven : frame.frameType = 0 → frame.data.length = 11 → frame.data = ascii "_heartbeat_"
  typed : frame.frameType ≠ 0 → frame.data ≠ ascii "_heartbeat_" ∧ frame.data ≠ ascii "OK"
  heartbeat : ¬ ascii "_heartbeat_" ++ [0] <+: frame.data
  ok : ¬ ascii "OK" ++ [0] <+: frame.data

section Both

variable {malloc : Malloc} {memory : Memory} {r : ReadState} {sock : ℤ} {fresh : ℕ → Cells UInt8}
  {s : PubState} {request : Request} {incoming : Incoming}

theorem length_heartbeat : (ascii "_heartbeat_").length = 11 := by decide

/-- A literal does not go on behind itself. -/
theorem not_literal_nul (literal : Bytes) : ¬ literal ++ [0] <+: literal := by
  intro inside
  have lengths := inside.length_le
  rw [List.length_append, List.length_singleton] at lengths
  omega

/-- A call answers the frames that read as a heartbeat. -/
theorem hear_eq_beaten_iff (waiting : s.point = .reading request .againRead) :
    s.hear sock fresh [incoming] = some (s.beaten incoming) ↔
      ReadsHeartbeat incoming.frame (fresh s.buffers) :=
  ⟨PubState.readsHeartbeat_of_hear waiting, PubState.hear_of_heartbeat waiting⟩

/-- It reports success for those that read as `OK`. -/
theorem hear_eq_ended_iff (open_sock : 0 < sock) (waiting : s.point = .reading request .againRead) :
    s.hear sock fresh [incoming] = some (s.ended incoming sock) ↔
      ReadsOK incoming.frame (fresh s.buffers) :=
  ⟨PubState.readsOK_of_hear open_sock waiting, PubState.hear_of_ok waiting⟩

/-- **The two clients classify a frame alike and correctly** exactly when it is plain. -/
theorem classified_iff (takes : r.Takes incoming.frame) (open_sock : 0 < sock)
    (waiting : s.point = .reading request .againRead)
    (zero : fresh s.buffers incoming.frame.size = 0) :
    Classified malloc memory r sock fresh s incoming ↔ incoming.frame.Plain := by
  have subscriber : r.AnswersNop malloc memory ↔ _ := ReadState.answersNop_iff takes
  have answered : s.hear sock fresh [incoming] = some (s.beaten incoming) ↔ _ :=
    hear_eq_beaten_iff waiting
  have publisher := answered.trans (readsAs_iff zero (by decide))
  have success := (hear_eq_ended_iff open_sock waiting).trans (readsAs_iff zero (by decide))
  constructor
  · rintro ⟨nop, beat, ok⟩
    constructor
    · exact fun response length => (nop.mp (subscriber.mpr ⟨response, length⟩)).2
    · intro other
      exact ⟨fun data => other (beat.mp (publisher.mpr (.inl data))).1,
        fun data => other (ok.mp (success.mpr (.inl data))).1⟩
    · intro inside
      have data := (beat.mp (publisher.mpr (.inr inside))).2
      exact not_literal_nul _ (data ▸ inside)
    · intro inside
      have data := (ok.mp (success.mpr (.inr inside))).2
      exact not_literal_nul _ (data ▸ inside)
  · rintro ⟨eleven, typed, no_heartbeat, no_ok⟩
    constructor
    · rw [subscriber]
      constructor
      · exact fun both => ⟨both.1, eleven both.1 both.2⟩
      · exact fun beat => ⟨beat.1, beat.2 ▸ length_heartbeat⟩
    · rw [publisher, or_iff_left no_heartbeat]
      exact ⟨fun data => ⟨by_contra fun other => (typed other).1 data, data⟩, And.right⟩
    · rw [success, or_iff_left no_ok]
      exact ⟨fun data => ⟨by_contra fun other => (typed other).2 data, data⟩, And.right⟩

end Both

/-- The subscriber at the prefix of a frame. -/
def frameArrived (frame : RawFrame) : ReadState := (ReadState.initial settings).receive frame.encode

theorem frameArrived_takes (frame : RawFrame) : (frameArrived frame).Takes frame :=
  .inl ⟨rfl, rfl, [], (List.append_nil _).symm⟩

/-- An `OK` is one to both. -/
theorem classified_iff_ok :
    Classified granted zeroMemory (frameArrived okReply.frame) 5 (fun _ _ => 0) publishSent
      okIncoming := by
  have iff : Classified granted zeroMemory (frameArrived okReply.frame) 5 (fun _ _ => 0) publishSent
      okIncoming ↔ _ := classified_iff (frameArrived_takes okReply.frame)
        (show (0 : ℤ) < 5 by decide) (show publishSent.point = _ from rfl) rfl
  have plain : okReply.frame.Plain := ⟨by decide, by decide, by decide, by decide⟩
  exact iff.mpr plain

theorem hello_fits : (ascii "hello world").length + 4 < 2 ^ 31 - 1 := by decide

/-- Another response with eleven bytes of data. -/
def helloReply : Incoming := ⟨⟨0, 0, ascii "hello world", hello_fits⟩, 4, heartbeatAnswer_bounds⟩

/-- **It is answered by the subscriber**, and refused by the publisher. -/
theorem not_classified_hello :
    ¬ Classified granted zeroMemory (frameArrived helloReply.frame) 5 (fun _ _ => 0) publishSent
      helloReply := by
  rintro ⟨subscriber, -, -⟩
  have answered : (frameArrived helloReply.frame).AnswersNop granted zeroMemory :=
    (ReadState.answersNop_iff (frameArrived_takes helloReply.frame)).mpr ⟨rfl, by decide⟩
  exact absurd (subscriber.mp answered).2 (by decide)

end PhpNsq
