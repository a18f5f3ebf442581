import PhpNsq.Frames
import PhpNsq.Subscriber.Readcb

/-!
# What one pass of readcb does with a frame

`Collecting` is the resumption invariant of the parser: the buffer holds the first
bytes of a frame's payload, and `l`, `msg->size` and the buffer's room agree with it.
`Tracks` puts it together with `is_first`: between two passes the parser is either
ready for a size prefix or in the middle of a frame.

A pass is followed along the source: the buffer is opened (`pass_prefix`), the
body is read as far as it has arrived (`collect_partial`, `collect_whole`), and a
complete frame is dispatched (`dispatch_frame`, `dispatch_error`). A pass with nothing
to read decides on the contents of a buffer that was never written (`pass_drained`).

`Processed` is the account of what the frames so far did: the effects, the
queue and the number of messages whose memory was asked for.
-/

set_option autoImplicit false

namespace PhpNsq

open Foundations

/-! ## What frames are meant to do -/

/-- The queue entry for a message. -/
def Message.pending (message : Message) (msg : NSQMsg) : PendingMessage :=
  pendingMessage message.id.toList message.body message.body.length message.timestamp
    message.attempts msg.delayTime msg.autoFinish

/-- The answer to a heartbeat. -/
def nop : Effect := .buffered .extension (ascii "NOP\n")

namespace Frame

/-- The effects of a frame: a queue entry, a heartbeat answer, or none. -/
def effects (msg : NSQMsg) : Frame → List Effect
  | .response data _ => if data.length + 4 = 15 then [nop] else []
  | .error _ _ => []
  | .message content _ => [.enqueued (content.pending msg)]

/-- The number of messages whose memory a frame asks for. -/
def messages : Frame → ℕ
  | .message _ _ => 1
  | _ => 0

/-- The effects of a frame under given outcomes of `malloc`. -/
def effectsUnder (malloc : Malloc) (msg : NSQMsg) (index : ℕ) : Frame → List Effect
  | .message content _ => if (malloc index).all = true then [.enqueued (content.pending msg)] else []
  | frame => frame.effects msg

end Frame

/-- The number of messages in a sequence of frames. -/
def messageCount (frames : List Frame) : ℕ := (frames.map Frame.messages).sum

/-- The effects of a sequence of frames, the messages numbered from an index on. -/
def effectsFrom (malloc : Malloc) (msg : NSQMsg) : ℕ → List Frame → List Effect
  | _, [] => []
  | index, frame :: frames =>
      frame.effectsUnder malloc msg index ++ effectsFrom malloc msg (index + frame.messages) frames

/-- The queue entries among some effects. -/
def enqueuedIn (effects : List Effect) : List PendingMessage :=
  effects.filterMap fun
    | .enqueued message => some message
    | _ => none

section Effects

variable {malloc : Malloc} {msg : NSQMsg} {index : ℕ}

@[simp] theorem messageCount_nil : messageCount [] = 0 := rfl

@[simp] theorem messageCount_cons (frame : Frame) (frames : List Frame) :
    messageCount (frame :: frames) = frame.messages + messageCount frames := rfl

@[simp] theorem messageCount_append (first second : List Frame) :
    messageCount (first ++ second) = messageCount first + messageCount second := by
  simp [messageCount]

@[simp] theorem effectsFrom_nil : effectsFrom malloc msg index [] = [] := rfl

@[simp] theorem effectsFrom_cons (frame : Frame) (frames : List Frame) :
    effectsFrom malloc msg index (frame :: frames) =
      frame.effectsUnder malloc msg index ++
        effectsFrom malloc msg (index + frame.messages) frames := rfl

theorem effectsFrom_append (first second : List Frame) :
    effectsFrom malloc msg index (first ++ second) = effectsFrom malloc msg index first ++
      effectsFrom malloc msg (index + messageCount first) second := by
  induction first generalizing index with
  | nil => simp
  | cons frame first ih => simp [ih, Nat.add_assoc]

@[simp] theorem enqueuedIn_nil : enqueuedIn [] = [] := rfl

@[simp] theorem enqueuedIn_append (first second : List Effect) :
    enqueuedIn (first ++ second) = enqueuedIn first ++ enqueuedIn second :=
  List.filterMap_append

/-- Effects depend on the settings of the consumer only. -/
theorem Frame.effectsUnder_congr {other : NSQMsg} (delayTime : msg.delayTime = other.delayTime)
    (autoFinish : msg.autoFinish = other.autoFinish) (frame : Frame) :
    frame.effectsUnder malloc msg index = frame.effectsUnder malloc other index := by
  cases frame with
  | response data fits => rfl
  | error data fits => rfl
  | message content fits =>
      simp only [Frame.effectsUnder, Message.pending, delayTime, autoFinish]

end Effects

/-! ## The states between passes -/

/-- The fields of `NSQMsg` that the parser does not write. -/
def NSQMsg.settings (msg : NSQMsg) : NSQMsg := { msg with frameType := 0, size := 0 }

theorem NSQMsg.settings_update (msg : NSQMsg) (frameType size : ℤ) :
    ({ msg with frameType := frameType, size := size } : NSQMsg).settings = msg.settings := rfl

theorem NSQMsg.delayTime_of_settings {msg other : NSQMsg} (same : msg.settings = other.settings) :
    msg.delayTime = other.delayTime := by
  have field := congrArg NSQMsg.delayTime same
  exact field

theorem NSQMsg.rdy_of_settings {msg other : NSQMsg} (same : msg.settings = other.settings) :
    msg.rdy = other.rdy := by
  have field := congrArg NSQMsg.rdy same
  exact field

theorem NSQMsg.autoFinish_of_settings {msg other : NSQMsg} (same : msg.settings = other.settings) :
    msg.autoFinish = other.autoFinish := by
  have field := congrArg NSQMsg.autoFinish same
  exact field

namespace ReadState

/-- The buffer holds the first `k` bytes of the payload. -/
structure Collecting (s : ReadState) (frame : Frame) (k : ℕ) : Prop where
  l : s.l = k
  size : s.msg.size = frame.size
  room : s.room = frame.size + 1
  collected : s.message.slice 0 k = frame.payload.take k

/-- The buffer holds the first `k` bytes of a body, whatever they stand for. -/
structure Holding (s : ReadState) (body : Bytes) (k : ℕ) : Prop where
  l : s.l = k
  size : s.msg.size = body.length
  room : s.room = body.length + 1
  collected : s.message.slice 0 k = body.take k

/-- Where the parser is: ready for a size prefix, or `k` bytes into a payload. -/
def Tracks (s : ReadState) : Option (Frame × ℕ) → Prop
  | none => s.isFirst = true ∧ s.l = 0
  | some (frame, k) => s.isFirst = false ∧ k < frame.size ∧ s.Collecting frame k

/-- Reading has no effects. -/
structure Untouched (s t : ReadState) : Prop where
  log : t.log = s.log
  queue : t.queue = s.queue
  dispatched : t.dispatched = s.dispatched
  settings : t.msg.settings = s.msg.settings

/-- The frames were processed since `start`, whose queue held the messages `old`. -/
structure Processed (malloc : Malloc) (start : ReadState) (old : List PendingMessage)
    (frames : List Frame) (s : ReadState) : Prop where
  log : s.log = start.log ++ effectsFrom malloc start.msg start.dispatched frames
  queue : s.queue.Holds (old ++ enqueuedIn (effectsFrom malloc start.msg start.dispatched frames))
  dispatched : s.dispatched = start.dispatched + messageCount frames
  settings : s.msg.settings = start.msg.settings

variable {malloc : Malloc} {memory : Memory} {s t start : ReadState} {frame : Frame} {k : ℕ}
  {old : List PendingMessage} {frames : List Frame}

@[refl] theorem Untouched.refl (s : ReadState) : Untouched s s := ⟨rfl, rfl, rfl, rfl⟩

theorem Untouched.trans {u : ReadState} (first : Untouched s t) (second : Untouched t u) :
    Untouched s u where
  log := second.log.trans first.log
  queue := second.queue.trans first.queue
  dispatched := second.dispatched.trans first.dispatched
  settings := second.settings.trans first.settings

theorem Processed.initial (holds : start.queue.Holds old) :
    Processed malloc start old [] start where
  log := (List.append_nil _).symm
  queue := by simpa using holds
  dispatched := rfl
  settings := rfl

theorem Processed.untouched (processed : Processed malloc start old frames s)
    (same : Untouched s t) : Processed malloc start old frames t where
  log := same.log.trans processed.log
  queue := same.queue ▸ processed.queue
  dispatched := same.dispatched.trans processed.dispatched
  settings := same.settings.trans processed.settings

/-! ## Reading -/


/-- The size that is read from what has arrived of a prefix: missing bytes count as zero. -/
def prefixSize (input : Bytes) : ℤ := readI32 (Cells.store (fun _ => 0) 0 (input.take 4))

/-- The state with a buffer of this size opened for a prefix. -/
def withPrefix (s : ReadState) (memory : Memory) (size : ℤ) : ReadState :=
  { s with
    message := (memory.opened s.opened).store 0 (List.replicate size.toNat 0)
    room := size.toNat + 1
    msg := { s.msg with size := size }
    input := s.input.drop 4
    opened := s.opened + 1 }

theorem Untouched.withPrefix (s : ReadState) (memory : Memory) (size : ℤ) :
    Untouched s (s.withPrefix memory size) := ⟨rfl, rfl, rfl, rfl⟩

/-- What a read of four bytes takes, and what it leaves. -/
theorem take_available (s : ReadState) : s.input.take (s.available 4) = s.input.take 4 := by
  rw [available, if_neg (by omega)]
  exact List.take_eq_take_iff.mpr (by omega)

theorem drop_available (s : ReadState) : s.input.drop (s.available 4) = s.input.drop 4 := by
  rw [available, if_neg (by omega)]
  exact List.drop_eq_drop_iff.mpr (by omega)

theorem openBuffer_withPrefix (memory : Memory) (some_input : s.input ≠ []) {size : ℤ}
    (read : prefixSize s.input = size) :
    s.openBuffer memory = if size < 0 ∨ size = intMax then .error .badAllocation
      else .ok (s.withPrefix memory size) := by
  rw [prefixSize] at read
  rw [openBuffer, take_available, drop_available, read]
  simp only [if_neg some_input]
  rfl

/-- A whole prefix gives its size. -/
theorem prefixSize_whole (frame : Frame) (rest : Bytes) :
    prefixSize (bigEndian 4 frame.size ++ rest) = frame.size := by
  have bound := frame.size_lt
  have stored : (Cells.store (fun _ => (0 : UInt8)) 0 (bigEndian 4 frame.size)).slice 0 4 =
      bigEndian 4 frame.size := by
    have self := Cells.slice_store_self (fun _ => (0 : UInt8)) 0 (bigEndian 4 frame.size)
    rwa [length_bigEndian] at self
  rw [prefixSize, List.take_left' (length_bigEndian ..)]
  exact readI32_of_slice stored (by omega)

/-- A whole size prefix opens the buffer for its frame. -/
theorem openBuffer_prefix (memory : Memory) (ready : s.l = 0) {rest : Bytes}
    (input : s.input = bigEndian 4 frame.size ++ rest) :
    ∃ opened, s.openBuffer memory = .ok opened ∧ opened.Collecting frame 0 ∧
      opened.input = rest ∧ opened.isFirst = s.isFirst ∧ opened.drained = s.drained ∧
      Untouched s opened := by
  have some_input : s.input ≠ [] := by
    intro empty
    have lengths := congrArg List.length (input.symm.trans empty)
    simp at lengths
  have size : prefixSize s.input = frame.size := by rw [input, prefixSize_whole]
  have bound := frame.size_lt
  have fits : ¬ ((frame.size : ℤ) < 0 ∨ (frame.size : ℤ) = intMax) := by
    rw [intMax]
    omega
  refine ⟨s.withPrefix memory frame.size, ?_, ⟨ready, rfl, rfl, by simp⟩, ?_, rfl, rfl,
    .withPrefix s memory _⟩
  · rw [openBuffer_withPrefix memory some_input size, if_neg fits]
  · simp only [withPrefix, input]
    exact List.drop_left' (length_bigEndian ..)

/-- The state with this many bytes of the input read into the buffer. -/
def takeBody (s : ReadState) (count : ℕ) : ReadState :=
  { s with
    message := s.message.store s.l.toNat (s.input.take count)
    l := s.l + count
    input := s.input.drop count }

theorem readBody_takeBody {count : ℕ} (available : s.available (s.msg.size - s.l) = count)
    (positive : 0 ≤ s.l) (inside : s.l + count ≤ s.room) :
    s.readBody = .ok (s.takeBody count) := by
  have no_overflow : ¬ (count ≠ 0 ∧ (s.l < 0 ∨ (s.room : ℤ) < s.l + count)) := by omega
  simp only [readBody, takeBody, available, if_neg no_overflow]

theorem Untouched.takeBody (s : ReadState) (count : ℕ) : Untouched s (s.takeBody count) :=
  ⟨rfl, rfl, rfl, rfl⟩

/-- The body read takes what has arrived of the body, and no more. -/
theorem readBody_holding {body : Bytes} (holding : s.Holding body k) {piece later rest : Bytes}
    (input : s.input = piece ++ rest) (payload : body.drop k = piece ++ later)
    (within : k ≤ body.length) (complete : later = [] ∨ rest = []) :
    s.available (s.msg.size - s.l) = piece.length ∧
      s.readBody = .ok (s.takeBody piece.length) ∧
      (s.takeBody piece.length).Holding body (k + piece.length) ∧
      (s.takeBody piece.length).input = rest := by
  have total := congrArg List.length payload
  rw [List.length_drop, List.length_append] at total
  have count : s.available (s.msg.size - s.l) = piece.length := by
    have lengths := congrArg List.length input
    rw [List.length_append] at lengths
    have missing : later.length = 0 ∨ rest.length = 0 :=
      complete.imp List.length_eq_zero_iff.mpr List.length_eq_zero_iff.mpr
    rw [holding.size, holding.l, available, if_neg (by omega)]
    omega
  have read : s.readBody = .ok (s.takeBody piece.length) := by
    apply readBody_takeBody count
    · rw [holding.l]
      omega
    · rw [holding.l, holding.room]
      omega
  have length : (body.take k).length = k := List.length_take_of_le within
  have taken : body.take (k + piece.length) = body.take k ++ piece := by
    rw [List.take_add, payload, List.take_left]
  refine ⟨count, read, ⟨?_, holding.size, holding.room, ?_⟩, ?_⟩
  · simp [takeBody, holding.l]
  · have sofar : s.message.slice 0 (body.take k).length = body.take k := by
      rw [length]
      exact holding.collected
    have appended := Cells.slice_store_append piece sofar
    rw [length] at appended
    simpa [takeBody, holding.l, input, taken] using appended
  · simp [takeBody, input]

/-- The same for the payload of a frame. -/
theorem Collecting.holding (collecting : s.Collecting frame k) : s.Holding frame.payload k where
  l := collecting.l
  size := by rw [collecting.size, frame.length_payload]
  room := by rw [collecting.room, frame.length_payload]
  collected := collecting.collected

theorem Holding.collecting (holding : s.Holding frame.payload k) : s.Collecting frame k where
  l := holding.l
  size := by rw [holding.size, frame.length_payload]
  room := by rw [holding.room, frame.length_payload]
  collected := holding.collected

theorem readBody_collecting (collecting : s.Collecting frame k) {piece later rest : Bytes}
    (input : s.input = piece ++ rest) (payload : frame.payload.drop k = piece ++ later)
    (within : k ≤ frame.size) (complete : later = [] ∨ rest = []) :
    ∃ read, s.readBody = .ok read ∧ read.Collecting frame (k + piece.length) ∧
      read.input = rest ∧ read.isFirst = s.isFirst ∧ read.drained = s.drained ∧
      Untouched s read := by
  obtain ⟨-, read, holding, left⟩ := readBody_holding collecting.holding input payload
    (by rwa [frame.length_payload]) complete
  exact ⟨_, read, holding.collecting, left, rfl, rfl, .takeBody s _⟩

/-- A pass that finds a size prefix opens the buffer and goes on to the body. -/
theorem pass_prefix (malloc : Malloc) (memory : Memory) (ready : s.Tracks none) {rest : Bytes}
    (input : s.input = bigEndian 4 frame.size ++ rest) :
    ∃ opened, s.pass malloc memory = opened.collect malloc ∧ opened.Collecting frame 0 ∧
      opened.input = rest ∧ opened.isFirst = true ∧ opened.drained = s.drained ∧
      Untouched s opened := by
  obtain ⟨opened, open_ok, collecting, left, first, drained, same⟩ :=
    openBuffer_prefix memory ready.2 input
  exact ⟨opened, pass_of_openBuffer ready.1 open_ok, collecting, left, first.trans ready.1,
    drained, same⟩

/-- A body that has not arrived completely leaves the loop. -/
theorem collect_partial (malloc : Malloc) (collecting : s.Collecting frame k) {later : Bytes}
    (payload : frame.payload.drop k = s.input ++ later) (more : later ≠ []) :
    ∃ left, s.collect malloc = .leave (.ok left) ∧
      left.Tracks (some (frame, k + s.input.length)) ∧ left.input = [] ∧ Untouched s left := by
  have total := congrArg List.length payload
  rw [List.length_drop, frame.length_payload, List.length_append] at total
  have missing : 0 < later.length := List.length_pos_iff.mpr more
  obtain ⟨read, body, collected, empty, -, -, same⟩ := readBody_collecting collecting
    (List.append_nil _).symm payload (by omega) (.inr rfl)
  have short : read.l < read.msg.size := by
    rw [collected.l, collected.size]
    omega
  refine ⟨{ read with isFirst := false }, ?_, ⟨rfl, by omega, ?_⟩, empty, ?_⟩
  · rw [collect_of_readBody body, if_pos short]
  · exact ⟨collected.l, collected.size, collected.room, collected.collected⟩
  · exact ⟨same.log, same.queue, same.dispatched, same.settings⟩

/-- A body that has arrived completely is dispatched. -/
theorem collect_whole (malloc : Malloc) (collecting : s.Collecting frame k)
    (within : k ≤ frame.size) {rest : Bytes} (input : s.input = frame.payload.drop k ++ rest) :
    ∃ read, s.collect malloc = read.dispatch malloc ∧ read.Collecting frame frame.size ∧
      read.input = rest ∧ read.isFirst = s.isFirst ∧ read.drained = s.drained ∧
      Untouched s read := by
  obtain ⟨read, body, collected, left, first, drained, same⟩ := readBody_collecting collecting
    input (List.append_nil _).symm within (.inl rfl)
  have length : k + (frame.payload.drop k).length = frame.size := by
    rw [List.length_drop, frame.length_payload]
    omega
  rw [length] at collected
  have whole : read.l = read.msg.size := by rw [collected.l, collected.size]
  refine ⟨read, ?_, collected, left, first, drained, same⟩
  rw [collect_of_readBody body, if_neg (by omega), if_pos whole]

/-! ## Dispatching -/

/-- One more frame in the account. -/
theorem Processed.snoc (processed : Processed malloc start old frames s)
    (log : t.log = s.log ++ frame.effectsUnder malloc s.msg s.dispatched)
    (queue : ∀ messages, s.queue.Holds messages →
      t.queue.Holds (messages ++ enqueuedIn (frame.effectsUnder malloc s.msg s.dispatched)))
    (dispatched : t.dispatched = s.dispatched + frame.messages)
    (settings : t.msg.settings = s.msg.settings) :
    Processed malloc start old (frames ++ [frame]) t := by
  have delayTime := NSQMsg.delayTime_of_settings processed.settings
  have autoFinish := NSQMsg.autoFinish_of_settings processed.settings
  have effects : frame.effectsUnder malloc s.msg s.dispatched = frame.effectsUnder malloc start.msg
      (start.dispatched + messageCount frames) := by
    rw [processed.dispatched]
    exact Frame.effectsUnder_congr delayTime autoFinish frame
  refine ⟨?_, ?_, ?_, settings.trans processed.settings⟩
  · rw [log, processed.log, effects, effectsFrom_append]
    simp
  · have more := queue _ processed.queue
    rw [effects] at more
    simpa [effectsFrom_append] using more
  · rw [dispatched, processed.dispatched, messageCount_append]
    simp [Nat.add_assoc]

/-- The frame type is read back from a complete payload. -/
theorem Collecting.frameType (collecting : s.Collecting frame frame.size) :
    readI32 s.message = frame.raw.frameType.toNat := by
  have holds : s.message.slice 0 frame.raw.size = frame.raw.payload := by
    have whole := collecting.collected
    rwa [List.take_of_length_le (by rw [frame.length_payload])] at whole
  apply readI32_payload holds
  cases frame with
  | response data fits => exact (by decide : (0 : UInt32).toNat < 2 ^ 31)
  | error data fits => exact (by decide : (1 : UInt32).toNat < 2 ^ 31)
  | message content fits => exact (by decide : (2 : UInt32).toNat < 2 ^ 31)

/-- A response is answered if it is a heartbeat, and the parser is ready again. -/
theorem dispatch_response {data : Bytes} {fits : data.length + 4 < 2 ^ 31 - 1}
    (collecting : s.Collecting (.response data fits) (Frame.response data fits).size)
    (processed : Processed malloc start old frames s) :
    ∃ next, s.dispatch malloc = .again next ∧ next.Tracks none ∧ next.input = s.input ∧
      next.drained = s.drained ∧
      Processed malloc start old (frames ++ [.response data fits]) next := by
  have frameType : readI32 s.message = 0 := collecting.frameType
  have size : s.msg.size = (data.length + 4 : ℕ) := collecting.size
  have nonzero : s.msg.size ≠ 0 := by omega
  have effects : (Frame.response data fits).effectsUnder malloc s.msg s.dispatched =
      if s.msg.size = 15 then [nop] else [] := by
    have heartbeat : s.msg.size = 15 ↔ data.length + 4 = 15 := by omega
    exact (if_congr heartbeat rfl rfl).symm
  refine ⟨{ s.restart with
    msg := { s.msg with frameType := 0, size := 0 }
    log := s.log ++ if s.msg.size = 15 then [nop] else [] }, ?_,
    ⟨rfl, rfl⟩, rfl, rfl, processed.snoc (effects ▸ rfl) ?_ rfl rfl⟩
  · rw [dispatch, frameType]
    simp only [dispatchOn, if_true, dispatchResponse, if_pos nonzero]
    split
    · simp [restart, nop]
    · simp [restart]
  · intro messages holds
    rw [effects]
    split
    · simpa [restart, nop, enqueuedIn] using holds
    · simpa [restart, enqueuedIn] using holds

/-- A message whose object is granted is enqueued if its node is, too. -/
theorem Processed.enqueueMessage (processed : Processed malloc start old frames s)
    (content : Message) (fits : content.body.length + 30 < 2 ^ 31 - 1)
    (granted : (malloc s.dispatched).body = true) :
    ∃ queue, PhpNsq.enqueueMessage (malloc s.dispatched).node (malloc s.dispatched).nodeBody
        content.id.toList content.body content.body.length content.timestamp content.attempts
        s.msg.delayTime s.msg.autoFinish s.queue = some queue ∧
      ∀ messages, s.queue.Holds messages → queue.Holds (messages ++ enqueuedIn
        ((Frame.message content fits).effectsUnder malloc s.msg s.dispatched)) := by
  have effects : (Frame.message content fits).effectsUnder malloc s.msg s.dispatched =
      if ((malloc s.dispatched).node && (malloc s.dispatched).nodeBody) = true then
        [.enqueued (content.pending s.msg)] else [] := by
    have all : (malloc s.dispatched).all =
        ((malloc s.dispatched).node && (malloc s.dispatched).nodeBody) := by
      simp [Grants.all, granted]
    rw [← all]
    rfl
  cases refused : (malloc s.dispatched).node && (malloc s.dispatched).nodeBody with
  | false =>
      refine ⟨s.queue, MessageQueue.Holds.enqueueMessage_failed refused .., ?_⟩
      intro messages holds
      simpa [effects, refused] using holds
  | true =>
      obtain ⟨node, nodeBody⟩ := Bool.and_eq_true_iff.mp refused
      rw [node, nodeBody]
      obtain ⟨queue, enqueued, -⟩ := processed.queue.enqueueMessage content.id.toList
        content.body content.body.length content.timestamp content.attempts
        s.msg.delayTime s.msg.autoFinish
      refine ⟨queue, enqueued, ?_⟩
      intro messages holds
      obtain ⟨other, again, appended⟩ := holds.enqueueMessage content.id.toList
        content.body content.body.length content.timestamp content.attempts
        s.msg.delayTime s.msg.autoFinish
      obtain rfl := Option.some.inj (again.symm.trans enqueued)
      simpa [effects, refused, enqueuedIn, Message.pending] using appended

/-- A message is enqueued if its memory is granted, and the parser is ready again. -/
theorem dispatch_message {content : Message} {fits : content.body.length + 30 < 2 ^ 31 - 1}
    (collecting : s.Collecting (.message content fits) (Frame.message content fits).size)
    (processed : Processed malloc start old frames s) :
    ∃ next, s.dispatch malloc = .again next ∧ next.Tracks none ∧ next.input = s.input ∧
      next.drained = s.drained ∧
      Processed malloc start old (frames ++ [.message content fits]) next := by
  have frameType : readI32 s.message = 2 := collecting.frameType
  have size : s.msg.size = (content.body.length + 30 : ℕ) := by
    rw [collecting.size, content.size_eq]
  have long : ¬ s.msg.size < 29 := by omega
  have longer : s.msg.size ≠ 29 := by omega
  have bodyLen : (s.msg.size - 30).toNat = content.body.length := by omega
  have holds := collecting.collected
  rw [List.take_of_length_le (by rw [Frame.length_payload]), content.payload_eq] at holds
  have timestamp := Message.ntoh64_timestamp holds
  have attempts := Message.readI16_attempts holds
  have messageId := Message.slice_id holds
  have body := Message.slice_body holds
  have unfolded : s.dispatch malloc =
      ReadState.dispatchMessage { s with msg := { s.msg with frameType := 2 } } malloc := by
    rw [dispatch, frameType]
    simp [dispatchOn]
  have effects : (Frame.message content fits).effectsUnder malloc s.msg s.dispatched =
      if (malloc s.dispatched).all = true then [.enqueued (content.pending s.msg)] else [] := rfl
  cases granted : (malloc s.dispatched).body with
  | false =>
      have refused : (malloc s.dispatched).all = false := by simp [Grants.all, granted]
      refine ⟨{ s.restart with
        msg := { s.msg with frameType := 2, size := 0 }
        dispatched := s.dispatched + 1 }, ?_, ⟨rfl, rfl⟩, rfl, rfl, processed.snoc ?_ ?_ rfl rfl⟩
      · simp [unfolded, dispatchMessage, long, granted, restart]
      · simp [effects, refused, restart]
      · intro messages holds
        simpa [effects, refused, restart] using holds
  | true =>
      have all : (malloc s.dispatched).all =
          ((malloc s.dispatched).node && (malloc s.dispatched).nodeBody) := by
        simp [Grants.all, granted]
      obtain ⟨queue, enqueued, appended⟩ := processed.enqueueMessage content fits granted
      refine ⟨{ s.restart with
        msg := { s.msg with frameType := 2, size := 0 }
        queue := queue
        log := s.log ++ (Frame.message content fits).effectsUnder malloc s.msg s.dispatched
        dispatched := s.dispatched + 1 }, ?_, ⟨rfl, rfl⟩, rfl, rfl,
        processed.snoc rfl appended rfl rfl⟩
      simp only [unfolded, dispatchMessage, if_neg long, granted, if_neg longer, timestamp, attempts,
        messageId, bodyLen, body, enqueued, Bool.true_eq_false, if_false, effects, all]
      split
      · simp [restart, Message.pending]
      · simp [restart]

/-- **A frame with a branch is processed, and the parser is ready again.** -/
theorem dispatch_frame (collecting : s.Collecting frame frame.size) (plain : ¬ frame.IsError)
    (processed : Processed malloc start old frames s) :
    ∃ next, s.dispatch malloc = .again next ∧ next.Tracks none ∧ next.input = s.input ∧
      next.drained = s.drained ∧ Processed malloc start old (frames ++ [frame]) next := by
  cases frame with
  | response data fits => exact dispatch_response collecting processed
  | error data fits => exact absurd trivial plain
  | message content fits => exact dispatch_message collecting processed

/-! ## Frame types without a branch -/

/-- The state with the type of a frame noted. -/
def noteType (s : ReadState) (frameType : ℤ) : ReadState :=
  { s with msg := { s.msg with frameType := frameType } }

-- stated for any type, since a type that is read from a buffer must not be unfolded
@[simp] theorem noteType_size (s : ReadState) (frameType : ℤ) :
    (s.noteType frameType).msg.size = s.msg.size := rfl

@[simp] theorem noteType_l (s : ReadState) (frameType : ℤ) : (s.noteType frameType).l = s.l := rfl

@[simp] theorem noteType_isFirst (s : ReadState) (frameType : ℤ) :
    (s.noteType frameType).isFirst = s.isFirst := rfl

@[simp] theorem noteType_input (s : ReadState) (frameType : ℤ) :
    (s.noteType frameType).input = s.input := rfl

@[simp] theorem noteType_message (s : ReadState) (frameType : ℤ) :
    (s.noteType frameType).message = s.message := rfl

theorem Untouched.noteType (s : ReadState) (frameType : ℤ) : Untouched s (s.noteType frameType) where
  log := rfl
  queue := rfl
  dispatched := rfl
  settings := s.msg.settings_update _ _

/-- A complete body in a buffer that an earlier call opened. -/
structure HoldsBody (s : ReadState) (message : Cells UInt8) : Prop where
  middle : s.isFirst = false
  whole : s.l = s.msg.size
  positive : 0 ≤ s.l
  contents : s.message = message

theorem HoldsBody.noteType {message : Cells UInt8} (body : s.HoldsBody message) (frameType : ℤ) :
    (s.noteType frameType).HoldsBody message :=
  ⟨body.middle, body.whole, body.positive, body.contents⟩

/-- A complete body of another type than 0 and 2 is dispatched without effect. -/
theorem dispatchOn_other (malloc : Malloc) (positive : 0 ≤ s.l) {frameType : ℤ}
    (response : frameType ≠ 0) (message : frameType ≠ 2) :
    s.dispatchOn malloc frameType = .again (s.noteType frameType) := by
  have open_end : s.l ≠ -1 := by omega
  simp [dispatchOn, noteType, response, message, open_end]

/-- A complete body of another type than 0 and 2, in a buffer that an earlier call opened, is
dispatched again by the next pass. -/
theorem HoldsBody.pass {message : Cells UInt8} (holds : s.HoldsBody message)
    (response : readI32 message ≠ 0) (business : readI32 message ≠ 2) (malloc : Malloc)
    (memory : Memory) :
    s.readBody = .ok s ∧ s.pass malloc memory = .again (s.noteType (readI32 message)) := by
  have nothing : s.available (s.msg.size - s.l) = 0 := by
    rw [holds.whole, Int.sub_self, available, if_neg (by omega)]
    exact Nat.zero_min _
  have body : s.readBody = .ok s := by
    have no_overflow : ¬ ((0 : ℕ) ≠ 0 ∧ (s.l < 0 ∨ (s.room : ℤ) < s.l + (0 : ℕ))) := by simp
    simp only [readBody, nothing, if_neg no_overflow]
    simp
  have whole := holds.whole
  refine ⟨body, ?_⟩
  rw [pass_of_not_first holds.middle, collect_of_readBody body, if_neg (by omega), if_pos whole,
    dispatch, holds.contents, dispatchOn_other malloc holds.positive response business]

/-- It is dispatched for ever. -/
theorem stuck_of_frameType (malloc : Malloc) (memory : Memory) {message : Cells UInt8}
    (holds : s.HoldsBody message) (response : readI32 message ≠ 0)
    (business : readI32 message ≠ 2) (result : Except Fault ReadState) :
    ¬ Exits (pass malloc memory) s result := by
  apply not_exits_of_invariant (fun v => v.HoldsBody message) ?_ holds
  intro v stays
  exact ⟨_, (stays.pass response business malloc memory).2, stays.noteType _⟩

/-- A pass that comes to such a body never leaves the loop. -/
theorem stuck_of_dispatch {c : ReadState} (arrives : s.pass malloc memory = c.dispatch malloc)
    (holds : c.HoldsBody c.message) (response : readI32 c.message ≠ 0)
    (business : readI32 c.message ≠ 2) (result : Except Fault ReadState) :
    ¬ Exits (pass malloc memory) s result := by
  rw [dispatch, dispatchOn_other malloc holds.positive response business] at arrives
  rw [exits_of_again arrives]
  exact stuck_of_frameType malloc memory (holds.noteType _) response business result

theorem Collecting.frameType_error (collecting : s.Collecting frame frame.size)
    (error : frame.IsError) : readI32 s.message = 1 := by
  cases frame with
  | response data fits => exact absurd error id
  | message content fits => exact absurd error id
  | error data fits => exact collecting.frameType

/-- An error frame has no branch. -/
theorem dispatch_error (collecting : s.Collecting frame frame.size) (error : frame.IsError) :
    s.dispatch malloc = .again (s.noteType 1) := by
  have positive : 0 ≤ s.l := by
    rw [collecting.l]
    omega
  rw [dispatch, collecting.frameType_error error,
    dispatchOn_other malloc positive (by omega) (by omega)]

/-! ## With nothing to read -/

/-- The state after a buffer was opened with nothing to read. -/
def drain (s : ReadState) (memory : Memory) : ReadState :=
  { s with
    message := memory.drained s.drained
    room := 1
    msg := { s.msg with size := 0 }
    drained := s.drained + 1 }

theorem openBuffer_drained (empty : s.input = []) :
    s.openBuffer memory = .ok (s.drain memory) := by
  have size : readI32 (fun _ => 0) = 0 := by decide
  have fits : ¬ ((0 : ℤ) < 0 ∨ (0 : ℤ) = intMax) := by
    rw [intMax]
    omega
  simp only [openBuffer, drain, empty, available, List.take_nil, List.drop_nil, Cells.store_nil,
    size, if_neg fits, if_true, Int.toNat_zero, List.replicate_zero, Nat.zero_add]

/-- Nothing is read into it. -/
theorem readBody_drain (l : s.l = 0) (empty : s.input = []) (memory : Memory) :
    (s.drain memory).readBody = .ok (s.drain memory) := by
  simp [readBody, available, drain, empty, l]

/-- A buffer of size zero is dispatched on type 0 by leaving the loop, and on every
other type by going round again. -/
theorem dispatchOn_empty (malloc : Malloc) (first : s.isFirst = true) (l : s.l = 0)
    (size : s.msg.size = 0) (frameType : ℤ) : s.dispatchOn malloc frameType =
      if frameType = 0 then .leave (.ok (s.noteType frameType))
      else .again (s.noteType frameType) := by
  by_cases zero : frameType = 0
  · simp [dispatchOn, noteType, dispatchResponse, zero, first, l, size]
  · by_cases two : frameType = 2
    · simp [dispatchOn, noteType, dispatchMessage, restart, two, first, l, size]
    · simp [dispatchOn, noteType, zero, two, first, l, size]

/-- The frame type that a pass without input finds is whatever the fresh buffer
holds. On type 0 the pass leaves the loop; on any other type it changes nothing but
the number of buffers asked for, and the loop goes on. -/
theorem pass_drained (malloc : Malloc) (memory : Memory) (ready : s.Tracks none)
    (empty : s.input = []) :
    s.pass malloc memory =
      if readI32 (memory.drained s.drained) = 0 then
        .leave (.ok ((s.drain memory).noteType (readI32 (memory.drained s.drained))))
      else .again ((s.drain memory).noteType (readI32 (memory.drained s.drained))) := by
  obtain ⟨first, l⟩ := ready
  have body := readBody_drain l empty memory
  have whole : (s.drain memory).l = (s.drain memory).msg.size := l
  have contents : (s.drain memory).message = memory.drained s.drained := rfl
  rw [pass_of_openBuffer first (openBuffer_drained empty), collect_of_readBody body,
    if_neg (by omega), if_pos whole, dispatch, contents,
    dispatchOn_empty (s := s.drain memory) malloc first l rfl]

theorem Tracks.drain (ready : s.Tracks none) (frameType : ℤ) :
    ((s.drain memory).noteType frameType).Tracks none := ready

theorem Untouched.drain (s : ReadState) (memory : Memory) (frameType : ℤ) :
    Untouched s ((s.drain memory).noteType frameType) where
  log := rfl
  queue := rfl
  dispatched := rfl
  settings := s.msg.settings_update _ _

end ReadState

end PhpNsq
