import PhpNsq.Common
import PhpNsq.Foundations.Iteration
import PhpNsq.Foundations.Runs
import PhpNsq.Subscriber.MessageQueue

/-!
# readcb of sub.c

libevent calls `readcb` when bytes arrive. Its function statics `is_first`, `l` and
`message`, and the `size` of the shared `NSQMsg`, stay from call to call, and the
bytes not read yet wait in the bufferevent's input buffer.

`pass` is one pass of the `while (1)` loop, and a call is the loop run from the
state with the new bytes (`Readcb`). A call may fail to return, so it is a relation;
it is a partial function (`Readcb.unique`).

Outside the code are the contents of the memory that `emalloc` gives, which is
only cleared up to `msg->size`, and the outcomes of the `malloc`s for a message.
`emalloc` ends the process when it fails and is taken to succeed. A memory error
has no result.
-/

set_option autoImplicit false

namespace PhpNsq

open Foundations

/-- Who issues a command: the extension itself, or the user's callback through the
methods of `NsqMessage`. -/
inductive Origin where
  | extension
  | user
  deriving DecidableEq

/-- The properties of the `NsqMessage` object that is handed to the user's callback. -/
structure NsqMessage where
  message_id : Bytes
  messageId : Bytes
  attempts : UInt16
  timestamp : Int64
  payload : Bytes

/-- What happens on one connection, as far as its peer and the user can tell. -/
inductive Effect where
  /-- `enqueue_message` linked a new node. -/
  | enqueued (message : PendingMessage)
  /-- An object was handed to `zend_call_function`, which may not come to call the callback. -/
  | called (message : NsqMessage)
  /-- `bufferevent_write`, into the output buffer. -/
  | buffered (origin : Origin) (bytes : Bytes)
  /-- `write` or `send`, past the output buffer. -/
  | direct (origin : Origin) (bytes : Bytes)

/-- The fields of `struct NSQMsg` that are in use. -/
structure NSQMsg where
  topic : Bytes
  channel : Bytes
  frameType : ℤ
  size : ℤ
  rdy : Int32
  delayTime : Int32
  autoFinish : Bool

/-- The statics of `readcb`, the globals it works on, the input buffer, and what
happened so far. `opened` and `drained` number the buffers a call asks for, with and
without bytes of a size prefix to read, and `dispatched` the messages whose memory
was asked for. -/
structure ReadState where
  isFirst : Bool
  l : ℤ
  message : Cells UInt8
  room : ℕ
  msg : NSQMsg
  queue : MessageQueue
  input : Bytes
  log : List Effect
  opened : ℕ
  drained : ℕ
  dispatched : ℕ

/-- What `emalloc` leaves in the buffers that one call asks for. -/
structure Memory where
  opened : ℕ → Cells UInt8
  drained : ℕ → Cells UInt8

/-- The outcomes of the three `malloc`s for a message: the copy of the body, the
queue node, and the node's body. -/
structure Grants where
  body : Bool
  node : Bool
  nodeBody : Bool

/-- All three succeed. -/
def Grants.all (grants : Grants) : Bool := grants.body && (grants.node && grants.nodeBody)

/-- The outcomes for every message, in the order in which memory is asked for. -/
abbrev Malloc := ℕ → Grants

/-- Undefined behaviour. -/
inductive Fault where
  /-- `memset` over a negative size, or `emalloc` of one. -/
  | badAllocation
  /-- A read behind the end of `message`. -/
  | heapOverflow
  /-- `memcpy` of a negative length. -/
  | badCopy
  /-- A freed queue node was followed. -/
  | danglingPointer
  deriving DecidableEq

namespace ReadState

variable (s : ReadState)

/-- The statics at program start, with the settings of the consumer and an empty input buffer. -/
def initial (msg : NSQMsg) : ReadState where
  isFirst := true
  l := 0
  message := fun _ => 0
  room := 0
  msg := msg
  queue := .initial
  input := []
  log := []
  opened := 0
  drained := 0
  dispatched := 0

/-- `bufferevent_read` with a length that is converted to `size_t`: how many bytes
it gives. A negative length is more than any buffer holds. -/
def available (length : ℤ) : ℕ :=
  if length < 0 then s.input.length else min length.toNat s.input.length

/-- `memset(&msg->size, 0x00, 4)` with `l = 0` and `is_first = 1`. -/
def restart : ReadState :=
  { s with isFirst := true, l := 0, msg := { s.msg with size := 0 } }

/-- The block under `if (is_first)`: the size prefix and a new buffer. -/
def openBuffer (memory : Memory) : Except Fault ReadState :=
  let sizeL := s.available 4
  let msgSize : Cells UInt8 := Cells.store (fun _ => 0) 0 (s.input.take sizeL)
  let size := readI32 msgSize
  if size < 0 ∨ size = intMax then .error .badAllocation
  else
    let contents := if s.input = [] then memory.drained s.drained else memory.opened s.opened
    .ok { s with
      message := contents.store 0 (List.replicate size.toNat 0)
      room := size.toNat + 1
      msg := { s.msg with size := size }
      input := s.input.drop sizeL
      opened := if s.input = [] then s.opened else s.opened + 1
      drained := if s.input = [] then s.drained + 1 else s.drained }

/-- `l += bufferevent_read(bev, message + l, msg->size - l)`. -/
def readBody : Except Fault ReadState :=
  let count := s.available (s.msg.size - s.l)
  if count ≠ 0 ∧ (s.l < 0 ∨ s.room < s.l + count) then .error .heapOverflow
  else .ok { s with
    message := s.message.store s.l.toNat (s.input.take count)
    l := s.l + count
    input := s.input.drop count }

/-- The branch of frame type 0. -/
def dispatchResponse : Next ReadState (Except Fault ReadState) :=
  let log := if s.msg.size = 15 then s.log ++ [.buffered .extension (ascii "NOP\n")] else s.log
  if s.msg.size ≠ 0 then .again { s.restart with log := log }
  else .leave (.ok { s with isFirst := true, l := 0, log := log })

/-- The branch of frame type 2. A negative length asks `malloc` for nearly `2 ^ 64`
bytes, which it never gives. -/
def dispatchMessage (malloc : Malloc) : Next ReadState (Except Fault ReadState) :=
  if s.msg.size < 29 then .again s.restart
  else
    let grants := malloc s.dispatched
    if grants.body = false then .again { s.restart with dispatched := s.dispatched + 1 }
    else if s.msg.size = 29 then .leave (.error .badCopy)
    else
      let timestamp := (ntoh64 (s.message.advance 4)).toInt64
      let attempts := readI16 (s.message.advance 12)
      let messageId := s.message.slice 14 16
      let bodyLen := (s.msg.size - 30).toNat
      let body := s.message.slice 30 bodyLen
      match enqueueMessage grants.node grants.nodeBody messageId body bodyLen timestamp attempts
          s.msg.delayTime s.msg.autoFinish s.queue with
      | none => .leave (.error .danglingPointer)
      | some queue =>
          let log := if (grants.node && grants.nodeBody) = true then
              s.log ++ [.enqueued (pendingMessage messageId body bodyLen timestamp attempts
                s.msg.delayTime s.msg.autoFinish)]
            else s.log
          .again { s.restart with queue := queue, log := log, dispatched := s.dispatched + 1 }

/-- The branches on the frame type. A frame type without a branch leaves the state as
it is. -/
def dispatchOn (malloc : Malloc) (frameType : ℤ) : Next ReadState (Except Fault ReadState) :=
  let s := { s with msg := { s.msg with frameType := frameType } }
  if frameType = 0 then s.dispatchResponse
  else if frameType = 2 then s.dispatchMessage malloc
  else if s.l = -1 then .leave (.ok { s with isFirst := true, l := 0 })
  else .again s

/-- The rest of the loop body once `l == msg->size`. -/
def dispatch (malloc : Malloc) : Next ReadState (Except Fault ReadState) :=
  s.dispatchOn malloc (readI32 s.message)

/-- The loop body from the body read on. -/
def collect (malloc : Malloc) : Next ReadState (Except Fault ReadState) :=
  match s.readBody with
  | .error fault => .leave (.error fault)
  | .ok read =>
      if read.l < read.msg.size then .leave (.ok { read with isFirst := false })
      else if read.l = read.msg.size then read.dispatch malloc
      else .leave (.ok read.restart)

/-- One pass of the `while (1)` loop. -/
def pass (malloc : Malloc) (memory : Memory) (s : ReadState) :
    Next ReadState (Except Fault ReadState) :=
  if s.isFirst = true then
    match s.openBuffer memory with
    | .error fault => .leave (.error fault)
    | .ok opened => opened.collect malloc
  else s.collect malloc

/-- The state when `readcb` is called, with new bytes in the input buffer. -/
def receive (chunk : Bytes) : ReadState :=
  { s with input := s.input ++ chunk, opened := 0, drained := 0 }

end ReadState

/-- A call of `readcb`: the bytes that arrived before it, and the memory it meets. -/
structure ReadCall where
  chunk : Bytes
  memory : Memory

/-- A call of `readcb` that returns, with the state it leaves. -/
def Readcb (malloc : Malloc) (s : ReadState) (call : ReadCall) (s' : ReadState) : Prop :=
  Exits (ReadState.pass malloc call.memory) (s.receive call.chunk) (.ok s')

/-- The bytes that a sequence of calls delivers. -/
def delivered (calls : List ReadCall) : Bytes := calls.flatMap ReadCall.chunk

@[simp] theorem delivered_nil : delivered [] = [] := rfl

@[simp] theorem delivered_cons (call : ReadCall) (calls : List ReadCall) :
    delivered (call :: calls) = call.chunk ++ delivered calls := rfl

@[simp] theorem delivered_append (first second : List ReadCall) :
    delivered (first ++ second) = delivered first ++ delivered second :=
  List.flatMap_append

/-- **A call leaves at most one state.** -/
theorem Readcb.unique {malloc : Malloc} {s first second : ReadState} {call : ReadCall}
    (left : Readcb malloc s call first) (right : Readcb malloc s call second) : first = second :=
  Except.ok.inj (Exits.unique left right)

/-- So does a sequence of calls. -/
theorem Readcb.run_unique {malloc : Malloc} {s first second : ReadState} {calls : List ReadCall}
    (left : Run (Readcb malloc) s calls first) (right : Run (Readcb malloc) s calls second) :
    first = second := by
  refine Run.unique ?_ left right
  intro state call one other returns returns'
  exact Readcb.unique returns returns'

namespace ReadState

variable {malloc : Malloc} {memory : Memory} {s : ReadState}

@[simp] theorem receive_isFirst (chunk : Bytes) : (s.receive chunk).isFirst = s.isFirst := rfl

@[simp] theorem receive_input (chunk : Bytes) : (s.receive chunk).input = s.input ++ chunk := rfl

/-- In the middle of a frame the buffer is there already. -/
theorem pass_of_not_first (middle : s.isFirst = false) :
    s.pass malloc memory = s.collect malloc := by
  simp [pass, middle]

theorem pass_of_openBuffer {opened : ReadState} (first : s.isFirst = true)
    (open_ok : s.openBuffer memory = .ok opened) :
    s.pass malloc memory = opened.collect malloc := by
  simp [pass, first, open_ok]

theorem collect_of_readBody {read : ReadState} (body : s.readBody = .ok read) :
    s.collect malloc =
      if read.l < read.msg.size then .leave (.ok { read with isFirst := false })
      else if read.l = read.msg.size then read.dispatch malloc
      else .leave (.ok read.restart) := by
  simp [collect, body]

/-! ## What a pass yields -/

variable {t u : ReadState}

/-- The state that a pass goes on with or returns. -/
def Yields (next : Next ReadState (Except Fault ReadState)) (t : ReadState) : Prop :=
  next = .again t ∨ next = .leave (.ok t)

@[simp] theorem yields_again : Yields (.again u) t ↔ u = t := by simp [Yields]

@[simp] theorem yields_ok : Yields (.leave (.ok u)) t ↔ u = t := by simp [Yields]

@[simp] theorem not_yields_error {fault : Fault} : ¬ Yields (.leave (.error fault)) t := by
  simp [Yields]

/-- A relation between the states of one pass holds between the states of the whole loop. -/
theorem relates_of_exits {related : ReadState → ReadState → Prop} (refl : ∀ s, related s s)
    (trans : ∀ s t u, related s t → related t u → related s u)
    (one : ∀ s t, Yields (s.pass malloc memory) t → related s t)
    (exit : Exits (pass malloc memory) s (.ok t)) : related s t := by
  obtain ⟨last, passes, leaves⟩ := exit.passes
  have before : related s last := by
    clear leaves
    induction passes with
    | refl => exact refl s
    | tail _ again ih => exact trans _ _ _ ih (one _ _ (.inl again))
  exact trans _ _ _ before (one _ _ (.inr leaves))

end ReadState

end PhpNsq
