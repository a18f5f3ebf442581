import PhpNsq.Foundations.Cells
import PhpNsq.Foundations.Iteration
import PhpNsq.Foundations.Runs
import PhpNsq.Subscriber.MessageQueue

/-!
# The pending-message queue as a FIFO list

`cleanup_message_queue` completes the operations on the linked list of sub.c. A run
of the queue is any sequence of the three operations from the globals of program
start: `Operates` is one operation on the pointer structure, together with what
`dequeue_message` has returned so far.

`Fifo` is what the queue is for: a list of messages, to which enqueueing appends
and from which dequeueing takes the first. `queue_refines_fifo` runs both on the same
operations. The pointer structure never follows a dangling pointer, so its run
exists, it gives back the same messages, and the head, the links, the tail and the
counter all describe the list (`MessageQueue.Linked`).

The counter is an integer without a bound here; the `int` of the source is that
number up to `INT_MAX` pending messages.
-/

set_option autoImplicit false

namespace PhpNsq

open Foundations

/-! ## The operations -/

/-- The arguments of `enqueue_message`, a pointer being the memory behind it. -/
structure EnqueueArguments where
  messageId : Cells UInt8
  body : Cells UInt8
  bodyLen : ℕ
  timestamp : Int64
  attempts : UInt16
  delayTime : Int32
  autoFinish : Bool

/-- The calls that work on the queue. Whoever dequeues a message may free its node. -/
inductive QueueOperation where
  | enqueueMessage (nodeGranted bodyGranted : Bool) (arguments : EnqueueArguments)
  | dequeueMessage (freed : Bool)
  | cleanupMessageQueue

/-- `if (msg) free(msg)`. -/
def MessageQueue.freeIfAny (queue : MessageQueue) : Option ℕ → MessageQueue
  | none => queue
  | some msg => queue.free msg

/-- The loop of `cleanup_message_queue`. It leaves with nothing at a dangling pointer. -/
def cleanupPass (queue : MessageQueue) : Next MessageQueue (Option MessageQueue) :=
  if queue.messageQueueHead = none then .leave (some queue)
  else
    match dequeueMessage queue with
    | none => .leave none
    | some (msg, rest) => .again (rest.freeIfAny msg)

/-- The queue, and what the calls of `dequeue_message` returned: the message behind the
pointer, or nothing for the null pointer. -/
structure QueueState where
  queue : MessageQueue
  returned : List (Option PendingMessage)

/-- The state at program start. -/
def QueueState.initial : QueueState := ⟨MessageQueue.initial, []⟩

/-- What a returned pointer points to. A dangling pointer points to nothing at all. -/
def MessageQueue.PointsTo (queue : MessageQueue) : Option ℕ → Option PendingMessage → Prop
  | none, message => message = none
  | some address, message =>
      ∃ value next, queue.heap address = some ⟨value, next⟩ ∧ message = some value

/-- One operation. -/
def Operates (s : QueueState) (operation : QueueOperation) (s' : QueueState) : Prop :=
  match operation with
  | .enqueueMessage nodeGranted bodyGranted arguments =>
      ∃ queue, enqueueMessage nodeGranted bodyGranted (arguments.messageId.slice 0 16)
          (arguments.body.slice 0 arguments.bodyLen) arguments.bodyLen arguments.timestamp
          arguments.attempts arguments.delayTime arguments.autoFinish s.queue = some queue ∧
        s' = ⟨queue, s.returned⟩
  | .dequeueMessage freed =>
      ∃ msg queue message, dequeueMessage s.queue = some (msg, queue) ∧
        queue.PointsTo msg message ∧
        s' = ⟨if freed then queue.freeIfAny msg else queue, s.returned ++ [message]⟩
  | .cleanupMessageQueue =>
      ∃ queue, Exits cleanupPass s.queue (some queue) ∧ s' = ⟨queue, s.returned⟩

/-- An operation has one outcome. -/
theorem Operates.unique {s first second : QueueState} {operation : QueueOperation}
    (left : Operates s operation first) (right : Operates s operation second) :
    first = second := by
  cases operation with
  | enqueueMessage nodeGranted bodyGranted arguments =>
      obtain ⟨queue, enqueued, rfl⟩ := left
      obtain ⟨queue', enqueued', rfl⟩ := right
      rw [Option.some.inj (enqueued.symm.trans enqueued')]
  | dequeueMessage freed =>
      obtain ⟨msg, queue, message, dequeued, points, rfl⟩ := left
      obtain ⟨msg', queue', message', dequeued', points', rfl⟩ := right
      obtain ⟨rfl, rfl⟩ := Prod.mk.inj (Option.some.inj (dequeued.symm.trans dequeued'))
      obtain rfl : message = message' := by
        cases msg with
        | none => exact Eq.trans points (Eq.symm points')
        | some address =>
            obtain ⟨value, next, cell, rfl⟩ := points
            obtain ⟨value', next', cell', rfl⟩ := points'
            rw [cell] at cell'
            injection cell' with cell'
            injection cell' with same
            rw [same]
      rfl
  | cleanupMessageQueue =>
      obtain ⟨queue, exit, rfl⟩ := left
      obtain ⟨queue', exit', rfl⟩ := right
      rw [Option.some.inj (exit.unique exit')]

/-! ## The FIFO list -/

/-- A list of messages, and what was taken from it so far. -/
structure Fifo where
  contents : List PendingMessage
  returned : List (Option PendingMessage)

/-- The message that a call of `enqueue_message` is to append. -/
def EnqueueArguments.message (arguments : EnqueueArguments) : PendingMessage where
  messageId := arguments.messageId.slice 0 16 ++ [0]
  body := arguments.body.slice 0 arguments.bodyLen ++ [0]
  bodyLen := arguments.bodyLen
  timestamp := arguments.timestamp
  attempts := arguments.attempts
  delayTime := arguments.delayTime
  autoFinish := arguments.autoFinish

namespace Fifo

def empty : Fifo := ⟨[], []⟩

def append (fifo : Fifo) (message : PendingMessage) : Fifo :=
  { fifo with contents := fifo.contents ++ [message] }

/-- Take the first message, or nothing from the empty list. -/
def take (fifo : Fifo) : Fifo where
  contents := fifo.contents.tail
  returned := fifo.returned ++ [fifo.contents.head?]

def clear (fifo : Fifo) : Fifo := { fifo with contents := [] }

/-- What an operation is for. -/
def operate (fifo : Fifo) : QueueOperation → Fifo
  | .enqueueMessage nodeGranted bodyGranted arguments =>
      if nodeGranted && bodyGranted then fifo.append arguments.message else fifo
  | .dequeueMessage _ => fifo.take
  | .cleanupMessageQueue => fifo.clear

/-- The FIFO list behind a sequence of operations. -/
def after (operations : List QueueOperation) : Fifo := operations.foldl operate empty

theorem after_snoc (operations : List QueueOperation) (operation : QueueOperation) :
    after (operations ++ [operation]) = (after operations).operate operation := by
  rw [after, List.foldl_append]
  rfl

end Fifo

/-! ## The refinement -/

/-- The four views of a queue with these contents. -/
structure MessageQueue.Linked (queue : MessageQueue) (contents : List PendingMessage) : Prop where
  count : queue.pendingMessageCount = contents.length
  /-- Following `next` from the head reaches `NULL` behind `pending_message_count` steps and not
  before. -/
  reaches_null : ∀ steps : ℕ, follow queue.heap steps queue.messageQueueHead = none ↔
    queue.pendingMessageCount ≤ steps
  /-- The nodes on the way hold the contents in order. -/
  nodes : ∀ (steps : ℕ) (message : PendingMessage), contents[steps]? = some message →
    ∃ address next, follow queue.heap steps queue.messageQueueHead = some address ∧
      queue.heap address = some ⟨message, next⟩
  head_null_iff : queue.messageQueueHead = none ↔ queue.messageQueueTail = none
  /-- The tail is the last node that is reached. -/
  tail_last : queue.messageQueueHead ≠ none →
    follow queue.heap (contents.length - 1) queue.messageQueueHead = queue.messageQueueTail

/-- The chain of the messages fixes all four views. -/
theorem MessageQueue.Holds.linked {queue : MessageQueue} {contents : List PendingMessage}
    (holds : queue.Holds contents) : queue.Linked contents where
  count := holds.count
  reaches_null := by
    intro steps
    rw [holds.represents.follow_eq_none_iff, holds.count]
    exact Int.ofNat_le.symm
  nodes := fun steps message found => holds.represents.follow_cell found
  head_null_iff := by
    rw [holds.represents.head_eq_none_iff, holds.represents.tail_eq_none_iff]
  tail_last := fun _ => holds.represents.follow_tail

theorem pendingMessage_arguments (arguments : EnqueueArguments) :
    pendingMessage (arguments.messageId.slice 0 16) (arguments.body.slice 0 arguments.bodyLen)
      arguments.bodyLen arguments.timestamp arguments.attempts arguments.delayTime
      arguments.autoFinish = arguments.message := by
  have id : (arguments.messageId.slice 0 16).take 16 = arguments.messageId.slice 0 16 :=
    List.take_of_length_le (Cells.length_slice ..).le
  have body : (arguments.body.slice 0 arguments.bodyLen).take arguments.bodyLen =
      arguments.body.slice 0 arguments.bodyLen :=
    List.take_of_length_le (Cells.length_slice ..).le
  rw [pendingMessage, id, body]
  rfl

/-- **`cleanup_message_queue` terminates with the empty queue.** Every pass takes the first
message and frees its node, so the induction is on the messages. -/
theorem MessageQueue.Holds.cleanup {queue : MessageQueue} {messages : List PendingMessage}
    (holds : queue.Holds messages) :
    ∃ last, Exits cleanupPass queue (some last) ∧ last.Holds [] := by
  induction messages generalizing queue with
  | nil =>
      have head : queue.messageQueueHead = none := holds.represents.head_eq_none_iff.mpr rfl
      have left : cleanupPass queue = .leave (some queue) := if_pos head
      exact ⟨queue, (exits_of_leave left).mpr rfl, holds⟩
  | cons first messages ih =>
      have head : queue.messageQueueHead ≠ none :=
        mt holds.represents.head_eq_none_iff.mp (List.cons_ne_nil _ _)
      obtain ⟨address, next, queue', dequeued, -, -, freed⟩ := holds.dequeueMessage
      have round : cleanupPass queue = .again (queue'.free address) := by
        simp only [cleanupPass, if_neg head, dequeued, MessageQueue.freeIfAny]
      obtain ⟨last, exit, empty⟩ := ih freed
      exact ⟨last, (exits_of_again round).mpr exit, empty⟩

/-- The queue and the FIFO list agree. -/
structure QueueState.Refines (s : QueueState) (fifo : Fifo) : Prop where
  holds : s.queue.Holds fifo.contents
  returned : s.returned = fifo.returned

/-- **Each operation can be taken, and keeps the queue and the list together.** -/
theorem QueueState.Refines.operate {s : QueueState} {fifo : Fifo} (refines : s.Refines fifo)
    (operation : QueueOperation) :
    ∃ s', Operates s operation s' ∧ s'.Refines (fifo.operate operation) := by
  have holds := refines.holds
  cases operation with
  | enqueueMessage nodeGranted bodyGranted arguments =>
      cases granted : nodeGranted && bodyGranted with
      | false =>
          refine ⟨s, ⟨s.queue, MessageQueue.Holds.enqueueMessage_failed granted .., rfl⟩, ?_⟩
          rw [Fifo.operate, granted]
          exact refines
      | true =>
          obtain ⟨rfl, rfl⟩ := Bool.and_eq_true_iff.mp granted
          obtain ⟨queue, enqueued, appended⟩ := holds.enqueueMessage
            (arguments.messageId.slice 0 16) (arguments.body.slice 0 arguments.bodyLen)
            arguments.bodyLen arguments.timestamp arguments.attempts arguments.delayTime
            arguments.autoFinish
          rw [pendingMessage_arguments] at appended
          exact ⟨⟨queue, s.returned⟩, ⟨queue, enqueued, rfl⟩, appended, refines.returned⟩
  | dequeueMessage freed =>
      cases contents : fifo.contents with
      | nil =>
          rw [contents] at holds
          refine ⟨⟨s.queue, s.returned ++ [none]⟩, ⟨none, s.queue, none,
            holds.dequeueMessage_nil, rfl, ?_⟩, ?_, ?_⟩
          · simp [MessageQueue.freeIfAny]
          · simpa [Fifo.operate, Fifo.take, contents] using holds
          · simp [Fifo.operate, Fifo.take, contents, refines.returned]
      | cons first rest =>
          rw [contents] at holds
          obtain ⟨address, next, queue, dequeued, cell, kept, released⟩ := holds.dequeueMessage
          refine ⟨_, ⟨some address, queue, some first, dequeued, ⟨first, next, cell, rfl⟩, rfl⟩,
            ?_, ?_⟩
          · rw [Fifo.operate, Fifo.take, contents]
            cases freed with
            | false => exact kept
            | true => exact released
          · simp [Fifo.operate, Fifo.take, contents, refines.returned]
  | cleanupMessageQueue =>
      obtain ⟨last, exit, empty⟩ := holds.cleanup
      exact ⟨⟨last, s.returned⟩, ⟨last, exit, rfl⟩, empty, refines.returned⟩

/-- **The queue refines a FIFO list.** Any sequence of operations from the empty queue
can be run, in one way, and it leaves the queue and returns the messages of the list. -/
theorem queue_refines_fifo (operations : List QueueOperation) :
    ∃ last, Run Operates QueueState.initial operations last ∧
      (∀ other, Run Operates QueueState.initial operations other → other = last) ∧
      last.queue.Linked (Fifo.after operations).contents ∧
      last.returned = (Fifo.after operations).returned := by
  have begin : QueueState.initial.Refines (Fifo.after []) := ⟨MessageQueue.Holds.initial, rfl⟩
  have advance : ∀ (taken : List QueueOperation) (operation : QueueOperation)
      (rest : List QueueOperation) (s : QueueState), operations = taken ++ operation :: rest →
      s.Refines (Fifo.after taken) →
      ∃ s', Operates s operation s' ∧ s'.Refines (Fifo.after (taken ++ [operation])) := by
    intro taken operation rest s _ refines
    rw [Fifo.after_snoc]
    exact refines.operate operation
  obtain ⟨last, run, refines⟩ :=
    Run.progress (fun taken (s : QueueState) => s.Refines (Fifo.after taken)) advance begin
  refine ⟨last, run, ?_, refines.holds.linked, refines.returned⟩
  intro other another
  exact Run.unique (fun _ _ _ _ here there => here.unique there) another run

end PhpNsq
