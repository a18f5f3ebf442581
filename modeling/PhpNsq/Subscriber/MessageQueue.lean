import PhpNsq.Foundations.BigEndian
import PhpNsq.Foundations.LinkedQueue

/-!
# The pending-message queue of sub.c

Messages that were received and not processed yet are kept in a linked list of
`malloc`ed nodes, reached through the globals `message_queue_head` and
`message_queue_tail`, next to a counter.

`MessageQueue` is that pointer structure. A node's address is the number of the
allocation that gave it, which no live node shares. A step that would follow a
pointer to a freed node has no result.

`Holds` connects the structure to the list of the pending messages: the chain
from the head, the tail pointer and the counter all describe that list. Enqueueing
appends to it and dequeueing takes its first element (`Holds.enqueueMessage`,
`Holds.dequeueMessage`), so neither ever follows a dangling pointer.
-/

set_option autoImplicit false

namespace PhpNsq

open Foundations

/-- `pending_message_t` without its link: the id with its terminator, and the body
with its terminator. -/
structure PendingMessage where
  messageId : Bytes
  body : Bytes
  bodyLen : ℕ
  timestamp : Int64
  attempts : UInt16
  delayTime : Int32
  autoFinish : Bool

/-- The globals of the queue and the heap its nodes live in. The counter is an
`int` that no branch reads. -/
structure MessageQueue where
  messageQueueHead : Option ℕ
  messageQueueTail : Option ℕ
  pendingMessageCount : ℤ
  heap : Heap PendingMessage
  allocations : ℕ

namespace MessageQueue

/-- The globals at program start. -/
def initial : MessageQueue where
  messageQueueHead := none
  messageQueueTail := none
  pendingMessageCount := 0
  heap := fun _ => none
  allocations := 0

/-- `free` of a node. -/
def free (queue : MessageQueue) (address : ℕ) : MessageQueue :=
  { queue with heap := Function.update queue.heap address none }

end MessageQueue

/-- The fields that `enqueue_message` copies into a node. -/
def pendingMessage (messageId body : Bytes) (bodyLen : ℕ) (timestamp : Int64) (attempts : UInt16)
    (delayTime : Int32) (autoFinish : Bool) : PendingMessage where
  messageId := messageId.take 16 ++ [0]
  body := body.take bodyLen ++ [0]
  bodyLen := bodyLen
  timestamp := timestamp
  attempts := attempts
  delayTime := delayTime
  autoFinish := autoFinish

/-- `enqueue_message`, given whether each of its two `malloc`s succeeds. -/
def enqueueMessage (nodeGranted bodyGranted : Bool) (messageId body : Bytes) (bodyLen : ℕ)
    (timestamp : Int64) (attempts : UInt16) (delayTime : Int32) (autoFinish : Bool)
    (queue : MessageQueue) : Option MessageQueue :=
  if nodeGranted = false then some queue
  else if bodyGranted = false then some queue
  else
    let address := queue.allocations
    let msg := pendingMessage messageId body bodyLen timestamp attempts delayTime autoFinish
    let heap := Function.update queue.heap address (some ⟨msg, none⟩)
    match queue.messageQueueTail with
    | some tail =>
        match heap tail with
        | some last => some
            { messageQueueHead := queue.messageQueueHead
              messageQueueTail := some address
              pendingMessageCount := queue.pendingMessageCount + 1
              heap := Function.update heap tail (some ⟨last.value, some address⟩)
              allocations := address + 1 }
        | none => none
    | none => some
        { messageQueueHead := some address
          messageQueueTail := some address
          pendingMessageCount := queue.pendingMessageCount + 1
          heap := heap
          allocations := address + 1 }

/-- `dequeue_message`: the pointer it returns and the queue it leaves. -/
def dequeueMessage (queue : MessageQueue) : Option (Option ℕ × MessageQueue) :=
  match queue.messageQueueHead with
  | none => some (none, queue)
  | some msg =>
      match queue.heap msg with
      | none => none
      | some node => some (some msg,
          { queue with
            messageQueueHead := node.next
            messageQueueTail := if node.next = none then none else queue.messageQueueTail
            pendingMessageCount := queue.pendingMessageCount - 1 })

/-! ## The list of pending messages -/

/-- The queue holds these messages, in order. -/
structure MessageQueue.Holds (queue : MessageQueue) (messages : List PendingMessage) : Prop where
  represents : Represents queue.heap queue.messageQueueHead queue.messageQueueTail messages
  count : queue.pendingMessageCount = messages.length
  unused : ∀ address, queue.allocations ≤ address → queue.heap address = none

namespace MessageQueue.Holds

variable {queue : MessageQueue} {messages : List PendingMessage}

theorem initial : MessageQueue.initial.Holds [] where
  represents := Represents.empty _
  count := rfl
  unused := fun _ _ => rfl

/-- A queue holds one list. -/
theorem unique {others : List PendingMessage} (left : queue.Holds messages)
    (right : queue.Holds others) : messages = others :=
  left.represents.unique right.represents

/-- **A successful `enqueue_message` appends the message.** -/
theorem enqueueMessage (holds : queue.Holds messages) (messageId body : Bytes) (bodyLen : ℕ)
    (timestamp : Int64) (attempts : UInt16) (delayTime : Int32) (autoFinish : Bool) :
    ∃ queue', enqueueMessage true true messageId body bodyLen timestamp attempts delayTime
        autoFinish queue = some queue' ∧
      queue'.Holds (messages ++
        [pendingMessage messageId body bodyLen timestamp attempts delayTime autoFinish]) := by
  have free := holds.unused _ (Nat.le_refl _)
  have count := holds.count
  have represents := holds.represents
  -- the new address is the last one in use, whatever else the heap holds
  have unused : ∀ address, queue.allocations + 1 ≤ address →
      ∀ msg, Function.update queue.heap queue.allocations (some ⟨msg, none⟩) address = none := by
    intro address bound msg
    rw [Function.update_of_ne (by omega), holds.unused address (by omega)]
  cases tail : queue.messageQueueTail with
  | none =>
      rw [tail] at represents
      obtain rfl := represents.tail_eq_none_iff.mp rfl
      refine ⟨_, by simp only [PhpNsq.enqueueMessage, tail]; rfl, ?_, ?_, ?_⟩
      · exact Represents.push_empty
      · simp [count]
      · exact fun address bound => unused address bound _
  | some last =>
      rw [tail] at represents
      obtain ⟨value, cell⟩ := represents.tail_cell
      have apart : last ≠ queue.allocations := by
        intro same
        rw [same, free] at cell
        cases cell
      refine ⟨_, by
        simp only [PhpNsq.enqueueMessage, tail, Function.update_of_ne apart, cell]; rfl, ?_, ?_, ?_⟩
      · exact represents.push cell free
      · simp [count]
      · intro address (bound : queue.allocations + 1 ≤ address)
        have below : address ≠ last := by
          intro same
          rw [← same, holds.unused address (by omega)] at cell
          cases cell
        exact (Function.update_of_ne below _ _).trans (unused address bound _)

/-- A failed allocation leaves the queue as it was. -/
theorem enqueueMessage_failed {nodeGranted bodyGranted : Bool}
    (failed : (nodeGranted && bodyGranted) = false) (messageId body : Bytes) (bodyLen : ℕ)
    (timestamp : Int64) (attempts : UInt16) (delayTime : Int32) (autoFinish : Bool) :
    PhpNsq.enqueueMessage nodeGranted bodyGranted messageId body bodyLen timestamp attempts delayTime
      autoFinish queue = some queue := by
  cases nodeGranted with
  | false => rfl
  | true =>
      obtain rfl : bodyGranted = false := failed
      rfl

/-- Dequeueing from the empty queue gives the null pointer. -/
theorem dequeueMessage_nil (holds : queue.Holds []) : dequeueMessage queue = some (none, queue) := by
  have head : queue.messageQueueHead = none := holds.represents.head_eq_none_iff.mpr rfl
  simp only [dequeueMessage, head]

/-- **`dequeue_message` takes the first message**, and freeing its node afterwards does not
touch the messages that stay. -/
theorem dequeueMessage {first : PendingMessage} (holds : queue.Holds (first :: messages)) :
    ∃ address next queue', dequeueMessage queue = some (some address, queue') ∧
      queue'.heap address = some ⟨first, next⟩ ∧ queue'.Holds messages ∧
      (queue'.free address).Holds messages := by
  obtain ⟨address, next, head, cell, rest, freed⟩ := holds.represents.pop
  have count : queue.pendingMessageCount - 1 = messages.length := by
    rw [holds.count]
    simp
  refine ⟨address, next,
    { queue with
      messageQueueHead := next
      messageQueueTail := if next = none then none else queue.messageQueueTail
      pendingMessageCount := queue.pendingMessageCount - 1 },
    by simp only [PhpNsq.dequeueMessage, head, cell], cell, ?_, ?_⟩
  · exact ⟨rest, count, holds.unused⟩
  · refine ⟨freed, count, fun other bound => ?_⟩
    by_cases same : other = address
    · simp [MessageQueue.free, same]
    · simpa [MessageQueue.free, Function.update_of_ne same] using holds.unused other bound

end MessageQueue.Holds

end PhpNsq
