import PhpNsq.Foundations.Blocks
import PhpNsq.Subscriber.Consumer
import PhpNsq.Subscriber.Isolation

/-!
# The memory of a consumer

What a consumer asks for, uses and gives back: the buffers of `readcb`, with the static `message`
among them, the copy of a body, and the nodes of the queue with their bodies, from
`enqueue_message` until `process_message_queue` has processed them. The operations are listed in the
order of the source, as far as a pass or a tick gets. The objects of libevent, which are not always
freed once, are left to the nested loops.

None of these blocks is freed twice or used after it was freed, whatever comes in, whichever
connections are lost and whichever `malloc`s fail. Two blocks are allocated for every message that
waits, and one more in the middle of a frame (`heap_account`). Besides those only the buffer of a
frame is left whose type has no branch, when one pass has opened it and completed it: `is_first` is
still set, and `message` gets another buffer. The frame may be the empty one that is read when
nothing is left, whose type is what the memory happens to hold.
-/

set_option autoImplicit false

namespace PhpNsq

open Foundations

/-- The pointers to blocks: the local of `conn_eventcb`, the locals and the static of `readcb`, and
for every node of the queue the one to it and the one to its body. -/
inductive Pointer where
  | v
  | msgSize
  | message
  | body
  | node (address : ℕ)
  | nodeBody (address : ℕ)
  deriving DecidableEq

abbrev HeapOp := BlockOp Pointer

/-- `enqueue_message`. -/
def enqueueOps (nodeGranted bodyGranted : Bool) (queue : MessageQueue) : List HeapOp :=
  let msg := queue.allocations
  if nodeGranted = false then []
  else if bodyGranted = false then
    [.alloc (.node msg), .touch (.node msg), .free (.node msg)]
  else
    [.alloc (.node msg), .touch (.node msg), .alloc (.nodeBody msg), .touch .body,
      .touch (.nodeBody msg), .touch (.node msg)] ++
      (queue.messageQueueTail.map fun tail => .touch (.node tail)).toList

/-- `process_message_queue`. -/
def tickOps (queue : MessageQueue) : List HeapOp :=
  match queue.messageQueueHead with
  | none => []
  | some msg =>
      [.touch (.node msg), .touch (.node msg), .touch (.nodeBody msg), .free (.nodeBody msg),
        .free (.node msg)]

/-- The branch of `conn_eventcb` for `BEV_EVENT_CONNECTED`, besides `send_identify`. -/
def connectedOps : List HeapOp := [.alloc .v, .touch .v, .touch .v, .free .v]

namespace ReadState

variable (malloc : Malloc) (memory : Memory) (s : ReadState)

/-- The block under `if (is_first)`. -/
def openOps : List HeapOp :=
  [.alloc .msgSize, .touch .msgSize, .alloc .message, .touch .message, .free .msgSize]

/-- The branch of frame type 2. -/
def messageOps : List HeapOp :=
  if s.msg.size < 29 ∨ (malloc s.dispatched).body = false then [.touch .message, .free .message]
  else
    [.touch .message, .alloc .body, .touch .body, .touch .message] ++
      enqueueOps (malloc s.dispatched).node (malloc s.dispatched).nodeBody s.queue ++
      [.free .body, .free .message]

/-- From the frame type on. -/
def dispatchOps : List HeapOp :=
  .touch .message ::
    if readI32 s.message = 0 then [.free .message]
    else if readI32 s.message = 2 then s.messageOps malloc
    else []

/-- From the body read on. -/
def collectOps : List HeapOp :=
  .touch .message ::
    match s.readBody with
    | .error _ => []
    | .ok read =>
        if read.l < read.msg.size then []
        else if read.l = read.msg.size then read.dispatchOps malloc
        else [.free .message]

/-- One pass. -/
def heapOps : List HeapOp :=
  if s.isFirst = true then
    match s.openBuffer memory with
    | .error _ => []
    | .ok opened => openOps ++ opened.collectOps malloc
  else s.collectOps malloc

/-- The frame is complete, and its type has no branch. -/
def completesOther : Bool :=
  match s.readBody with
  | .error _ => false
  | .ok read =>
      decide (read.l = read.msg.size ∧ readI32 read.message ≠ 0 ∧ readI32 read.message ≠ 2)

/-- So it is in the pass that opened its buffer. -/
def skips : Bool :=
  s.isFirst &&
    match s.openBuffer memory with
    | .error _ => false
    | .ok opened => opened.completesOther

end ReadState

/-- What is done with memory, and how many frames were skipped. -/
structure Work where
  ops : List HeapOp
  skipped : ℕ

/-- A call of `readcb` with its work, pass by pass. -/
inductive CallWork (malloc : Malloc) (memory : Memory) : ReadState → Work → ReadState → Prop where
  | leaves {s t : ReadState} (pass : s.pass malloc memory = .leave (.ok t)) :
      CallWork malloc memory s ⟨s.heapOps malloc memory, (s.skips memory).toNat⟩ t
  | again {s u t : ReadState} {work : Work} (pass : s.pass malloc memory = .again u)
      (rest : CallWork malloc memory u work t) :
      CallWork malloc memory s
        ⟨s.heapOps malloc memory ++ work.ops, (s.skips memory).toNat + work.skipped⟩ t

/-- The events of a consumer with their work. -/
def Works (malloc : Malloc) (nsqConfig : Option Bytes) (c : Consumer) :
    ConsumerEvent × Work → Consumer → Prop
  | (.received call, work), c' => c.link = .up ∧ ∃ read,
      CallWork malloc call.memory (c.read.receive call.chunk) work read ∧
      c' = { c with read := read, calls := c.calls ++ [call] }
  | (.tick run, work), c' => c.tick run = some c' ∧ work = ⟨tickOps c.read.queue, 0⟩
  | (.connected, work), c' => c.connected nsqConfig = some c' ∧ work = ⟨connectedOps, 0⟩
  | (.lost reason outcome, work), c' => c.lost reason outcome = some c' ∧ work = ⟨[], 0⟩

/-! ## The pointers that own a block -/

/-- The static `message`, and the pointers of the nodes. -/
def owned (message : Bool) (nodes : Finset ℕ) : Finset Pointer :=
  (if message then {.message} else ∅) ∪ (nodes.image .node ∪ nodes.image .nodeBody)

section Owned

variable {message : Bool} {nodes : Finset ℕ} {address : ℕ}

@[simp] theorem v_not_mem_owned : Pointer.v ∉ owned message nodes := by
  cases message <;> simp [owned]

@[simp] theorem msgSize_not_mem_owned : Pointer.msgSize ∉ owned message nodes := by
  cases message <;> simp [owned]

@[simp] theorem body_not_mem_owned : Pointer.body ∉ owned message nodes := by
  cases message <;> simp [owned]

@[simp] theorem message_mem_owned : Pointer.message ∈ owned message nodes ↔ message = true := by
  cases message <;> simp [owned]

@[simp] theorem node_mem_owned : Pointer.node address ∈ owned message nodes ↔ address ∈ nodes := by
  cases message <;> simp [owned]

@[simp] theorem nodeBody_mem_owned :
    Pointer.nodeBody address ∈ owned message nodes ↔ address ∈ nodes := by
  cases message <;> simp [owned]

/-- Two blocks for every node. -/
theorem card_owned (message : Bool) (nodes : Finset ℕ) :
    (owned message nodes).card = message.toNat + 2 * nodes.card := by
  have apart : Disjoint (nodes.image Pointer.node) (nodes.image Pointer.nodeBody) := by
    simp [Finset.disjoint_left]
  have pairs : (nodes.image Pointer.node ∪ nodes.image Pointer.nodeBody).card = 2 * nodes.card := by
    rw [Finset.card_union_of_disjoint apart,
      Finset.card_image_of_injective _ fun _ _ same => Pointer.node.inj same,
      Finset.card_image_of_injective _ fun _ _ same => Pointer.nodeBody.inj same]
    omega
  cases message with
  | false => simpa [owned] using pairs
  | true =>
      have alone : Disjoint {Pointer.message}
          (nodes.image Pointer.node ∪ nodes.image Pointer.nodeBody) := by
        simp
      rw [owned, if_pos rfl, Finset.card_union_of_disjoint alone, pairs, Finset.card_singleton]
      rfl

theorem owned_insert_message (nodes : Finset ℕ) :
    insert .message (owned false nodes) = owned true nodes := by
  ext pointer
  cases pointer <;> simp

theorem owned_erase_message (nodes : Finset ℕ) :
    (owned true nodes).erase .message = owned false nodes := by
  ext pointer
  cases pointer <;> simp

end Owned

/-! ## The operations of a pass -/

section Ledgers

variable {message : Bool} {nodes : Finset ℕ} (lost : ℕ)

theorem ledger_connectedOps : Ledger.performAll ⟨owned message nodes, lost⟩ connectedOps =
    some ⟨owned message nodes, lost⟩ := by
  have own : Pointer.v ∈ insert Pointer.v (owned message nodes) := Finset.mem_insert_self ..
  rw [connectedOps, Ledger.performAll_alloc v_not_mem_owned, Ledger.performAll_touch own,
    Ledger.performAll_touch own, Ledger.performAll_free own, Ledger.performAll_nil,
    Finset.erase_insert v_not_mem_owned]

/-- A buffer is opened. When `message` led to another one, that one is lost. -/
theorem ledger_openOps : Ledger.performAll ⟨owned message nodes, lost⟩ ReadState.openOps =
    some ⟨owned true nodes, lost + message.toNat⟩ := by
  have own : Pointer.msgSize ∈ insert Pointer.msgSize (owned message nodes) :=
    Finset.mem_insert_self ..
  rw [ReadState.openOps, Ledger.performAll_alloc msgSize_not_mem_owned, Ledger.performAll_touch own]
  cases message with
  | false =>
      have fresh : Pointer.message ∉ insert Pointer.msgSize (owned false nodes) := by simp
      rw [Ledger.performAll_alloc fresh, Ledger.performAll_touch (Finset.mem_insert_self ..),
        Ledger.performAll_free (Finset.mem_insert_of_mem own), Ledger.performAll_nil,
        Finset.insert_comm, owned_insert_message, Finset.erase_insert msgSize_not_mem_owned]
      rfl
  | true =>
      have held : Pointer.message ∈ insert Pointer.msgSize (owned true nodes) := by simp
      rw [Ledger.performAll_realloc held, Ledger.performAll_touch held,
        Ledger.performAll_free own, Ledger.performAll_nil,
        Finset.erase_insert msgSize_not_mem_owned]
      rfl

/-- The queue lives in these nodes, one for each message. -/
structure MessageQueue.Stores (queue : MessageQueue) (nodes : Finset ℕ) : Prop where
  cells : ∀ address, address ∈ nodes ↔ (queue.heap address).isSome
  holds : ∃ waiting, queue.Holds waiting ∧ waiting.length = nodes.card

/-- The last node is there. -/
theorem MessageQueue.Stores.tail {queue : MessageQueue} (stores : queue.Stores nodes) {last : ℕ}
    (ends : queue.messageQueueTail = some last) : last ∈ nodes := by
  obtain ⟨waiting, holds, -⟩ := stores.holds
  have represents := holds.represents
  rw [ends] at represents
  obtain ⟨value, cell⟩ := represents.tail_cell
  exact (stores.cells last).mpr (Option.isSome_of_eq_some cell)

/-- `enqueue_message` takes the next cell, and no other. -/
theorem cells_enqueueMessage {queue queue' : MessageQueue} {messageId body : Bytes} {bodyLen : ℕ}
    {timestamp : Int64} {attempts : UInt16} {delayTime : Int32} {autoFinish : Bool}
    (enqueued : enqueueMessage true true messageId body bodyLen timestamp attempts delayTime
      autoFinish queue = some queue') (address : ℕ) :
    (queue'.heap address).isSome ↔
      address = queue.allocations ∨ (queue.heap address).isSome := by
  have updated : ∀ (heap : Heap PendingMessage) (place : ℕ) (cell : Cell PendingMessage),
      (Function.update heap place (some cell) address).isSome ↔
        address = place ∨ (heap address).isSome := by
    intro heap place cell
    by_cases here : address = place
    · simp [here]
    · simp [here]
  rw [enqueueMessage, if_neg (by decide), if_neg (by decide)] at enqueued
  split at enqueued
  · next tail ends =>
      dsimp only at enqueued
      split at enqueued
      · next last cell =>
          obtain rfl := Option.some.inj enqueued
          refine (updated _ _ _).trans ?_
          rw [updated, or_iff_right_of_imp]
          -- the cell of the tail was there
          rintro rfl
          exact (updated _ _ _).mp (Option.isSome_of_eq_some cell)
      · cases enqueued
  · obtain rfl := Option.some.inj enqueued
    exact updated _ _ _

/-- `enqueue_message`, with a copy of the body at hand. -/
theorem ledger_enqueueOps (message : Bool) {queue queue' : MessageQueue} (stores : queue.Stores nodes)
    {nodeGranted bodyGranted : Bool} {messageId body : Bytes} {bodyLen : ℕ} {timestamp : Int64}
    {attempts : UInt16} {delayTime : Int32} {autoFinish : Bool}
    (enqueued : enqueueMessage nodeGranted bodyGranted messageId body bodyLen timestamp attempts
      delayTime autoFinish queue = some queue') :
    ∃ nodes', queue'.Stores nodes' ∧
      Ledger.performAll ⟨insert .body (owned message nodes), lost⟩
          (enqueueOps nodeGranted bodyGranted queue) =
        some ⟨insert .body (owned message nodes'), lost⟩ := by
  obtain ⟨waiting, holds, length⟩ := stores.holds
  have unused : queue.allocations ∉ nodes := by
    rw [stores.cells, holds.unused _ le_rfl]
    exact Bool.false_ne_true
  have fresh : Pointer.node queue.allocations ∉ insert Pointer.body (owned message nodes) := by
    simpa using unused
  cases nodeGranted with
  | false =>
      obtain rfl := Option.some.inj enqueued
      exact ⟨nodes, stores, rfl⟩
  | true =>
      cases bodyGranted with
      | false =>
          obtain rfl := Option.some.inj enqueued
          refine ⟨nodes, stores, ?_⟩
          have own := Finset.mem_insert_self (Pointer.node queue.allocations)
            (insert Pointer.body (owned message nodes))
          change Ledger.performAll _ [_, _, _] = _
          rw [Ledger.performAll_alloc fresh, Ledger.performAll_touch own,
            Ledger.performAll_free own, Ledger.performAll_nil, Finset.erase_insert fresh]
      | true =>
          obtain ⟨other, same, held⟩ :=
            holds.enqueueMessage messageId body bodyLen timestamp attempts delayTime autoFinish
          obtain rfl := Option.some.inj (same.symm.trans enqueued)
          refine ⟨insert queue.allocations nodes, ⟨fun address => ?_, _, held, ?_⟩, ?_⟩
          · rw [Finset.mem_insert, stores.cells, cells_enqueueMessage enqueued]
          · rw [List.length_append, length, Finset.card_insert_of_notMem unused]
            rfl
          · have unused_body : Pointer.nodeBody queue.allocations ∉
                insert (Pointer.node queue.allocations)
                  (insert Pointer.body (owned message nodes)) := by
              simpa using unused
            have result : insert (Pointer.nodeBody queue.allocations)
                (insert (Pointer.node queue.allocations)
                  (insert Pointer.body (owned message nodes))) =
                insert Pointer.body (owned message (insert queue.allocations nodes)) := by
              ext pointer
              cases pointer <;> simp
            change Ledger.performAll _ (_ :: _ :: _ :: _ :: _ :: _ :: _) = _
            rw [Ledger.performAll_alloc fresh,
              Ledger.performAll_touch (Finset.mem_insert_self ..),
              Ledger.performAll_alloc unused_body, result,
              Ledger.performAll_touch (by simp), Ledger.performAll_touch (by simp),
              Ledger.performAll_touch (by simp)]
            cases ends : queue.messageQueueTail with
            | none => rfl
            | some tail =>
                have there := stores.tail ends
                exact Ledger.performAll_touch (by simp [there])

end Ledgers

/-! ## What a pass leaves -/

namespace ReadState

variable {malloc : Malloc} {memory : Memory} {s t : ReadState} {nodes : Finset ℕ} (lost : ℕ)

/-- How a pass that has `message` ends, given whether the frame is complete and has no branch: it
leaves with the buffer when the frame is not complete, it goes round again without it, or it has not
freed it. -/
inductive Leaves (other : Bool) (s : ReadState) :
    Next ReadState (Except Fault ReadState) → Bool → ReadState → Prop where
  | leave {t : ReadState} (known : other = false) : Leaves other s (.leave (.ok t)) (!t.isFirst) t
  | again {t : ReadState} (first : t.isFirst = true) (known : other = false) :
      Leaves other s (.again t) false t
  | skip {t : ReadState} (same : t.isFirst = s.isFirst) (unknown : other = true) :
      Leaves other s (.again t) true t

namespace Leaves

variable {other message : Bool} {next : Next ReadState (Except Fault ReadState)}

theorem of_isFirst (leaves : Leaves other s next message t) {u : ReadState}
    (same : s.isFirst = u.isFirst) : Leaves other u next message t := by
  cases leaves with
  | leave known => exact .leave known
  | again first known => exact .again first known
  | skip kept unknown => exact .skip (kept.trans same) unknown

/-- In the middle of a frame there is a buffer. -/
theorem middle (leaves : Leaves other s next message t) (middle : t.isFirst = false) :
    message = true := by
  cases leaves with
  | leave known => rw [middle, Bool.not_false]
  | again first known =>
      rw [first] at middle
      cases middle
  | skip same unknown => rfl

/-- No buffer is left over when the frame was not opened in this pass. -/
theorem pending_of_middle (leaves : Leaves other s next message t) (first : s.isFirst = false) :
    (t.isFirst && message) = false := by
  cases leaves with
  | leave known => exact Bool.and_not_self _
  | again first known => exact Bool.and_false _
  | skip same unknown => rw [same, first, Bool.false_and]

/-- One is when it was, and was skipped. -/
theorem pending_of_first (leaves : Leaves other s next message t) (first : s.isFirst = true) :
    (t.isFirst && message) = other := by
  cases leaves with
  | leave known => rw [known, Bool.and_not_self]
  | again first known => rw [known, Bool.and_false]
  | skip same unknown => rw [same, first, unknown, Bool.true_and]

theorem left (leaves : Leaves other s next message t) (leave : next = .leave (.ok t)) :
    message = !t.isFirst := by
  cases leaves with
  | leave known => rfl
  | again first known => cases leave
  | skip same unknown => cases leave

end Leaves

/-- The branch of frame type 2. -/
theorem ledger_messageOps (yields : Yields (s.dispatchMessage malloc) t)
    (stores : s.queue.Stores nodes) :
    t.isFirst = true ∧ t.l = 0 ∧ s.dispatchMessage malloc = .again t ∧ ∃ nodes',
      t.queue.Stores nodes' ∧
      Ledger.performAll ⟨owned true nodes, lost⟩ (s.messageOps malloc) =
        some ⟨owned false nodes', lost⟩ := by
  have held : Pointer.message ∈ owned true nodes := by simp
  have freed : Ledger.performAll ⟨owned true nodes, lost⟩ [.touch .message, .free .message] =
      some ⟨owned false nodes, lost⟩ := by
    rw [Ledger.performAll_touch held, Ledger.performAll_free held, Ledger.performAll_nil,
      owned_erase_message]
  rw [dispatchMessage] at yields ⊢
  by_cases short : s.msg.size < 29
  · rw [if_pos short] at yields ⊢
    obtain rfl := yields_again.mp yields
    exact ⟨rfl, rfl, rfl, nodes, stores, by rw [messageOps, if_pos (.inl short), freed]⟩
  by_cases refused : (malloc s.dispatched).body = false
  · simp only [if_neg short, if_pos refused] at yields ⊢
    obtain rfl := yields_again.mp yields
    exact ⟨rfl, rfl, rfl, nodes, stores, by rw [messageOps, if_pos (.inr refused), freed]⟩
  by_cases negative : s.msg.size = 29
  · simp only [if_neg short, if_neg refused, if_pos negative] at yields
    exact absurd yields not_yields_error
  simp only [if_neg short, if_neg refused, if_neg negative] at yields ⊢
  split at yields
  · exact absurd yields not_yields_error
  · next queue enqueued =>
      obtain rfl := yields_again.mp yields
      obtain ⟨nodes', stores', kept⟩ := ledger_enqueueOps lost true stores enqueued
      refine ⟨rfl, rfl, rfl, nodes', stores', ?_⟩
      rw [messageOps, if_neg (not_or.mpr ⟨short, refused⟩), Ledger.performAll_append,
        Ledger.performAll_append]
      have copied : Ledger.performAll ⟨owned true nodes, lost⟩
          [.touch .message, .alloc .body, .touch .body, .touch .message] =
          some ⟨insert .body (owned true nodes), lost⟩ := by
        rw [Ledger.performAll_touch held, Ledger.performAll_alloc body_not_mem_owned,
          Ledger.performAll_touch (Finset.mem_insert_self ..),
          Ledger.performAll_touch (Finset.mem_insert_of_mem held), Ledger.performAll_nil]
      have given : Ledger.performAll ⟨insert .body (owned true nodes'), lost⟩
          [.free .body, .free .message] = some ⟨owned false nodes', lost⟩ := by
        have held' : Pointer.message ∈ owned true nodes' := by simp
        rw [Ledger.performAll_free (Finset.mem_insert_self ..),
          Finset.erase_insert body_not_mem_owned, Ledger.performAll_free held',
          Ledger.performAll_nil, owned_erase_message]
      rw [copied, Option.bind_some, kept, Option.bind_some, given]

/-- The frame type that is noted changes nothing for the branch. -/
theorem messageOps_frameType (malloc : Malloc) (s : ReadState) (frameType : ℤ) :
    messageOps malloc { s with msg := { s.msg with frameType := frameType } } =
      s.messageOps malloc :=
  rfl

/-- From the frame type on. -/
theorem ledger_dispatchOps (stores : s.queue.Stores nodes) (positive : 0 ≤ s.l)
    (yields : Yields (s.dispatch malloc) t) :
    0 ≤ t.l ∧ ∃ nodes' message, t.queue.Stores nodes' ∧
      Leaves (decide (readI32 s.message ≠ 0 ∧ readI32 s.message ≠ 2)) s (s.dispatch malloc) message
        t ∧
      Ledger.performAll ⟨owned true nodes, lost⟩ (s.dispatchOps malloc) =
        some ⟨owned message nodes', lost⟩ := by
  have held : Pointer.message ∈ owned true nodes := by simp
  have freed : Ledger.performAll ⟨owned true nodes, lost⟩ [.free .message] =
      some ⟨owned false nodes, lost⟩ := by
    rw [Ledger.performAll_free held, Ledger.performAll_nil, owned_erase_message]
  rw [dispatch] at yields ⊢
  rw [dispatchOps, Ledger.performAll_touch held]
  by_cases response : readI32 s.message = 0
  · rw [dispatchOn, if_pos response, dispatchResponse] at yields ⊢
    rw [if_pos response, freed]
    have known : decide (readI32 s.message ≠ 0 ∧ readI32 s.message ≠ 2) = false := by
      simp [response]
    rw [known]
    split at yields
    · next some_size =>
        obtain rfl := yields_again.mp yields
        rw [if_pos some_size]
        exact ⟨le_rfl, nodes, false, stores, .again rfl rfl, rfl⟩
    · next no_size =>
        obtain rfl := yields_ok.mp yields
        rw [if_neg no_size]
        exact ⟨le_rfl, nodes, false, stores, .leave rfl, rfl⟩
  by_cases business : readI32 s.message = 2
  · rw [dispatchOn, if_neg response, if_pos business] at yields ⊢
    rw [if_neg response, if_pos business]
    have known : decide (readI32 s.message ≠ 0 ∧ readI32 s.message ≠ 2) = false := by
      simp [business]
    rw [known]
    obtain ⟨first, zero, again, nodes', stores', kept⟩ := ledger_messageOps lost yields stores
    rw [again]
    exact ⟨zero.ge, nodes', false, stores', .again first rfl,
      messageOps_frameType malloc s (readI32 s.message) ▸ kept⟩
  · rw [dispatchOn, if_neg response, if_neg business] at yields ⊢
    rw [if_neg response, if_neg business]
    have unread : ¬ s.l = -1 := by omega
    have unknown : decide (readI32 s.message ≠ 0 ∧ readI32 s.message ≠ 2) = true := by
      simp [response, business]
    rw [unknown]
    simp only [if_neg unread] at yields ⊢
    obtain rfl := yields_again.mp yields
    exact ⟨positive, nodes, true, stores, .skip rfl rfl, rfl⟩

/-- From the body read on. -/
theorem ledger_collectOps (stores : s.queue.Stores nodes) (positive : 0 ≤ s.l)
    (yields : Yields (s.collect malloc) t) :
    0 ≤ t.l ∧ ∃ nodes' message, t.queue.Stores nodes' ∧
      Leaves s.completesOther s (s.collect malloc) message t ∧
      Ledger.performAll ⟨owned true nodes, lost⟩ (s.collectOps malloc) =
        some ⟨owned message nodes', lost⟩ := by
  have held : Pointer.message ∈ owned true nodes := by simp
  rw [collectOps, Ledger.performAll_touch held]
  cases body : s.readBody with
  | error fault =>
      rw [collect, body] at yields
      exact absurd yields not_yields_error
  | ok read =>
      have kept : read.queue = s.queue ∧ read.isFirst = s.isFirst ∧ s.l ≤ read.l := by
        rw [readBody] at body
        split at body
        · cases body
        · obtain rfl := Except.ok.inj body
          exact ⟨rfl, rfl, Int.le_add_of_nonneg_right (Int.natCast_nonneg _)⟩
      have stores' : read.queue.Stores nodes := kept.1 ▸ stores
      have positive' : 0 ≤ read.l := positive.trans kept.2.2
      rw [collect_of_readBody body] at yields ⊢
      simp only [completesOther, body]
      by_cases partly : read.l < read.msg.size
      · rw [if_pos partly] at yields ⊢
        rw [if_pos partly]
        obtain rfl := yields_ok.mp yields
        exact ⟨positive', nodes, true, stores', .leave (by simp [partly.ne]), rfl⟩
      rw [if_neg partly] at yields ⊢
      rw [if_neg partly]
      by_cases whole : read.l = read.msg.size
      · rw [if_pos whole] at yields ⊢
        rw [if_pos whole]
        obtain ⟨positive'', nodes', message, stores'', leaves, account⟩ :=
          ledger_dispatchOps lost stores' positive' yields
        refine ⟨positive'', nodes', message, stores'', ?_, account⟩
        simp only [whole, true_and]
        exact leaves.of_isFirst kept.2.1
      · rw [if_neg whole] at yields ⊢
        rw [if_neg whole]
        obtain rfl := yields_ok.mp yields
        refine ⟨le_rfl, nodes, false, stores', .leave (by simp [whole]), ?_⟩
        rw [Ledger.performAll_free held, Ledger.performAll_nil, owned_erase_message]

/-- **One pass.** The buffer that `message` led to is lost when the pass opens another one. Between
the passes `message` leads to a buffer in the middle of a frame; and in between frames it does so
after a pass that has skipped one, and only then. -/
theorem ledger_heapOps {message : Bool} (stores : s.queue.Stores nodes) (positive : 0 ≤ s.l)
    (middle : s.isFirst = false → message = true) (yields : Yields (s.pass malloc memory) t) :
    0 ≤ t.l ∧ ∃ nodes' message', t.queue.Stores nodes' ∧
      (t.isFirst = false → message' = true) ∧ (t.isFirst && message') = s.skips memory ∧
      (s.pass malloc memory = .leave (.ok t) → message' = !t.isFirst) ∧
      Ledger.performAll ⟨owned message nodes, lost⟩ (s.heapOps malloc memory) =
        some ⟨owned message' nodes', lost + (s.isFirst && message).toNat⟩ := by
  cases first : s.isFirst with
  | false =>
      obtain rfl := middle first
      rw [pass_of_not_first first] at yields ⊢
      obtain ⟨positive', nodes', message', stores', leaves, account⟩ :=
        ledger_collectOps lost stores positive yields
      have skips : s.skips memory = false := by rw [skips, first, Bool.false_and]
      have ops : s.heapOps malloc memory = s.collectOps malloc := by simp [heapOps, first]
      rw [skips, ops]
      exact ⟨positive', nodes', message', stores', leaves.middle, leaves.pending_of_middle first,
        leaves.left, account⟩
  | true =>
      cases opens : s.openBuffer memory with
      | error fault =>
          rw [pass, if_pos first, opens] at yields
          exact absurd yields not_yields_error
      | ok opened =>
          have kept : opened.queue = s.queue ∧ opened.isFirst = s.isFirst ∧ opened.l = s.l := by
            rw [openBuffer] at opens
            dsimp only at opens
            split at opens
            · cases opens
            · obtain rfl := Except.ok.inj opens
              exact ⟨rfl, rfl, rfl⟩
          rw [pass_of_openBuffer first opens] at yields ⊢
          obtain ⟨positive', nodes', message', stores', leaves, account⟩ :=
            ledger_collectOps (lost + message.toNat) (kept.1 ▸ stores) (kept.2.2 ▸ positive)
              yields
          have skips : s.skips memory = opened.completesOther := by
            rw [skips, first, opens, Bool.true_and]
          have ops : s.heapOps malloc memory = openOps ++ opened.collectOps malloc := by
            simp [heapOps, first, opens]
          rw [skips, ops, Ledger.performAll_append, ledger_openOps, Bool.true_and]
          exact ⟨positive', nodes', message', stores', leaves.middle,
            leaves.pending_of_first (kept.2.1.trans first), leaves.left, account⟩

end ReadState

/-! ## A call and a tick -/

section Steps

variable {malloc : Malloc} {memory : Memory} {s t : ReadState} {nodes : Finset ℕ} (lost : ℕ)

/-- Every call that returns has its work. -/
theorem exists_callWork (exit : Exits (ReadState.pass malloc memory) s (.ok t)) :
    ∃ work, CallWork malloc memory s work t := by
  obtain ⟨last, passes, leaves⟩ := exit.passes
  clear exit
  induction passes using Relation.ReflTransGen.head_induction_on with
  | refl => exact ⟨_, .leaves leaves⟩
  | head again _ ih =>
      obtain ⟨work, rest⟩ := ih
      exact ⟨_, .again again rest⟩

/-- And the work is that of a call that returns. -/
theorem CallWork.exits {work : Work} (call : CallWork malloc memory s work t) :
    Exits (ReadState.pass malloc memory) s (.ok t) := by
  induction call with
  | leaves pass => exact (exits_of_leave pass).mpr rfl
  | again pass _ ih => exact (exits_of_again pass).mpr ih

/-- **A call**, from any pass on. What it loses is a buffer that is left over before it, and one for
every frame that it skips. -/
theorem CallWork.account {work : Work} (call : CallWork malloc memory s work t) {message : Bool}
    (stores : s.queue.Stores nodes) (positive : 0 ≤ s.l)
    (middle : s.isFirst = false → message = true) :
    0 ≤ t.l ∧ ∃ nodes', t.queue.Stores nodes' ∧
      Ledger.performAll ⟨owned message nodes, lost⟩ work.ops =
        some ⟨owned (!t.isFirst) nodes', lost + (s.isFirst && message).toNat + work.skipped⟩ := by
  induction call generalizing message nodes lost with
  | leaves pass =>
      obtain ⟨positive', nodes', message', stores', -, pending, left, account⟩ :=
        ReadState.ledger_heapOps lost stores positive middle (.inr pass)
      obtain rfl := left pass
      rw [Bool.and_not_self] at pending
      rw [account, ← pending]
      exact ⟨positive', nodes', stores', rfl⟩
  | again pass _ ih =>
      obtain ⟨positive', nodes', message', stores', middle', pending, -, account⟩ :=
        ReadState.ledger_heapOps lost stores positive middle (.inl pass)
      obtain ⟨positive'', nodes'', stores'', rest⟩ := ih _ stores' positive' middle'
      refine ⟨positive'', nodes'', stores'', ?_⟩
      rw [Ledger.performAll_append, account, Option.bind_some, rest, pending, add_assoc,
        add_assoc]

/-- `dequeue_message` gives the head, and frees nothing. -/
theorem dequeueMessage_eq_some {queue queue' : MessageQueue} {msg : ℕ}
    (dequeued : dequeueMessage queue = some (some msg, queue')) :
    queue.messageQueueHead = some msg ∧ queue'.heap = queue.heap := by
  rw [dequeueMessage] at dequeued
  split at dequeued
  · cases dequeued
  · next head first =>
      split at dequeued
      · cases dequeued
      · obtain ⟨same, rfl⟩ := Prod.mk.inj (Option.some.inj dequeued)
        exact ⟨first.trans same, rfl⟩

/-- **A tick** frees the node of the message that it takes from the queue, with its body. -/
theorem ledger_tickOps {message : Bool} {rdy : Int32} {run : CallbackRun}
    {exception exception' : Bool} {queue queue' : MessageQueue} {effects : List Effect}
    (stores : queue.Stores nodes)
    (processed : processMessageQueue rdy run exception queue =
      some (effects, exception', queue')) :
    ∃ nodes', queue'.Stores nodes' ∧
      Ledger.performAll ⟨owned message nodes, lost⟩ (tickOps queue) =
        some ⟨owned message nodes', lost⟩ := by
  obtain ⟨waiting, holds, length⟩ := stores.holds
  cases waiting with
  | nil =>
      rw [holds.processMessageQueue_nil] at processed
      obtain ⟨-, same⟩ := Prod.mk.inj (Option.some.inj processed)
      obtain rfl := (Prod.mk.inj same).2
      have empty := holds.represents.head_eq_none_iff.mpr rfl
      exact ⟨nodes, stores, by rw [tickOps, empty, Ledger.performAll_nil]⟩
  | cons first rest =>
      obtain ⟨msg, next, left, dequeued, cell, -, freed⟩ := holds.dequeueMessage
      obtain ⟨head, heap⟩ := dequeueMessage_eq_some dequeued
      obtain rfl : left.free msg = queue' := by
        simp only [processMessageQueue, dequeued, cell] at processed
        split at processed
        · cases processed
        · split at processed
          · cases processed
          · exact (Prod.mk.inj (Prod.mk.inj (Option.some.inj processed)).2).2
      have there : msg ∈ nodes := by
        rw [stores.cells, ← heap, cell]
        rfl
      refine ⟨nodes.erase msg, ⟨fun address => ?_, rest, freed, ?_⟩, ?_⟩
      · by_cases same : address = msg
        · simp [same, MessageQueue.free]
        · rw [Finset.mem_erase, stores.cells, and_iff_right same, ← heap]
          simp [MessageQueue.free, Function.update_of_ne same]
      · have fewer := Finset.card_erase_add_one there
        rw [List.length_cons] at length
        omega
      · have node : Pointer.node msg ∈ owned message nodes := by simpa using there
        have body : Pointer.nodeBody msg ∈ owned message nodes := by simpa using there
        have result : ((owned message nodes).erase (.nodeBody msg)).erase (.node msg) =
            owned message (nodes.erase msg) := by
          ext pointer
          cases pointer <;> simp
        have kept : Pointer.node msg ∈ (owned message nodes).erase (.nodeBody msg) := by
          simpa using there
        rw [tickOps, head]
        change Ledger.performAll _ [_, _, _, _, _] = _
        rw [Ledger.performAll_touch node, Ledger.performAll_touch node,
          Ledger.performAll_touch body, Ledger.performAll_free body, Ledger.performAll_free kept,
          Ledger.performAll_nil, result]

end Steps

/-! ## Runs -/

/-- What a run does with memory. -/
def heapOpsOf (labels : List (ConsumerEvent × Work)) : List HeapOp :=
  labels.flatMap fun label => label.2.ops

/-- How many frames it skipped. -/
def framesSkipped (labels : List (ConsumerEvent × Work)) : ℕ :=
  (labels.map fun label => label.2.skipped).sum

section Runs

variable {malloc : Malloc} {nsqConfig : Option Bytes} {c c' last : Consumer}

theorem exists_work {event : ConsumerEvent} (step : Consumes malloc nsqConfig c event c') :
    ∃ work, Works malloc nsqConfig c (event, work) c' := by
  cases event with
  | connected => exact ⟨_, step, rfl⟩
  | received call =>
      obtain ⟨up, read, returns, rfl⟩ := step
      obtain ⟨work, did⟩ := exists_callWork returns
      exact ⟨work, up, read, did, rfl⟩
  | tick run => exact ⟨_, step, rfl⟩
  | lost reason outcome => exact ⟨_, step, rfl⟩

/-- Every run has its work. -/
theorem exists_works {events : List ConsumerEvent}
    (run : Run (Consumes malloc nsqConfig) c events last) :
    ∃ labels, labels.map Prod.fst = events ∧ Run (Works malloc nsqConfig) c labels last := by
  induction events generalizing c with
  | nil => exact ⟨[], rfl, run⟩
  | cons event events ih =>
      obtain ⟨next, one, more⟩ := run
      obtain ⟨work, did⟩ := exists_work one
      obtain ⟨labels, same, works⟩ := ih more
      exact ⟨(event, work) :: labels, by rw [List.map_cons, same], next, did, works⟩

/-- The ledger after some events: `message` owns a buffer in the middle of a frame, and every
message that waits has its node and its body. -/
def Consumer.Accounts (labels : List (ConsumerEvent × Work)) (c : Consumer) : Prop :=
  ∃ nodes, c.read.queue.Stores nodes ∧ 0 ≤ c.read.l ∧
    Ledger.start.performAll (heapOpsOf labels) =
      some ⟨owned (!c.read.isFirst) nodes, framesSkipped labels⟩

namespace Consumer.Accounts

variable {labels : List (ConsumerEvent × Work)} {work : Work}

theorem initial (msg : NSQMsg) : (Consumer.initial msg).Accounts [] :=
  ⟨∅, ⟨fun address => by simp [Consumer.initial, ReadState.initial, MessageQueue.initial],
    [], .initial, rfl⟩, le_rfl, rfl⟩

/-- The ledger goes on with the work of the next event. -/
theorem snoc (event : ConsumerEvent) {nodes nodes' : Finset ℕ} {message : Bool}
    (before : Ledger.start.performAll (heapOpsOf labels) =
      some ⟨owned message nodes, framesSkipped labels⟩)
    (stores : c'.read.queue.Stores nodes') (positive : 0 ≤ c'.read.l)
    (one : Ledger.performAll ⟨owned message nodes, framesSkipped labels⟩ work.ops =
      some ⟨owned (!c'.read.isFirst) nodes', framesSkipped labels + work.skipped⟩) :
    c'.Accounts (labels ++ [(event, work)]) := by
  refine ⟨nodes', stores, positive, ?_⟩
  have ops : heapOpsOf (labels ++ [(event, work)]) = heapOpsOf labels ++ work.ops := by
    rw [heapOpsOf, List.flatMap_append, List.flatMap_singleton]
    rfl
  have skipped : framesSkipped (labels ++ [(event, work)]) = framesSkipped labels + work.skipped := by
    rw [framesSkipped, List.map_append, List.sum_append, List.map_singleton, List.sum_singleton]
    rfl
  rw [ops, skipped, Ledger.performAll_append, before, Option.bind_some, one]

/-- **One event.** -/
theorem step {event : ConsumerEvent} (accounts : c.Accounts labels)
    (step : Works malloc nsqConfig c (event, work) c') :
    c'.Accounts (labels ++ [(event, work)]) := by
  obtain ⟨nodes, stores, positive, before⟩ := accounts
  cases event with
  | connected =>
      obtain ⟨opened, rfl⟩ := step
      obtain ⟨-, past, behind, -, rfl⟩ := Consumer.connected_cases opened
      exact snoc _ before stores positive (ledger_connectedOps _)
  | received call =>
      obtain ⟨-, read, did, rfl⟩ := step
      have middle : (c.read.receive call.chunk).isFirst = false → (!c.read.isFirst) = true := by
        intro middle
        rw [← ReadState.receive_isFirst call.chunk, middle, Bool.not_false]
      obtain ⟨positive', nodes', stores', account⟩ :=
        did.account (framesSkipped labels) stores positive middle
      rw [ReadState.receive_isFirst, Bool.and_not_self] at account
      exact snoc _ before stores' positive' account
  | tick run =>
      obtain ⟨ticked, rfl⟩ := step
      obtain ⟨effects, exception, queue, processed, -, rfl⟩ := Consumer.tick_cases ticked
      obtain ⟨nodes', stores', account⟩ := ledger_tickOps _ stores processed
      exact snoc _ before stores' positive account
  | lost reason outcome =>
      obtain ⟨gone, rfl⟩ := step
      obtain ⟨-, ⟨link, exception, -, rfl⟩ | rfl⟩ := Consumer.lost_cases gone
      · exact snoc _ before stores positive rfl
      · exact snoc _ before stores positive rfl

end Consumer.Accounts

end Runs

/-- **The memory of a consumer.** Whatever comes in, in whatever pieces, whichever `malloc`s fail
and whichever connections are lost: what the process does with the blocks of `readcb` and of the
queue has a result, so none of them is freed twice or used after it was freed. Allocated are then
the node and the body of every message that waits, the buffer of a frame that has come in partly,
and the buffers of the frames that were skipped. -/
theorem heap_account {malloc : Malloc} {nsqConfig : Option Bytes} {msg : NSQMsg}
    {events : List ConsumerEvent} {last : Consumer}
    (run : Run (Consumes malloc nsqConfig) (.initial msg) events last) :
    (∃ labels, labels.map Prod.fst = events ∧
      Run (Works malloc nsqConfig) (.initial msg) labels last) ∧
    ∀ labels, labels.map Prod.fst = events →
      Run (Works malloc nsqConfig) (.initial msg) labels last →
      ∃ blocks waiting, Blocks.start.performAll (heapOpsOf labels) = some blocks ∧
        last.read.queue.Holds waiting ∧
        blocks.live.card =
          2 * waiting.length + (!last.read.isFirst).toNat + framesSkipped labels := by
  refine ⟨exists_works run, fun labels _ works => ?_⟩
  obtain ⟨nodes, stores, -, account⟩ := works.invariant (fun labels c => c.Accounts labels)
    (fun _ _ _ _ here one => here.step one) (.initial msg)
  obtain ⟨waiting, holds, length⟩ := stores.holds
  obtain ⟨blocks, performed, keeps⟩ := Blocks.keeps_start.performAll account
  refine ⟨blocks, waiting, performed, holds, ?_⟩
  rw [keeps.count, card_owned, length, Nat.add_comm (2 * nodes.card)]

/-- A message waits when its connection is lost, and its two blocks are still there behind a
heartbeat on the next one. -/
theorem heap_account_cleanEvents :
    ∃ last, Run (Consumes granted none) (.initial settings) cleanEvents last ∧
      ∃ labels blocks, Run (Works granted none) (.initial settings) labels last ∧
        Blocks.start.performAll (heapOpsOf labels) = some blocks ∧
        blocks.live.card = 2 + framesSkipped labels := by
  obtain ⟨up, idle⟩ := (Consumer.Idle.initial settings).opened opening_settings
  obtain ⟨read, returns, idle⟩ := idle.received [greeting] (by decide)
  have new := idle.reconnect .connecting
  obtain ⟨up', idle⟩ := new.opened opening_settings
  obtain ⟨read', returns', idle⟩ := idle.received [heartbeat] (by decide)
  have run : Run (Consumes granted none) (.initial settings) cleanEvents _ :=
    ⟨_, up, _, ⟨rfl, read, returns, rfl⟩, _, rfl, _, up', _, ⟨rfl, read', returns', rfl⟩, rfl⟩
  obtain ⟨⟨labels, same, works⟩, account⟩ := heap_account run
  obtain ⟨blocks, waiting, performed, holds, count⟩ := account labels same works
  refine ⟨_, run, labels, blocks, works, performed, ?_⟩
  obtain rfl := idle.holds.unique holds
  have between : read'.isFirst = true := idle.tracks.1
  rw [between] at count
  exact count

end PhpNsq
