import PhpNsq.Foundations.Blocks
import PhpNsq.Publisher.Publish
import PhpNsq.Publisher.ReadSchedules

/-!
# The buffers of the reply loops

`publish` and `deferredPublish` read into `msg_size_char`, which they keep over all frames, and into
a new `message` for every frame. A heartbeat is answered before its `message` is freed.
`send_identify` frees `msg_size_char` as soon as it has the size, and its `identify_command` and the
text of the configuration at the end.

Along every run of `publish` and `deferredPublish` nothing is freed twice or used after it was freed,
and what is allocated depends on the call of the system alone that the process is at. So a call gives
back all that it asked for, on every way out. `send_identify` gives back more: behind its own
buffers it releases a reference to the configuration, which belongs to the property. An array that is
counted is gone after as many calls as there were references to it, and the next call uses what was
freed (`reply_buffers`).
-/

set_option autoImplicit false

namespace PhpNsq

open Foundations

/-- The pointers of the reply loops, with the configuration that the property leads to and its JSON
text. -/
inductive ReplyPointer where
  | identifyCommand
  | msgSizeChar
  | message
  | nsqConfig
  | json
  deriving DecidableEq

/-- Behind the body loop of `publish` and `deferredPublish`, up to the `send` of an answer. -/
def Verdict.heapOps : Verdict → List (BlockOp ReplyPointer)
  | .ok => [.free .message, .free .msgSizeChar]
  | .heartbeat => []
  | .other => [.free .message, .free .msgSizeChar]

/-- What `publish` and `deferredPublish` do behind a `read`. Another prefix is read into the old
buffer, which is cleared again. -/
def Reader.heapOps : Reader → Next Reader Reply → List (BlockOp ReplyPointer)
  | .againRead, .again .againRead => [.touch .msgSizeChar, .touch .msgSizeChar]
  | .againRead, .again (.again _ _ _) =>
      [.touch .msgSizeChar, .touch .msgSizeChar, .alloc .message, .touch .message]
  | .againRead, .leave _ => [.touch .msgSizeChar, .free .msgSizeChar]
  | .again _ _ _, .again _ => [.touch .message]
  | .again _ _ _, .leave (.collected _ _ message) =>
      .touch .message :: .touch .message :: (verdict message).heapOps
  | .again _ _ _, .leave _ => [.touch .message]

/-! ## Where a reader goes -/

namespace Reader

variable {code : ReaderCode} {contents message : Cells UInt8} {answer : ReadAnswer} {l msgSize : ℤ}

/-- The body loop stays in the body, or leaves with it. -/
theorem afterBody_cases (code : ReaderCode) (l msgSize : ℤ) (message : Cells UInt8) :
    afterBody code l msgSize message = .again (.again l msgSize message) ∨
      afterBody code l msgSize message = .leave (.collected l msgSize message) := by
  rw [afterBody]
  split
  · exact .inl rfl
  · exact .inr rfl

theorem step_body_cases (code : ReaderCode) (contents : Cells UInt8) (l msgSize : ℤ)
    (message : Cells UInt8) (answer : ReadAnswer) :
    (∃ l' message', step code contents (.again l msgSize message) answer =
        .again (.again l' msgSize message')) ∨
      (∃ l' message', step code contents (.again l msgSize message) answer =
        .leave (.collected l' msgSize message')) ∨
      step code contents (.again l msgSize message) answer = .leave (.fault .heapOverflow) := by
  cases answer with
  | notYet =>
      rcases afterBody_cases code (l - 1) msgSize message with again | leave
      · exact .inl ⟨_, _, again⟩
      · exact .inr (.inl ⟨_, _, leave⟩)
  | got data =>
      rw [step]
      split
      · exact .inr (.inr rfl)
      · rcases afterBody_cases code (l + data.length) msgSize (message.store l.toNat data)
          with again | leave
        · exact .inl ⟨_, _, again⟩
        · exact .inr (.inl ⟨_, _, leave⟩)

/-- The prefix loop stays at the prefix, opens a body or ends without one. -/
theorem step_prefix_cases (code : ReaderCode) (contents : Cells UInt8) (answer : ReadAnswer) :
    step code contents .againRead answer = .again .againRead ∨
      (∃ msgSize message, step code contents .againRead answer =
        .again (.again 0 msgSize message)) ∨
      (code.closes = true ∧ step code contents .againRead answer = .leave .closed) ∨
      step code contents .againRead answer = .leave (.fault .badAllocation) := by
  cases answer with
  | notYet => exact .inl rfl
  | got data =>
      cases data with
      | nil =>
          rw [step]
          split
          · next closes => exact .inr (.inr (.inl ⟨closes, rfl⟩))
          · exact .inl rfl
      | cons byte data =>
          rw [step]
          split
          · exact .inr (.inr (.inr rfl))
          · exact .inr (.inl ⟨_, _, rfl⟩)

end Reader

/-! ## publish and deferredPublish -/

namespace PubState

variable (sock : ℤ) (fresh : ℕ → Cells UInt8)

/-- One event, up to the next call of the system. -/
def heapOps (s : PubState) : PubEvent → List (BlockOp ReplyPointer)
  | .call _ => []
  | .sent result =>
      match s.point with
      | .sending request _ =>
          if request.lostConnection result then []
          else [.alloc .msgSizeChar, .touch .msgSizeChar]
      | .answering _ => [.free .message, .touch .msgSizeChar]
      | _ => []
  | .read answer =>
      match s.point with
      | .reading request reader =>
          reader.heapOps (reader.step request.reader (fresh s.buffers) answer)
      | _ => []

/-- Events one after the other. -/
def work : PubState → List PubEvent → List (BlockOp ReplyPointer)
  | _, [] => []
  | s, event :: events =>
      s.heapOps fresh event ++
        match s.step sock fresh event with
        | some next => next.work events
        | none => []

end PubState

/-- The pointers that own a block. -/
def PubPoint.owned : PubPoint → Finset ReplyPointer
  | .idle => ∅
  | .sending _ _ => ∅
  | .reading _ .againRead => {.msgSizeChar}
  | .reading _ (.again _ _ _) => {.message, .msgSizeChar}
  | .answering _ => {.message, .msgSizeChar}

section Publishing

variable {sock : ℤ} {fresh : ℕ → Cells UInt8} {s s' : PubState}

/-- A body that was collected is decided on. -/
theorem ledger_decide (request : Request) (message : Cells UInt8) :
    Ledger.performAll ⟨{.message, .msgSizeChar}, 0⟩ (verdict message).heapOps =
      some ⟨(s.decide sock request message).point.owned, 0⟩ := by
  rw [PubState.decide]
  cases verdict message with
  | ok => rfl
  | heartbeat => rfl
  | other => rfl

/-- **One event**: what is owned goes with the point. -/
theorem Publishes.ledger {event : PubEvent} (here : Publishes sock fresh s event s') :
    Ledger.performAll ⟨s.point.owned, 0⟩ (s.heapOps fresh event) = some ⟨s'.point.owned, 0⟩ := by
  cases event with
  | call request =>
      obtain ⟨point, command, -, rfl⟩ := here.of_call
      rw [point]
      rfl
  | sent result =>
      rcases here.of_sent with ⟨request, command, point, -, -, rfl⟩ | ⟨request, point, -, -, rfl⟩
      · rw [PubState.heapOps, point]
        cases lost : request.lostConnection result with
        | true => simp only [lost, if_true]; rfl
        | false => simp only [lost, Bool.false_eq_true, if_false]; rfl
      · rw [PubState.heapOps, point]
        rfl
  | read answer =>
      obtain ⟨request, reader, point, -, received⟩ := here.of_read
      rw [PubState.heapOps, point]
      dsimp only
      cases reader with
      | againRead =>
          rcases Reader.step_prefix_cases request.reader (fresh s.buffers) answer
            with again | ⟨msgSize, message, opens⟩ | ⟨-, closed⟩ | fault
          · rw [again] at received ⊢
            obtain rfl := Option.some.inj received
            rfl
          · rw [opens] at received ⊢
            obtain rfl := Option.some.inj received
            rfl
          · rw [closed] at received ⊢
            obtain rfl := Option.some.inj received
            rfl
          · rw [fault] at received
            cases received
      | again l msgSize message =>
          rcases Reader.step_body_cases request.reader (fresh s.buffers) l msgSize message answer
            with ⟨l', message', again⟩ | ⟨l', message', collected⟩ | fault
          · rw [again] at received ⊢
            obtain rfl := Option.some.inj received
            rfl
          · rw [collected] at received ⊢
            obtain rfl := Option.some.inj received
            exact ledger_decide request message'
          · rw [fault] at received
            cases received

end Publishing

/-! ## send_identify -/

/-- Up to the first `read`. -/
def identifyOps : List (BlockOp ReplyPointer) :=
  -- `php_json_encode` and `smart_str_0`
  [.touch .nsqConfig, .alloc .json, .touch .json,
    -- the command, with the length of the text and the text in it
    .alloc .identifyCommand, .touch .identifyCommand, .touch .identifyCommand, .touch .json,
    .touch .identifyCommand, .touch .json, .touch .identifyCommand,
    -- `send`, and `zend_hash_str_find`
    .touch .json, .touch .identifyCommand, .touch .nsqConfig,
    .alloc .msgSizeChar, .touch .msgSizeChar]

/-- `zval_ptr_dtor` of the configuration, given how many references there are to it. An array of the
script's own constants is not counted. -/
def releaseOps : Option ℕ → List (BlockOp ReplyPointer)
  | none => []
  | some references => .touch .nsqConfig :: if references = 1 then [.free .nsqConfig] else []

/-- What `send_identify` does behind a `read`. -/
def Reader.identifyOps (references : Option ℕ) :
    Reader → Next Reader Reply → List (BlockOp ReplyPointer)
  | .againRead, .again .againRead => [.touch .msgSizeChar]
  | .againRead, .again (.again _ _ _) =>
      [.touch .msgSizeChar, .touch .msgSizeChar, .free .msgSizeChar, .alloc .message,
        .touch .message]
  | .again _ _ _, .leave (.collected _ _ _) =>
      [.touch .message, .free .message, .free .identifyCommand] ++ releaseOps references ++
        [.free .json]
  | .again _ _ _, _ => [.touch .message]
  | .againRead, .leave _ => []

/-- The pointers that own a block at a `read` of `send_identify`. -/
def Reader.identifyOwned : Reader → Finset ReplyPointer
  | .againRead => {.msgSizeChar, .identifyCommand, .json, .nsqConfig}
  | .again _ _ _ => {.message, .identifyCommand, .json, .nsqConfig}

/-- `send_identify` goes on reading. -/
def IdentifyReads (contents : Cells UInt8) (reader : Reader) (answer : ReadAnswer)
    (next : Reader) : Prop :=
  reader.step sendIdentifyReader contents answer = .again next

section Identify

variable {references : Option ℕ} {contents : Cells UInt8}

theorem IdentifyReads.ledger {reader next : Reader} {answer : ReadAnswer}
    (here : IdentifyReads contents reader answer next) :
    Ledger.performAll ⟨reader.identifyOwned, 0⟩
        (reader.identifyOps references (reader.step sendIdentifyReader contents answer)) =
      some ⟨next.identifyOwned, 0⟩ := by
  rw [here]
  cases reader with
  | againRead =>
      rcases Reader.step_prefix_cases sendIdentifyReader contents answer
        with again | ⟨msgSize, message, opens⟩ | ⟨closes, -⟩ | fault
      · obtain rfl := Next.again.inj (again.symm.trans here)
        rfl
      · obtain rfl := Next.again.inj (opens.symm.trans here)
        rfl
      · cases closes
      · cases fault.symm.trans here
  | again l msgSize message =>
      rcases Reader.step_body_cases sendIdentifyReader contents l msgSize message answer
        with ⟨l', message', again⟩ | ⟨l', message', collected⟩ | fault
      · obtain rfl := Next.again.inj (again.symm.trans here)
        rfl
      · cases collected.symm.trans here
      · cases fault.symm.trans here

end Identify

end PhpNsq
