import PhpNsq.Command
import PhpNsq.Subscriber.Readcb

/-!
# process_business_message and process_message_queue of sub.c

A timer calls `process_message_queue` again and again. It takes at most one message
from the queue, hands it to the user's callback, settles it when `auto_finish` is set,
frees the node and asks for the next message with `RDY`.

What the callback does is outside the code: `CallbackRun` has the calls it makes to the
methods of `NsqMessage` and the three ways `zend_call_function` comes back. The
exception flag of the engine, `EG(exception)`, is part of the state.

`processMessageQueue` gives what a tick did together with the flag and the queue it
leaves. On a queue that holds the pending messages a tick hands over the first of them
(`MessageQueue.Holds.processMessageQueue`).
-/

set_option autoImplicit false

namespace PhpNsq

open Foundations

/-! ## The methods of NsqMessage -/

/-- A call of a method of `NsqMessage`. -/
inductive UserAction where
  | touch (messageId : Bytes)
  | requeue (messageId : Bytes) (timeMs : Int64)
  | finish (messageId : Bytes)

/-- What a method writes. `touch` goes past the output buffer, and `requeue` passes a
PHP integer on as an `int`. -/
def UserAction.effect : UserAction → Option Effect
  | .touch messageId => (nsqTouch messageId).map (.direct .user)
  | .requeue messageId timeMs => (nsqRequeue messageId timeMs.toInt32).map (.buffered .user)
  | .finish messageId => (nsqFinish messageId).map (.buffered .user)

/-- A call of the user's callback. -/
inductive CallbackRun where
  /-- `SUCCESS`, and the callback threw nothing. -/
  | returned (actions : List UserAction)
  /-- `SUCCESS`, and the callback threw an exception. -/
  | threw (actions : List UserAction)
  /-- `FAILURE`: there was no callback to call. -/
  | notCalled

namespace CallbackRun

def actions : CallbackRun → List UserAction
  | .returned actions => actions
  | .threw actions => actions
  | .notCalled => []

/-- `zend_call_function` gave `SUCCESS`. -/
def success : CallbackRun → Bool
  | .notCalled => false
  | _ => true

/-- `EG(exception)` after the call, given the flag before it. -/
def exception (pending : Bool) : CallbackRun → Bool
  | .threw _ => true
  | _ => pending

end CallbackRun

/-! ## Processing -/

/-- The properties that `process_business_message` sets. -/
def PendingMessage.object (msg : PendingMessage) : NsqMessage where
  message_id := msg.messageId.take 16
  messageId := msg.messageId.take 16
  attempts := msg.attempts
  timestamp := msg.timestamp
  payload := msg.body.take msg.bodyLen

/-- The settlement command, for the length that `strlen` finds. -/
def settlement (msg : PendingMessage) (callbackSuccess : Bool) : Bytes :=
  if callbackSuccess then
    cString (snprintf 64 (ascii "FIN " ++ cString msg.messageId ++ ascii "\n"))
  else
    cString (snprintf 128 (ascii "REQ " ++ cString msg.messageId ++ ascii " " ++
      decimal msg.delayTime.toInt ++ ascii "\n"))

/-- `process_business_message`: what it does and the exception flag it leaves. -/
def processBusinessMessage (run : CallbackRun) (exception : Bool) (msg : PendingMessage) :
    Option (List Effect × Bool) :=
  match run.actions.mapM UserAction.effect with
  | none => none
  | some issued =>
      let pending := run.exception exception
      let callbackSuccess := run.success && !pending
      -- `zend_clear_exception` is only reached after a `SUCCESS`
      let left := if run.success then false else pending
      let settled : List Effect :=
        if msg.autoFinish then [.buffered .extension (settlement msg callbackSuccess)] else []
      some (.called msg.object :: issued ++ settled, left)

/-- `process_message_queue`: what it does, the exception flag and the queue it leaves. -/
def processMessageQueue (rdy : Int32) (run : CallbackRun) (exception : Bool)
    (queue : MessageQueue) : Option (List Effect × Bool × MessageQueue) :=
  match dequeueMessage queue with
  | none => none
  | some (none, queue) => some ([], exception, queue)
  | some (some msg, queue) =>
      match queue.heap msg with
      | none => none
      | some node =>
          match processBusinessMessage run exception node.value with
          | none => none
          | some (effects, exception) =>
              match nsqReady rdy with
              | none => none
              | some ready =>
                  some (effects ++ [.buffered .extension ready], exception, queue.free msg)

/-! ## What a tick does to the pending messages -/

/-- The line of `nsq_ready`. -/
def ready (rdy : Int32) : Effect :=
  .buffered .extension (ascii "RDY " ++ decimal rdy.toInt ++ newLine)

namespace MessageQueue.Holds

variable {queue : MessageQueue} {messages : List PendingMessage}

/-- A tick with nothing to process changes nothing. -/
theorem processMessageQueue_nil (holds : queue.Holds []) (rdy : Int32) (run : CallbackRun)
    (exception : Bool) :
    processMessageQueue rdy run exception queue = some ([], exception, queue) := by
  simp only [PhpNsq.processMessageQueue, holds.dequeueMessage_nil]

/-- **A tick processes the first pending message**, and leaves the others. -/
theorem processMessageQueue {first : PendingMessage} (holds : queue.Holds (first :: messages))
    (rdy : Int32) (run : CallbackRun) (exception : Bool) :
    ∃ queue', queue'.Holds messages ∧
      processMessageQueue rdy run exception queue =
        (processBusinessMessage run exception first).map fun (effects, exception) =>
          (effects ++ [ready rdy], exception, queue') := by
  obtain ⟨address, next, queue', dequeued, cell, _, freed⟩ := holds.dequeueMessage
  refine ⟨queue'.free address, freed, ?_⟩
  simp only [PhpNsq.processMessageQueue, dequeued, cell, nsqReady_eq]
  cases processBusinessMessage run exception first with
  | none => rfl
  | some done => rfl

end MessageQueue.Holds

/-- An effect that the user's callback brought about: a settlement, or a touch. -/
def Effect.ByUser : Effect → Prop
  | .buffered .user bytes => ascii "FIN " <+: bytes ∨ ascii "REQ " <+: bytes
  | .direct .user bytes => ascii "TOUCH " <+: bytes
  | _ => False

/-- The methods of `NsqMessage` act for the user. -/
theorem UserAction.byUser {action : UserAction} {effect : Effect}
    (wrote : action.effect = some effect) : effect.ByUser := by
  cases action with
  | touch messageId =>
      obtain ⟨line, printed, rfl⟩ := Option.map_eq_some_iff.mp wrote
      obtain ⟨-, rfl⟩ := sprintf_eq_some.mp printed
      simp only [Effect.ByUser, List.append_assoc, List.prefix_append]
  | requeue messageId timeMs =>
      obtain ⟨line, printed, rfl⟩ := Option.map_eq_some_iff.mp wrote
      obtain ⟨-, rfl⟩ := sprintf_eq_some.mp printed
      simp only [Effect.ByUser, List.append_assoc, List.prefix_append, or_true]
  | finish messageId =>
      obtain ⟨line, printed, rfl⟩ := Option.map_eq_some_iff.mp wrote
      obtain ⟨-, rfl⟩ := sprintf_eq_some.mp printed
      simp only [Effect.ByUser, List.append_assoc, List.prefix_append, true_or]

/-- The first call of a callback, and the others. -/
theorem mapM_effect_cons {action : UserAction} {actions : List UserAction} {issued : List Effect}
    (wrote : (action :: actions).mapM UserAction.effect = some issued) :
    ∃ first rest, action.effect = some first ∧ actions.mapM UserAction.effect = some rest ∧
      issued = first :: rest := by
  rw [List.mapM_cons] at wrote
  obtain ⟨first, one, wrote⟩ := Option.bind_eq_some_iff.mp wrote
  obtain ⟨rest, others, wrote⟩ := Option.bind_eq_some_iff.mp wrote
  exact ⟨first, rest, one, others, (Option.some.inj wrote).symm⟩

/-- An effect of a callback is that of one of its calls. -/
theorem exists_action_of_mapM {actions : List UserAction} {issued : List Effect}
    (wrote : actions.mapM UserAction.effect = some issued) :
    ∀ effect ∈ issued, ∃ action ∈ actions, action.effect = some effect := by
  induction actions generalizing issued with
  | nil =>
      obtain rfl := Option.some.inj wrote
      intro effect member
      cases member
  | cons action actions ih =>
      obtain ⟨first, rest, one, others, rfl⟩ := mapM_effect_cons wrote
      intro effect member
      rcases List.mem_cons.mp member with rfl | later
      · exact ⟨action, List.mem_cons_self .., one⟩
      · obtain ⟨other, called, wrote⟩ := ih others effect later
        exact ⟨other, List.mem_cons_of_mem _ called, wrote⟩

theorem byUser_of_mapM {actions : List UserAction} {issued : List Effect}
    (wrote : actions.mapM UserAction.effect = some issued) : ∀ effect ∈ issued, effect.ByUser := by
  intro effect member
  obtain ⟨action, -, one⟩ := exists_action_of_mapM wrote effect member
  exact UserAction.byUser one

/-- What holds of the call, of what the callback does and of the settlement holds of all that a
message brings about. -/
theorem forall_mem_handed {holds : Effect → Prop} {msg : PendingMessage} {issued : List Effect}
    {callbackSuccess : Bool} (called : holds (.called msg.object))
    (user : ∀ effect ∈ issued, holds effect)
    (settled : msg.autoFinish = true → holds (.buffered .extension (settlement msg callbackSuccess))) :
    ∀ effect ∈ .called msg.object :: issued ++
      (if msg.autoFinish then [.buffered .extension (settlement msg callbackSuccess)] else []),
      holds effect := by
  refine List.forall_mem_append.mpr ⟨List.forall_mem_cons.mpr ⟨called, user⟩, ?_⟩
  split
  · next auto => exact List.forall_mem_singleton.mpr (settled auto)
  · exact List.forall_mem_nil _

/-- **All that a tick can do**: nothing when no message waits, and otherwise the block of the
first message. -/
theorem processMessageQueue_cases {rdy : Int32} {run : CallbackRun} {exception exception' : Bool}
    {queue queue' : MessageQueue} {effects : List Effect} {waiting : List PendingMessage}
    (holds : queue.Holds waiting)
    (processed : processMessageQueue rdy run exception queue = some (effects, exception', queue')) :
    (waiting = [] ∧ effects = [] ∧ exception' = exception ∧ queue' = queue) ∨
      ∃ first rest issued callbackSuccess, waiting = first :: rest ∧ queue'.Holds rest ∧
        (∀ effect ∈ issued, effect.ByUser) ∧
        effects = .called first.object :: issued ++
          (if first.autoFinish then [.buffered .extension (settlement first callbackSuccess)]
            else []) ++ [ready rdy] := by
  cases waiting with
  | nil =>
      rw [holds.processMessageQueue_nil] at processed
      obtain ⟨rfl, rfl, rfl⟩ : [] = effects ∧ exception = exception' ∧ queue = queue' := by
        simpa using processed
      exact .inl ⟨rfl, rfl, rfl, rfl⟩
  | cons first rest =>
      obtain ⟨left, held, equation⟩ := holds.processMessageQueue rdy run exception
      rw [equation] at processed
      obtain ⟨⟨done, flag⟩, one, same⟩ := Option.map_eq_some_iff.mp processed
      obtain ⟨rfl, rfl, rfl⟩ : done ++ [ready rdy] = effects ∧ flag = exception' ∧ left = queue' := by
        simpa using same
      rw [processBusinessMessage] at one
      cases wrote : run.actions.mapM UserAction.effect with
      | none => simp [wrote] at one
      | some issued =>
          simp only [wrote, Option.some.injEq, Prod.mk.injEq] at one
          exact .inr ⟨first, rest, issued, _, rfl, held, byUser_of_mapM wrote, by rw [← one.1]⟩

end PhpNsq
