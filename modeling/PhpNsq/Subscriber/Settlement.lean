import PhpNsq.Foundations.Runs
import PhpNsq.Frames
import PhpNsq.Subscriber.Processing

/-!
# Every message is settled once and in order

`Service` is what `enqueue_message` and the timer share: the queue, the exception flag of
the engine, and the record of what the ticks did. Messages arrive and the timer
ticks in any order.

The abstract account of a service is a list of the messages handed over, each
with the run of the callback, and the list of the messages that wait (`Settled`). Handed
over and waiting messages together are the messages that arrived, in order, and the
record consists of one block for every message handed over: the callback, its touches,
the settlement if it is the extension's business, and `RDY` (`Handed.effects`). An
exception does not outlive its block.

Every event keeps the account (`Settled.enqueue`, `Settled.tick_empty`, `Settled.tick`), so
every run has one.
-/

set_option autoImplicit false

namespace PhpNsq

open Foundations

/-! ## Settlement commands -/

/-- The command that settles a message with this id. -/
def settlementText (id : Bytes) (delayTime : Int32) (callbackSuccess : Bool) : Bytes :=
  if callbackSuccess then ascii "FIN " ++ id ++ ascii "\n"
  else ascii "REQ " ++ id ++ ascii " " ++ decimal delayTime.toInt ++ ascii "\n"

/-- The id of a queue entry. -/
def PendingMessage.id (msg : PendingMessage) : Bytes := msg.messageId.take 16

/-- `delayTime` prints no terminator. -/
theorem zero_not_mem_decimal (n : ℤ) : (0 : UInt8) ∉ decimal n :=
  not_mem_decimal (by decide) (by decide)

/-- A text without a NUL that fits is written as it is. -/
theorem cString_snprintf {room : ℕ} {text : Bytes} (free : (0 : UInt8) ∉ text)
    (fits : text.length < room) : cString (snprintf room text) = text := by
  rw [snprintf_of_lt fits, cString_of_notMem free]

/-- The settlement command of an entry, by the name that `%s` finds in its id. -/
theorem settlement_of_name {msg : PendingMessage} (short : (cString msg.messageId).length ≤ 16)
    (callbackSuccess : Bool) :
    settlement msg callbackSuccess =
      settlementText (cString msg.messageId) msg.delayTime callbackSuccess := by
  have free : (0 : UInt8) ∉ cString msg.messageId := zero_not_mem_cString _
  have digits := length_decimal_int32 msg.delayTime
  cases callbackSuccess with
  | true =>
      simp only [settlement, settlementText, if_true]
      refine cString_snprintf ?_ ?_
      · simp only [List.mem_append, free, or_false]
        decide
      · have words : (ascii "FIN ").length = 4 ∧ (ascii "\n").length = 1 := ⟨rfl, rfl⟩
        simp only [List.length_append]
        omega
  | false =>
      simp only [settlement, settlementText, Bool.false_eq_true, if_false]
      refine cString_snprintf ?_ ?_
      · simp only [List.mem_append, free, zero_not_mem_decimal, or_false]
        decide
      · have words : (ascii "REQ ").length = 4 ∧ (ascii " ").length = 1 ∧ (ascii "\n").length = 1 :=
          ⟨rfl, rfl, rfl⟩
        simp only [List.length_append]
        omega

/-- **The settlement command names the id**, when the id has no NUL. -/
theorem settlement_eq {msg : PendingMessage} {id : Bytes} (terminated : msg.messageId = id ++ [0])
    (sixteen : id.length ≤ 16) (free : (0 : UInt8) ∉ id) (callbackSuccess : Bool) :
    settlement msg callbackSuccess = settlementText id msg.delayTime callbackSuccess := by
  have name : cString msg.messageId = id := terminated ▸ cString_append_nul free []
  rw [settlement_of_name (name ▸ sixteen), name]

/-! ## The service -/

structure Service where
  queue : MessageQueue
  exception : Bool
  log : List Effect

/-- The empty queue, and no exception. -/
def Service.initial : Service where
  queue := .initial
  exception := false
  log := []

/-- What happens to a service: `readcb` enqueues a message, or the timer ticks. -/
inductive ServiceEvent where
  | enqueue (message : Message) (delayTime : Int32) (autoFinish : Bool)
  | tick (run : CallbackRun)

namespace ServiceEvent

/-- The queue entry of an arrival. -/
def entry : ServiceEvent → Option PendingMessage
  | .enqueue message delayTime autoFinish =>
      some (pendingMessage message.id.toList message.body message.body.length message.timestamp
        message.attempts delayTime autoFinish)
  | .tick _ => none

/-- The callback of a tick. -/
def run : ServiceEvent → Option CallbackRun
  | .enqueue _ _ _ => none
  | .tick run => some run

end ServiceEvent

/-- One event, with all allocations succeeding. -/
def Service.step (rdy : Int32) (s : Service) : ServiceEvent → Option Service
  | .enqueue message delayTime autoFinish =>
      (enqueueMessage true true message.id.toList message.body message.body.length
        message.timestamp message.attempts delayTime autoFinish s.queue).map fun queue =>
          { s with queue := queue }
  | .tick run =>
      (processMessageQueue rdy run s.exception s.queue).map fun (effects, exception, queue) =>
        ⟨queue, exception, s.log ++ effects⟩

/-- The events of a service. -/
def Serves (rdy : Int32) (s : Service) (event : ServiceEvent) (s' : Service) : Prop :=
  s.step rdy event = some s'

/-! ## The account of a service -/

/-- The callback calls no method but `touch`. -/
def CallbackRun.OnlyTouches (run : CallbackRun) : Prop :=
  ∀ action ∈ run.actions, ∃ messageId, action = .touch messageId

/-- The texts of the callback fit the buffer they are printed to. -/
def CallbackRun.Fits (run : CallbackRun) : Prop :=
  ∀ action ∈ run.actions, action.effect ≠ none

/-- The ids that the callback touches. -/
def CallbackRun.touched (run : CallbackRun) : List Bytes :=
  run.actions.filterMap fun
    | .touch messageId => some messageId
    | _ => none

/-- `SUCCESS`, with no exception. -/
def CallbackRun.succeeded : CallbackRun → Bool
  | .returned _ => true
  | _ => false

/-- The line of `nsq_touch`. -/
def touching (messageId : Bytes) : Effect :=
  .direct .user (ascii "TOUCH " ++ cString messageId ++ newLine)

/-- A message that was handed to the callback. -/
structure Handed where
  message : PendingMessage
  run : CallbackRun

/-- The settlement of a message, if the extension settles it. -/
def Handed.settlement (handed : Handed) : List Effect :=
  if handed.message.autoFinish then
    [.buffered .extension
      (settlementText handed.message.id handed.message.delayTime handed.run.succeeded)]
  else []

/-- All that handing over a message brings about. -/
def Handed.effects (rdy : Int32) (handed : Handed) : List Effect :=
  .called handed.message.object :: handed.run.touched.map touching ++ handed.settlement ++ [ready rdy]

/-- The account of a service after some events. -/
structure Service.Settled (rdy : Int32) (events : List ServiceEvent) (s : Service)
    (handed : List Handed) (waiting : List PendingMessage) : Prop where
  /-- No message is lost, duplicated or reordered. -/
  conserved : handed.map Handed.message ++ waiting = events.filterMap ServiceEvent.entry
  holds : s.queue.Holds waiting
  count : s.queue.pendingMessageCount = waiting.length
  /-- The callbacks are the ticks', in order. -/
  runs : (handed.map Handed.run).Sublist (events.filterMap ServiceEvent.run)
  log : s.log = handed.flatMap (Handed.effects rdy)
  exception : s.exception = false

namespace CallbackRun

/-- What a callback that only touches writes. -/
theorem mapM_effect {actions : List UserAction}
    (only : ∀ action ∈ actions, ∃ messageId, action = .touch messageId) {issued : List Effect}
    (wrote : actions.mapM UserAction.effect = some issued) :
    issued = (actions.filterMap fun | .touch messageId => some messageId | _ => none).map
      touching := by
  induction actions generalizing issued with
  | nil => simpa using wrote.symm
  | cons action actions ih =>
      obtain ⟨messageId, rfl⟩ := only action (List.mem_cons_self ..)
      obtain ⟨effect, rest, first, others, rfl⟩ := mapM_effect_cons wrote
      obtain ⟨line, printed, rfl⟩ := Option.map_eq_some_iff.mp first
      obtain ⟨-, rfl⟩ := sprintf_eq_some.mp printed
      rw [ih (fun other member => only other (List.mem_cons_of_mem _ member)) others]
      rfl

/-- Texts that fit are written. -/
theorem Fits.mapM {run : CallbackRun} (fits : run.Fits) :
    ∃ issued, run.actions.mapM UserAction.effect = some issued := by
  rw [CallbackRun.Fits] at fits
  generalize run.actions = actions at fits
  induction actions with
  | nil => exact ⟨[], rfl⟩
  | cons action actions ih =>
      obtain ⟨effect, first⟩ := Option.ne_none_iff_exists'.mp (fits action (List.mem_cons_self ..))
      obtain ⟨rest, others⟩ := ih fun other member => fits other (List.mem_cons_of_mem _ member)
      exact ⟨effect :: rest, by simp [List.mapM_cons, first, others]⟩

/-- Without a pending exception, success is what `process_business_message` takes for it. -/
theorem success_and (run : CallbackRun) :
    (run.success && !run.exception false) = run.succeeded := by
  cases run <;> rfl

/-- The exception of a callback is cleared. -/
theorem exception_cleared (run : CallbackRun) :
    (if run.success then false else run.exception false) = false := by
  cases run <;> rfl

end CallbackRun

/-- **Processing a message settles it** as its `auto_finish` says, and leaves no exception. -/
theorem processBusinessMessage_eq {msg : PendingMessage} {id : Bytes}
    (terminated : msg.messageId = id ++ [0]) (sixteen : id.length = 16)
    (free : (0 : UInt8) ∉ id) {run : CallbackRun} {issued : List Effect}
    (wrote : run.actions.mapM UserAction.effect = some issued) :
    processBusinessMessage run false msg =
      some (.called msg.object :: issued ++ Handed.settlement ⟨msg, run⟩, false) := by
  have name : msg.id = id := by
    rw [PendingMessage.id, terminated, ← sixteen, List.take_left']
    rfl
  simp only [processBusinessMessage, wrote, CallbackRun.success_and, CallbackRun.exception_cleared,
    settlement_eq terminated (Nat.le_of_eq sixteen) free, Handed.settlement, name]

namespace Service.Settled

variable {rdy : Int32} {events : List ServiceEvent} {s : Service} {handed : List Handed}
  {waiting : List PendingMessage}

theorem initial (rdy : Int32) : Settled rdy [] Service.initial [] [] where
  conserved := rfl
  holds := .initial
  count := rfl
  runs := .slnil
  log := rfl
  exception := rfl

/-- An arrival joins the waiting messages. -/
theorem enqueue (settled : Settled rdy events s handed waiting) (message : Message)
    (delayTime : Int32) (autoFinish : Bool) :
    ∃ s' entry, (ServiceEvent.enqueue message delayTime autoFinish).entry = some entry ∧
      s.step rdy (.enqueue message delayTime autoFinish) = some s' ∧
      Settled rdy (events ++ [.enqueue message delayTime autoFinish]) s' handed
        (waiting ++ [entry]) := by
  obtain ⟨queue, enqueued, holds⟩ := settled.holds.enqueueMessage message.id.toList message.body
    message.body.length message.timestamp message.attempts delayTime autoFinish
  refine ⟨{ s with queue := queue }, _, rfl, ?_, ?_⟩
  · simp only [step, enqueued, Option.map_some]
  · exact
      { conserved := by
          rw [← List.append_assoc, settled.conserved, List.filterMap_append]
          rfl
        holds := holds
        count := holds.count
        runs := by
          rw [List.filterMap_append]
          exact settled.runs.trans (List.sublist_append_left _ _)
        log := settled.log
        exception := settled.exception }

/-- A tick that finds no message changes nothing. -/
theorem tick_empty (settled : Settled rdy events s handed []) (run : CallbackRun) :
    s.step rdy (.tick run) = some s ∧ Settled rdy (events ++ [.tick run]) s handed [] := by
  constructor
  · simp only [step, settled.holds.processMessageQueue_nil, Option.map_some, List.append_nil]
  · exact
      { settled with
        conserved := by
          rw [settled.conserved, List.filterMap_append]
          simp [ServiceEvent.entry]
        runs := by
          rw [List.filterMap_append]
          exact settled.runs.trans (List.sublist_append_left _ _) }

/-- A tick hands over the first message that waits. -/
theorem tick {first : PendingMessage} (settled : Settled rdy events s handed (first :: waiting))
    {id : Bytes} (terminated : first.messageId = id ++ [0]) (sixteen : id.length = 16)
    (free : (0 : UInt8) ∉ id) {run : CallbackRun} (only : run.OnlyTouches) {issued : List Effect}
    (wrote : run.actions.mapM UserAction.effect = some issued) :
    ∃ s', s.step rdy (.tick run) = some s' ∧
      Settled rdy (events ++ [.tick run]) s' (handed ++ [⟨first, run⟩]) waiting := by
  obtain ⟨queue, holds, processed⟩ := settled.holds.processMessageQueue rdy run s.exception
  rw [settled.exception, processBusinessMessage_eq terminated sixteen free wrote,
    CallbackRun.mapM_effect only wrote] at processed
  refine ⟨_, by simp only [step, settled.exception, processed, Option.map_some]; rfl, ?_⟩
  exact
    { conserved := by
        rw [List.filterMap_append, ← settled.conserved]
        simp [ServiceEvent.entry]
      holds := holds
      count := holds.count
      runs := by
        rw [List.filterMap_append, List.map_append]
        exact settled.runs.append (List.Sublist.refl [run])
      log := by
        rw [List.flatMap_append, settled.log]
        simp [Handed.effects, CallbackRun.touched]
      exception := rfl }

/-- A waiting message arrived. -/
theorem arrived {msg : PendingMessage} (settled : Settled rdy events s handed waiting)
    (member : msg ∈ waiting) : ∃ event ∈ events, event.entry = some msg := by
  have here : msg ∈ events.filterMap ServiceEvent.entry := by
    rw [← settled.conserved]
    exact List.mem_append_right _ member
  exact List.mem_filterMap.mp here

end Service.Settled

/-! ## Runs of a service -/

/-- The id of an arriving message has no NUL. -/
def ServiceEvent.NulFree : ServiceEvent → Prop
  | .enqueue message _ _ => (0 : UInt8) ∉ message.id.toList
  | .tick _ => True

instance : DecidablePred ServiceEvent.NulFree
  | .enqueue message _ _ => inferInstanceAs (Decidable ((0 : UInt8) ∉ message.id.toList))
  | .tick _ => isTrue trivial

/-- The callback of a tick neither finishes nor requeues. -/
def ServiceEvent.OnlyTouches : ServiceEvent → Prop
  | .enqueue _ _ _ => True
  | .tick run => run.OnlyTouches

/-- The callback of a tick does not overrun the buffer of a command. -/
def ServiceEvent.Fits : ServiceEvent → Prop
  | .enqueue _ _ _ => True
  | .tick run => run.Fits

/-- The shape of the id in a queue entry. -/
theorem ServiceEvent.NulFree.entry {event : ServiceEvent} {msg : PendingMessage}
    (free : event.NulFree) (arrived : event.entry = some msg) :
    ∃ id : Bytes, msg.messageId = id ++ [0] ∧ id.length = 16 ∧ (0 : UInt8) ∉ id := by
  cases event with
  | tick run => cases arrived
  | enqueue message delayTime autoFinish =>
      obtain rfl := Option.some.inj arrived
      have sixteen : message.id.toList.length = 16 := message.id.toList_length
      refine ⟨message.id.toList, ?_, sixteen, free⟩
      simp only [pendingMessage, ← sixteen, List.take_length]

/-- The callback of an event is called on no message, or its texts fit. -/
def ServiceEvent.Writes (s : Service) (event : ServiceEvent) : Prop :=
  ∀ run, event = .tick run → s.queue.Holds [] ∨
    ∃ issued, run.actions.mapM UserAction.effect = some issued

namespace Service.Settled

variable {rdy : Int32} {taken : List ServiceEvent} {event : ServiceEvent} {s s' : Service}
  {handed : List Handed} {waiting : List PendingMessage}

/-- A tick that comes to an end has a callback whose texts fit. -/
theorem writes (settled : s.Settled rdy taken handed waiting) (one : Serves rdy s event s') :
    event.Writes s := by
  rintro run rfl
  cases waiting with
  | nil => exact .inl settled.holds
  | cons first waiting =>
      right
      obtain ⟨queue, -, processed⟩ := settled.holds.processMessageQueue rdy run s.exception
      cases wrote : run.actions.mapM UserAction.effect with
      | some issued => exact ⟨issued, rfl⟩
      | none => simp [Serves, Service.step, processed, processBusinessMessage, wrote] at one

/-- A tick hands over the first message that waits, whose id has no NUL. -/
theorem handsOver {first : PendingMessage}
    (settled : s.Settled rdy taken handed (first :: waiting))
    (nulFree : ∀ event ∈ taken, event.NulFree) {run : CallbackRun} (only : run.OnlyTouches)
    {issued : List Effect} (wrote : run.actions.mapM UserAction.effect = some issued) :
    ∃ s', Serves rdy s (.tick run) s' ∧
      s'.Settled rdy (taken ++ [.tick run]) (handed ++ [⟨first, run⟩]) waiting := by
  obtain ⟨event, before, arrived⟩ := settled.arrived (List.mem_cons_self ..)
  obtain ⟨id, terminated, sixteen, free⟩ := (nulFree event before).entry arrived
  exact settled.tick terminated sixteen free only wrote

/-- **Every event moves an account on**, given what its callback wrote. -/
theorem advance (settled : s.Settled rdy taken handed waiting)
    (nulFree : ∀ event ∈ taken, event.NulFree) (touches : event.OnlyTouches)
    (writes : event.Writes s) :
    ∃ s', Serves rdy s event s' ∧
      ∃ handed waiting, s'.Settled rdy (taken ++ [event]) handed waiting := by
  cases event with
  | enqueue message delayTime autoFinish =>
      obtain ⟨s', entry, -, one, settled'⟩ := settled.enqueue message delayTime autoFinish
      exact ⟨s', one, handed, waiting ++ [entry], settled'⟩
  | tick run =>
      cases waiting with
      | nil =>
          obtain ⟨one, settled'⟩ := settled.tick_empty run
          exact ⟨s, one, handed, [], settled'⟩
      | cons first waiting =>
          rcases writes run rfl with empty | ⟨issued, wrote⟩
          · exact absurd (settled.holds.unique empty) (List.cons_ne_nil _ _)
          · obtain ⟨s', one, settled'⟩ := settled.handsOver nulFree touches wrote
            exact ⟨s', one, _, waiting, settled'⟩

end Service.Settled

/-- **Every message is settled once and in order.** Arrivals and ticks may come in any
order. Every state that is reached has an account, and while messages wait a tick hands over the
first of them. Unless a callback overruns a buffer every sequence of events is possible. -/
theorem settled_once_in_order (rdy : Int32) (events : List ServiceEvent)
    (nulFree : ∀ event ∈ events, event.NulFree)
    (onlyTouches : ∀ event ∈ events, event.OnlyTouches) :
    (∀ last, Run (Serves rdy) Service.initial events last →
      ∃ handed waiting, last.Settled rdy events handed waiting ∧
        ∀ first rest, waiting = first :: rest → ∀ run : CallbackRun, run.OnlyTouches → run.Fits →
          ∃ next, Serves rdy last (.tick run) next ∧
            next.Settled rdy (events ++ [.tick run]) (handed ++ [⟨first, run⟩]) rest) ∧
    ((∀ event ∈ events, event.Fits) → ∃ last, Run (Serves rdy) Service.initial events last) := by
  have begin : ∃ handed waiting, Service.initial.Settled rdy [] handed waiting :=
    ⟨[], [], Service.Settled.initial rdy⟩
  have advance : ∀ (taken : List ServiceEvent) (event : ServiceEvent) (rest : List ServiceEvent)
      (s : Service), events = taken ++ event :: rest →
      (∃ handed waiting, s.Settled rdy taken handed waiting) → event.Writes s →
      ∃ s', Serves rdy s event s' ∧
        ∃ handed waiting, s'.Settled rdy (taken ++ [event]) handed waiting := by
    rintro taken event rest s rfl ⟨handed, waiting, settled⟩ writes
    refine settled.advance ?_ (onlyTouches event (by simp)) writes
    intro earlier before
    exact nulFree earlier (List.mem_append_left _ before)
  constructor
  · intro last run
    have account : ∃ handed waiting, last.Settled rdy events handed waiting := by
      refine run.invariant_within
        (fun taken s => ∃ handed waiting, s.Settled rdy taken handed waiting) ?_ begin
      rintro taken event rest s next split ⟨handed, waiting, settled⟩ one
      obtain ⟨s', other, account⟩ :=
        advance taken event rest s split ⟨handed, waiting, settled⟩ (settled.writes one)
      obtain rfl : next = s' := Option.some.inj (one.symm.trans other)
      exact account
    obtain ⟨handed, waiting, settled⟩ := account
    refine ⟨handed, waiting, settled, ?_⟩
    rintro first rest rfl run only fits
    obtain ⟨issued, wrote⟩ := fits.mapM
    exact settled.handsOver nulFree only wrote
  · intro fits
    have reached : ∃ last, Run (Serves rdy) Service.initial events last ∧
        ∃ handed waiting, last.Settled rdy events handed waiting := by
      refine Run.progress
        (fun taken (s : Service) => ∃ handed waiting, s.Settled rdy taken handed waiting) ?_ begin
      intro taken event rest s split account
      refine advance taken event rest s split account ?_
      rintro run rfl
      exact .inr (CallbackRun.Fits.mapM (fits (.tick run) (by simp [split])))
    obtain ⟨last, run, -⟩ := reached
    exact ⟨last, run⟩

/-- A message whose callback throws, and one that is processed. -/
def jobs : List ServiceEvent :=
  [.enqueue ⟨1, 1, ⟨ascii "0123456789abcdef", rfl⟩, [0, 10]⟩ 500 true,
    .tick (.threw [.touch (ascii "0123456789abcdef")]),
    .enqueue ⟨2, 1, ⟨ascii "fedcba9876543210", rfl⟩, []⟩ 500 true, .tick (.returned []),
    .tick .notCalled]

theorem jobs_settled : ∃ last, Run (Serves 1) Service.initial jobs last ∧
    ∃ handed waiting, last.Settled 1 jobs handed waiting := by
  have nulFree : ∀ event ∈ jobs, event.NulFree := by decide
  have onlyTouches : ∀ event ∈ jobs, event.OnlyTouches := by
    simp [jobs, ServiceEvent.OnlyTouches, CallbackRun.OnlyTouches, CallbackRun.actions]
  have fits : ∀ event ∈ jobs, event.Fits := by
    simp [jobs, ServiceEvent.Fits, CallbackRun.Fits, CallbackRun.actions, UserAction.effect]
    decide
  obtain ⟨accounts, possible⟩ := settled_once_in_order 1 jobs nulFree onlyTouches
  obtain ⟨last, run⟩ := possible fits
  obtain ⟨handed, waiting, settled, -⟩ := accounts last run
  exact ⟨last, run, handed, waiting, settled⟩

end PhpNsq
