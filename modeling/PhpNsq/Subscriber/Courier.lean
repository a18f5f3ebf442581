import PhpNsq.Foundations.Relay
import PhpNsq.Subscriber.Sessions

/-!
# A consumer is a courier

To the user a consumer is a courier between nsqd and the callback: messages arrive, and the first
that waits is handed over, settled, and followed by `RDY`. Beside that a courier opens sessions
and answers heartbeats. `courier` says so without a parser, a queue of linked nodes, a timer or a
connection: it is a relay of messages whose context is the exception that is pending.

Everything a consumer puts on record, over all of its connections, is the work of a courier
(`consumer_refines_courier`). This asks nothing of the bytes that arrive, of the memory that is
granted, of the callbacks or of the moments at which connections are lost: a message that was
enqueued is handed over once, in its turn, or it waits.
-/

set_option autoImplicit false

namespace PhpNsq

open Foundations

/-! ## The courier -/

/-- The message that an effect enqueues. -/
def Effect.arrival : Effect → Option PendingMessage
  | .enqueued message => some message
  | _ => none

/-- The object that is handed to the callback. -/
def Effect.handedOver : Effect → Option NsqMessage
  | .called object => some object
  | _ => none

/-- The block of a message that is handed over: the call, what the callback writes, the settlement
by how the call went, and `RDY`. -/
def handOver (rdy : Int32) (msg : PendingMessage) (issued : List Effect) (success : Bool) :
    List Effect :=
  .called msg.object :: issued ++
    (if msg.autoFinish then [.buffered .extension (settlement msg success)] else []) ++ [ready rdy]

/-- Between the messages. -/
inductive CourierBesides (nsqConfig : Option Bytes) (config : NSQMsg) :
    Bool → List Effect → Bool → Prop where
  | opening {exception : Bool} {past behind : List Bytes}
      (opened : opening nsqConfig config = some (past, behind)) :
      CourierBesides nsqConfig config exception
        (past.map (.direct .extension) ++ behind.map (.buffered .extension)) exception
  | heartbeat {exception : Bool} : CourierBesides nsqConfig config exception [nop] exception
  /-- `subscribe` fails, and throws. -/
  | failed {exception : Bool} : CourierBesides nsqConfig config exception [] true

/-- What a consumer is to the user. A callback that was not called leaves a pending exception
where it is. -/
def courier (nsqConfig : Option Bytes) (config : NSQMsg) : Relay PendingMessage Bool Effect where
  arrives := fun _ msg block => block = [.enqueued msg] ∧ msg.Terminated ∧
    msg.delayTime = config.delayTime ∧ msg.autoFinish = config.autoFinish
  leaves := fun exception msg block exception' =>
    ∃ (run : CallbackRun) (issued : List Effect), run.actions.mapM UserAction.effect = some issued ∧
      block = handOver config.rdy msg issued (run.succeeded && !exception) ∧
      exception' = (!run.success && exception)
  besides := CourierBesides nsqConfig config

/-- What the user wrote enqueues nothing and calls nothing. -/
theorem byUser_shows {issued : List Effect} (user : ∀ effect ∈ issued, effect.ByUser) :
    issued.filterMap Effect.arrival = [] ∧ issued.filterMap Effect.handedOver = [] := by
  constructor
  · refine List.filterMap_eq_nil_iff.mpr fun effect member => ?_
    match effect, user effect member with
    | .buffered .user _, _ => rfl
    | .direct .user _, _ => rfl
  · refine List.filterMap_eq_nil_iff.mpr fun effect member => ?_
    match effect, user effect member with
    | .buffered .user _, _ => rfl
    | .direct .user _, _ => rfl

theorem handOver_shows (rdy : Int32) (msg : PendingMessage) {issued : List Effect}
    (user : ∀ effect ∈ issued, effect.ByUser) (success : Bool) :
    (handOver rdy msg issued success).filterMap Effect.arrival = [] ∧
      (handOver rdy msg issued success).filterMap Effect.handedOver = [msg.object] := by
  obtain ⟨arrivals, calls⟩ := byUser_shows user
  have settled : ∀ auto : Bool,
      (if auto then [Effect.buffered .extension (settlement msg success)] else []).filterMap
          Effect.arrival = [] ∧
        (if auto then [Effect.buffered .extension (settlement msg success)] else []).filterMap
          Effect.handedOver = [] := by
    intro auto
    cases auto <;> exact ⟨rfl, rfl⟩
  rw [handOver, List.filterMap_append, List.filterMap_append, List.filterMap_append,
    List.filterMap_append, (settled _).1, (settled _).2]
  constructor
  · rw [List.filterMap_cons_none rfl, arrivals]
    rfl
  · have called : (.called msg.object :: issued).filterMap Effect.handedOver = [msg.object] := by
      rw [List.filterMap_cons, calls]
      rfl
    rw [called]
    rfl

/-- **A tick hands over the first message**, if there is one. -/
theorem processMessageQueue_handOver {rdy : Int32} {run : CallbackRun} {exception exception' : Bool}
    {queue queue' : MessageQueue} {effects : List Effect} {waiting : List PendingMessage}
    (holds : queue.Holds waiting)
    (processed : processMessageQueue rdy run exception queue = some (effects, exception', queue')) :
    (waiting = [] ∧ effects = [] ∧ exception' = exception ∧ queue' = queue) ∨
      ∃ first rest issued, waiting = first :: rest ∧ queue'.Holds rest ∧
        run.actions.mapM UserAction.effect = some issued ∧
        effects = handOver rdy first issued (run.succeeded && !exception) ∧
        exception' = (!run.success && exception) := by
  cases waiting with
  | nil =>
      rw [holds.processMessageQueue_nil] at processed
      obtain ⟨rfl, rfl, rfl⟩ : [] = effects ∧ exception = exception' ∧ queue = queue' := by
        simpa using processed
      exact .inl ⟨rfl, rfl, rfl, rfl⟩
  | cons first rest =>
      obtain ⟨left, held, equation⟩ := holds.processMessageQueue rdy run exception
      rw [equation] at processed
      obtain ⟨⟨done, flag⟩, one, same⟩ := Option.map_eq_some_iff.mp processed
      obtain ⟨rfl, rfl, rfl⟩ : done ++ [ready rdy] = effects ∧ flag = exception' ∧ left = queue' := by
        simpa using same
      rw [processBusinessMessage] at one
      cases wrote : run.actions.mapM UserAction.effect with
      | none => simp [wrote] at one
      | some issued =>
          simp only [wrote, Option.some.injEq, Prod.mk.injEq] at one
          refine .inr ⟨first, rest, issued, rfl, held, rfl, ?_, ?_⟩
          · rw [← one.1]
            cases run <;> rfl
          · rw [← one.2]
            cases run <;> rfl

/-- The blocks of a courier show what arrives and what is handed over. -/
theorem courier_shows (nsqConfig : Option Bytes) (config : NSQMsg) :
    (courier nsqConfig config).Shows PendingMessage.object Effect.arrival Effect.handedOver where
  arrives := by
    rintro exception msg block ⟨rfl, -⟩
    exact ⟨rfl, rfl⟩
  leaves := by
    rintro exception msg block exception' ⟨run, issued, wrote, rfl, -⟩
    exact handOver_shows config.rdy msg (byUser_of_mapM wrote) _
  besides := by
    rintro exception block exception' (⟨opened⟩ | _ | _)
    · simp [List.filterMap_append, List.filterMap_map, Function.comp_def, Effect.arrival,
        Effect.handedOver]
    · exact ⟨rfl, rfl⟩
    · exact ⟨rfl, rfl⟩

/-- The messages that wait have ids that end, and the settings. -/
theorem waits_configured {nsqConfig : Option Bytes} {config : NSQMsg} {blocks : List (List Effect)}
    {last : List PendingMessage × Bool}
    (run : Run (courier nsqConfig config).Step ([], false) blocks last) :
    ∀ msg ∈ last.1, msg.Terminated ∧ msg.delayTime = config.delayTime ∧
      msg.autoFinish = config.autoFinish := by
  refine run.invariant (fun _ s => ∀ msg ∈ s.1, msg.Terminated ∧ msg.delayTime = config.delayTime ∧
    msg.autoFinish = config.autoFinish) ?_ (List.forall_mem_nil _)
  intro taken s block next here one
  cases one with
  | arrive arrives =>
      exact List.forall_mem_append.mpr ⟨here, List.forall_mem_singleton.mpr arrives.2⟩
  | leave leaves => exact fun msg member => here msg (List.mem_cons_of_mem _ member)
  | beside besides => exact here

/-! ## Reading -/

namespace ReadState

/-- From `s` to `t` the work of a courier was done, by the queue and the record of the parser. -/
def Couriers (nsqConfig : Option Bytes) (config : NSQMsg) (s t : ReadState) : Prop :=
  s.msg.settings = config.settings → t.msg.settings = config.settings ∧
    ∃ blocks, t.log = s.log ++ blocks.flatten ∧
      ∀ waiting exception, s.queue.Holds waiting →
        ∃ waiting', t.queue.Holds waiting' ∧
          Run (courier nsqConfig config).Step (waiting, exception) blocks (waiting', exception)

variable {malloc : Malloc} {memory : Memory} {nsqConfig : Option Bytes} {config : NSQMsg}
  {s t u : ReadState}

theorem Couriers.refl (s : ReadState) : Couriers nsqConfig config s s := by
  intro settings
  exact ⟨settings, [], (List.append_nil _).symm, fun waiting exception holds => ⟨waiting, holds, rfl⟩⟩

theorem Couriers.trans (first : Couriers nsqConfig config s t)
    (second : Couriers nsqConfig config t u) : Couriers nsqConfig config s u := by
  intro settings
  obtain ⟨settings', blocks, log, work⟩ := first settings
  obtain ⟨settings'', blocks', log', work'⟩ := second settings'
  refine ⟨settings'', blocks ++ blocks', ?_, ?_⟩
  · rw [log', log, List.flatten_append, List.append_assoc]
  · intro waiting exception holds
    obtain ⟨middle, holds', run⟩ := work waiting exception holds
    obtain ⟨last, holds'', run'⟩ := work' middle exception holds'
    exact ⟨last, holds'', run_append.mpr ⟨_, run, run'⟩⟩

/-- **What a pass does is the work of a courier.** -/
theorem Moves.couriers (moves : Moves s t) : Couriers nsqConfig config s t := by
  intro same
  cases moves with
  | nothing settings log queue =>
      exact ⟨settings.trans same, [], by rw [log]; simp, fun waiting exception holds =>
        ⟨waiting, queue ▸ holds, rfl⟩⟩
  | answered settings log queue =>
      exact ⟨settings.trans same, [[nop]], by rw [log]; rfl, fun waiting exception holds =>
        ⟨waiting, queue ▸ holds, run_singleton.mpr (.beside .heartbeat)⟩⟩
  | enqueued messageId body bodyLen timestamp attempts whole settings log enqueued =>
      refine ⟨settings.trans same, [[_]], by rw [log]; rfl, ?_⟩
      intro waiting exception holds
      obtain ⟨queue, again, longer⟩ := holds.enqueueMessage messageId body bodyLen timestamp
        attempts s.msg.delayTime s.msg.autoFinish
      obtain rfl := Option.some.inj (again.symm.trans enqueued)
      exact ⟨_, longer, run_singleton.mpr (.arrive ⟨rfl,
        terminated_pendingMessage _ _ _ _ _ _ _ whole, NSQMsg.delayTime_of_settings same,
        NSQMsg.autoFinish_of_settings same⟩)⟩

end ReadState

theorem Readcb.couriers {malloc : Malloc} {nsqConfig : Option Bytes} {config : NSQMsg}
    {s s' : ReadState} {call : ReadCall} (returns : Readcb malloc s call s') :
    s.Couriers nsqConfig config s' := by
  have whole : (s.receive call.chunk).Couriers nsqConfig config s' :=
    ReadState.relates_of_exits ReadState.Couriers.refl (fun _ _ _ => .trans)
      (fun _ _ yields => (ReadState.moves_pass yields).couriers) returns
  exact whole

/-! ## Runs of a consumer -/

namespace Consumer

/-- What happened on all connections. -/
def record (c : Consumer) : List Effect := c.connections.flatMap Connection.log

/-- The invariant: what is on record is the work of a courier with the messages of the queue. -/
structure Couriers (nsqConfig : Option Bytes) (config : NSQMsg) (c : Consumer) : Prop where
  settings : c.read.msg.settings = config.settings
  work : ∃ blocks waiting, Run (courier nsqConfig config).Step ([], false) blocks
      (waiting, c.exception) ∧ c.record = blocks.flatten ∧ c.read.queue.Holds waiting

/-- More effects on the connection that is worked on. -/
theorem record_append (c : Consumer) {c' : Consumer} {effects : List Effect} (past : c'.past = c.past)
    (log : c'.read.log = c.read.log ++ effects) : c'.record = c.record ++ effects := by
  simp only [record, connections, connection, past, log, List.flatMap_append,
    List.flatMap_singleton, List.append_assoc]

/-- A new connection adds nothing. -/
theorem record_reconnect (c : Consumer) (link : Link) : (c.reconnect link).record = c.record := by
  simp [record, connections, connection, reconnect]

/-- `subscribe` throws when it fails. -/
theorem lost_exception {c c' : Consumer} {reason : Loss} {outcome : Subscription}
    (step : c.lost reason outcome = some c') :
    c'.exception = c.exception ∨ c'.exception = true := by
  rw [lost.eq_def, Option.ite_none_right_eq_some] at step
  have done := step.2
  cases outcome with
  | dispatching =>
      obtain rfl : c.subscribe .dispatching = c' := by cases reason <;> exact Option.some.inj done
      exact .inl rfl
  | refused =>
      cases reason with
      | eof => exact .inr (congrArg Consumer.exception (Option.some.inj done).symm)
      | error => cases done
  | noBase =>
      cases reason with
      | eof => exact .inr (congrArg Consumer.exception (Option.some.inj done).symm)
      | error => cases done

namespace Couriers

variable {malloc : Malloc} {nsqConfig : Option Bytes} {config : NSQMsg} {c c' : Consumer}

theorem initial : Couriers nsqConfig config (.initial config) where
  settings := rfl
  work := ⟨[], [], rfl, rfl, .initial⟩

/-- One block more. -/
theorem block (couriers : Couriers nsqConfig config c) {effects : List Effect}
    (settings : c'.read.msg.settings = config.settings)
    (record : c'.record = c.record ++ effects)
    (step : ∀ waiting, c.read.queue.Holds waiting → ∃ waiting', c'.read.queue.Holds waiting' ∧
      (courier nsqConfig config).Step (waiting, c.exception) effects (waiting', c'.exception)) :
    Couriers nsqConfig config c' := by
  obtain ⟨blocks, waiting, run, so_far, holds⟩ := couriers.work
  obtain ⟨waiting', holds', one⟩ := step waiting holds
  refine ⟨settings, blocks ++ [effects], waiting', ?_, ?_, holds'⟩
  · exact run_append.mpr ⟨_, run, run_singleton.mpr one⟩
  · rw [record, so_far, List.flatten_append, List.flatten_singleton]

theorem connected (couriers : Couriers nsqConfig config c) (step : c.connected nsqConfig = some c') :
    Couriers nsqConfig config c' := by
  obtain ⟨-, past, behind, opened, rfl⟩ := connected_cases step
  refine couriers.block couriers.settings (record_append c rfl (List.append_assoc ..)) ?_
  intro waiting holds
  rw [opening_of_settings nsqConfig couriers.settings] at opened
  exact ⟨waiting, holds, .beside (.opening opened)⟩

theorem received (couriers : Couriers nsqConfig config c) {call : ReadCall} {read : ReadState}
    (returns : Readcb malloc c.read call read) :
    Couriers nsqConfig config { c with read := read, calls := c.calls ++ [call] } := by
  obtain ⟨blocks, waiting, run, so_far, holds⟩ := couriers.work
  obtain ⟨settings, more, log, work⟩ := returns.couriers couriers.settings
  obtain ⟨waiting', holds', run'⟩ := work waiting c.exception holds
  refine ⟨settings, blocks ++ more, waiting', run_append.mpr ⟨_, run, run'⟩, ?_, holds'⟩
  rw [List.flatten_append, ← so_far]
  exact record_append c rfl log

/-- **A tick hands over the first message that waits**, if there is one. -/
theorem tick (couriers : Couriers nsqConfig config c) {run : CallbackRun}
    (step : c.tick run = some c') : Couriers nsqConfig config c' := by
  obtain ⟨effects, exception, queue, processed, -, rfl⟩ := tick_cases step
  obtain ⟨blocks, waiting, works, so_far, holds⟩ := couriers.work
  rcases processMessageQueue_handOver holds processed with
    ⟨rfl, rfl, rfl, rfl⟩ | ⟨first, rest, issued, rfl, held, wrote, rfl, rfl⟩
  · refine ⟨couriers.settings, blocks, [], works, ?_, holds⟩
    rw [← so_far, ← List.append_nil c.record]
    exact record_append c rfl rfl
  · refine couriers.block couriers.settings (record_append c rfl rfl) ?_
    intro waiting' holds'
    obtain rfl := holds.unique holds'
    refine ⟨rest, held, .leave ⟨run, issued, wrote, ?_, rfl⟩⟩
    rw [NSQMsg.rdy_of_settings couriers.settings]

/-- A loss leaves the record and the queue as they are. -/
theorem lost (couriers : Couriers nsqConfig config c) {reason : Loss} {outcome : Subscription}
    (step : c.lost reason outcome = some c') : Couriers nsqConfig config c' := by
  obtain ⟨blocks, waiting, works, so_far, holds⟩ := couriers.work
  have same : c'.read.msg = c.read.msg ∧ c'.read.queue = c.read.queue ∧ c'.record = c.record := by
    obtain ⟨-, ⟨link, exception, -, rfl⟩ | rfl⟩ := lost_cases step
    · exact ⟨rfl, rfl, c.record_reconnect link⟩
    · exact ⟨rfl, rfl, rfl⟩
  obtain ⟨msg, queue, record⟩ := same
  rcases lost_exception step with kept | thrown
  · exact ⟨msg ▸ couriers.settings, blocks, waiting, kept ▸ works, record.trans so_far, queue ▸ holds⟩
  · refine couriers.block (msg ▸ couriers.settings) (record.trans (List.append_nil _).symm) ?_
    intro waiting holds
    exact ⟨waiting, queue ▸ holds, thrown ▸ .beside .failed⟩

/-- **Every event is the work of a courier.** -/
theorem step (couriers : Couriers nsqConfig config c) {event : ConsumerEvent}
    (step : Consumes malloc nsqConfig c event c') : Couriers nsqConfig config c' := by
  cases event with
  | connected => exact couriers.connected step
  | received call =>
      obtain ⟨-, read, returns, rfl⟩ := step
      exact couriers.received returns
  | tick run => exact couriers.tick step
  | lost reason outcome => exact couriers.lost step

end Couriers

/-- Along every run. -/
theorem couriers_of_run {malloc : Malloc} {nsqConfig : Option Bytes} {config : NSQMsg}
    {events : List ConsumerEvent} {last : Consumer}
    (run : Run (Consumes malloc nsqConfig) (.initial config) events last) :
    last.Couriers nsqConfig config :=
  run.invariant (fun _ c => c.Couriers nsqConfig config) (fun _ _ _ _ here one => here.step one)
    .initial

end Consumer

/-- **A consumer is a courier**: what it puts on record over all connections is the work of a
courier, whatever arrives, is granted, is called and is lost. So the messages that were enqueued are
those that were handed over, in order and each as its own object, and those that wait. -/
theorem consumer_refines_courier {malloc : Malloc} {nsqConfig : Option Bytes} {config : NSQMsg}
    {events : List ConsumerEvent} {last : Consumer}
    (run : Run (Consumes malloc nsqConfig) (.initial config) events last) :
    ∃ blocks handed waiting,
      Run (courier nsqConfig config).Step ([], false) blocks (waiting, last.exception) ∧
      last.record = blocks.flatten ∧ last.read.queue.Holds waiting ∧
      enqueuedIn last.record = handed ++ waiting ∧
      last.record.filterMap Effect.handedOver = handed.map PendingMessage.object := by
  obtain ⟨blocks, waiting, works, record, holds⟩ := (Consumer.couriers_of_run run).work
  obtain ⟨handed, arrived, called⟩ := (courier_shows nsqConfig config).conserved works
  exact ⟨blocks, handed, waiting, works, record, holds, record ▸ arrived, record ▸ called⟩

/-- The message that outlives its connection is handed over once. -/
theorem courier_staleEvents :
    ∃ last, Run (Consumes granted none) (.initial settings) staleEvents last ∧
      ∃ blocks handed waiting,
        Run (courier none settings).Step ([], false) blocks (waiting, last.exception) ∧
        last.record = blocks.flatten ∧ last.read.queue.Holds waiting ∧
        enqueuedIn last.record = handed ++ waiting ∧
        last.record.filterMap Effect.handedOver = handed.map PendingMessage.object := by
  obtain ⟨up, idle⟩ := (Consumer.Idle.initial settings).opened opening_settings
  obtain ⟨read, returns, idle⟩ := idle.received [greeting] (by decide)
  have new : Consumer.Idle settings .connecting [greetingEntry] _ := idle.reconnect .connecting
  obtain ⟨queue, ticks, idle⟩ := new.tick (by decide) rfl (ascii "0123456789abcdef") (by decide)
    (by decide) (by decide)
  obtain ⟨up', -⟩ := idle.opened opening_settings
  have run : Run (Consumes granted none) (.initial settings) staleEvents _ :=
    ⟨_, up, _, ⟨rfl, read, returns, rfl⟩, _, rfl, _, ticks, _, up', rfl⟩
  exact ⟨_, run, consumer_refines_courier run⟩

end PhpNsq
