import PhpNsq.CommandStream
import PhpNsq.Subscriber.Courier

/-!
# What nsqd reads from a consumer

Whatever a consumer goes through, nsqd can read each of its connections: behind the magic come
commands of a consumer and nothing else, however far the output has come (`nsqd_reads_consumer`).
Messages that outlive their connection, early ticks and frames of any kind change which commands
these are, and not that they are commands.

What it takes is that the names are names: the topic and the channel, the ids of the
messages that are settled, and the ids that the callback passes on. The lines of `touch` do not go
through the output buffer and are left out.
-/

set_option autoImplicit false

namespace PhpNsq

open Foundations

/-- The callback names a message to the output buffer. -/
def UserAction.Names : UserAction → Prop
  | .touch _ => False
  | .requeue messageId _ => IsName messageId
  | .finish messageId => IsName messageId

/-- What is settled has a name, by the extension or by the callback. -/
def NamesMessages (c : Consumer) : ConsumerEvent → Prop
  | .tick run => (∀ address node, c.read.queue.messageQueueHead = some address →
      c.read.queue.heap address = some node → node.value.autoFinish = true →
      IsName node.value.id) ∧ ∀ action ∈ run.actions, action.Names
  | _ => True

/-- The commands that a consumer with this configuration sends behind the magic. -/
def Command.OfConsumer (nsqConfig : Option Bytes) (config : NSQMsg) : Command → Prop
  | .sendIdentify json => nsqConfig = some json
  | .nsqSubscribe topic channel => topic = config.topic ∧ channel = config.channel
  | .nsqReady count => count = config.rdy
  | .nsqFinish _ => True
  | .nsqRequeue _ _ => True
  | .nsqNop => True
  | _ => False

/-- The bytes of a command of a consumer. -/
def Spoken (nsqConfig : Option Bytes) (config : NSQMsg) (bytes : Bytes) : Prop :=
  ∃ command : Command, command.WellFormed ∧ command.OfConsumer nsqConfig config ∧
    command.encode = some bytes

/-- The magic and `IDENTIFY` are written directly when the connection comes up; what is buffered are
commands. -/
structure Connection.Speaks (nsqConfig : Option Bytes) (config : NSQMsg)
    (connection : Connection) : Prop where
  direct : directWrites connection.log = [] ∨
    ∃ identify, nsqConfig.mapM identifyCommand = some identify ∧
      directWrites connection.log = ascii "  V2" :: identify.toList
  up : connection.established = true → directWrites connection.log ≠ []
  buffered : ∀ bytes ∈ bufferedWrites connection.log, Spoken nsqConfig config bytes

/-- What may be added to the record of a connection. -/
def Effect.Speaks (nsqConfig : Option Bytes) (config : NSQMsg) : Effect → Prop
  | .buffered _ bytes => Spoken nsqConfig config bytes
  | .direct _ _ => False
  | _ => True

section Effects

variable {nsqConfig : Option Bytes} {config : NSQMsg}

theorem speaks_nop : nop.Speaks nsqConfig config := ⟨.nsqNop, trivial, trivial, nsqNop_eq⟩

theorem speaks_ready : (ready config.rdy).Speaks nsqConfig config :=
  ⟨.nsqReady config.rdy, trivial, rfl, nsqReady_eq config.rdy⟩

/-- The settlement of a message with a name. -/
theorem speaks_settlement {msg : PendingMessage} (terminated : msg.Terminated)
    (isName : IsName msg.id) (callbackSuccess : Bool) :
    Effect.Speaks nsqConfig config (.buffered .extension (settlement msg callbackSuccess)) := by
  have name : cString msg.id = msg.id := cString_of_notMem isName.nul
  have short : (cString msg.id).length ≤ 16 := by
    rw [name]
    exact terminated.2
  rw [Effect.Speaks, settlement_eq terminated.1 terminated.2 isName.nul callbackSuccess]
  cases callbackSuccess with
  | true =>
      refine ⟨.nsqFinish msg.id, isName, trivial, ?_⟩
      rw [Command.encode, nsqFinish_eq short, name]
      rfl
  | false =>
      refine ⟨.nsqRequeue msg.id msg.delayTime, isName, trivial, ?_⟩
      rw [Command.encode, nsqRequeue_eq short, name]
      rfl

/-- The opening of a session with names. -/
theorem spoken_opening (topic : IsName config.topic) (channel : IsName config.channel)
    {past behind : List Bytes} (opened : opening nsqConfig config = some (past, behind)) :
    ∃ identify, nsqConfig.mapM identifyCommand = some identify ∧
      directWrites (past.map (.direct .extension) ++ behind.map (.buffered .extension)) =
        ascii "  V2" :: identify.toList ∧
      ∀ bytes ∈ bufferedWrites
          (past.map (.direct .extension) ++ behind.map (.buffered .extension)),
        Spoken nsqConfig config bytes := by
  rw [opening] at opened
  split at opened
  · next identify subscribe ready identified subscribed readied =>
      obtain ⟨rfl, rfl⟩ := Prod.mk.inj (Option.some.inj opened)
      refine ⟨identify, identified, by cases identify <;> rfl, ?_⟩
      have texts : bufferedWrites ((ascii "  V2" :: identify.toList).map (.direct .extension) ++
          [subscribe, ready].map (.buffered .extension)) = [subscribe, ready] := by
        cases identify <;> rfl
      rw [texts]
      intro bytes member
      rcases List.mem_pair.mp member with rfl | rfl
      · exact ⟨.nsqSubscribe config.topic config.channel, ⟨topic, channel⟩, ⟨rfl, rfl⟩, subscribed⟩
      · exact ⟨.nsqReady config.rdy, trivial, rfl, readied⟩
  · cases opened

/-- What a callback that names its messages writes. -/
theorem UserAction.Names.speaks {action : UserAction} (names : action.Names) {effect : Effect}
    (wrote : action.effect = some effect) : effect.Speaks nsqConfig config := by
  cases action with
  | touch messageId => exact names.elim
  | requeue messageId timeMs =>
      obtain ⟨line, printed, rfl⟩ := Option.map_eq_some_iff.mp wrote
      exact ⟨.nsqRequeue messageId timeMs.toInt32, names, trivial, printed⟩
  | finish messageId =>
      obtain ⟨line, printed, rfl⟩ := Option.map_eq_some_iff.mp wrote
      exact ⟨.nsqFinish messageId, names, trivial, printed⟩

/-- Such effects write nothing directly. -/
theorem directWrites_of_speaks {effects : List Effect}
    (speak : ∀ effect ∈ effects, effect.Speaks nsqConfig config) : directWrites effects = [] := by
  refine List.filterMap_eq_nil_iff.mpr fun effect member => ?_
  match effect, speak effect member with
  | .enqueued _, _ => rfl
  | .called _, _ => rfl
  | .buffered _ _, _ => rfl

theorem spoken_of_speaks {effects : List Effect}
    (speak : ∀ effect ∈ effects, effect.Speaks nsqConfig config) :
    ∀ bytes ∈ bufferedWrites effects, Spoken nsqConfig config bytes := by
  intro bytes member
  obtain ⟨effect, inside, writes⟩ := List.mem_filterMap.mp member
  match effect, speak effect inside, writes with
  | .buffered _ _, spoken, rfl => exact spoken

/-- More effects on a connection. -/
theorem Connection.Speaks.append {connection connection' : Connection}
    (speaks : connection.Speaks nsqConfig config) {effects : List Effect}
    (speak : ∀ effect ∈ effects, effect.Speaks nsqConfig config)
    (established : connection'.established = connection.established)
    (log : connection'.log = connection.log ++ effects) :
    connection'.Speaks nsqConfig config := by
  have direct : directWrites connection'.log = directWrites connection.log := by
    rw [log, directWrites_append, directWrites_of_speaks speak, List.append_nil]
  refine ⟨direct ▸ speaks.direct, fun up => direct ▸ speaks.up (established ▸ up), ?_⟩
  rw [log, bufferedWrites_append]
  exact List.forall_mem_append.mpr ⟨speaks.buffered, spoken_of_speaks speak⟩

end Effects

/-! ## Runs of a consumer -/

namespace Consumer

/-- The invariant. -/
structure Speaks (nsqConfig : Option Bytes) (config : NSQMsg) (c : Consumer) : Prop where
  couriers : c.Couriers nsqConfig config
  connecting : c.link = .connecting → directWrites c.read.log = []
  past : ∀ connection ∈ c.past, connection.Speaks nsqConfig config
  connection : c.connection.Speaks nsqConfig config

namespace Speaks

variable {malloc : Malloc} {nsqConfig : Option Bytes} {config : NSQMsg} {c c' : Consumer}

/-- A connection on which nothing was written. -/
theorem silent {connection : Connection} (log : connection.log = [])
    (down : connection.established = false) : connection.Speaks nsqConfig config where
  direct := .inl (by rw [log]; rfl)
  up := fun up => by rw [down] at up; cases up
  buffered := by
    rw [log]
    exact fun bytes none => by cases none

theorem initial : Speaks nsqConfig config (.initial config) where
  couriers := .initial
  connecting := fun _ => rfl
  past := fun connection none => by cases none
  connection := silent rfl rfl

theorem connections (speaks : Speaks nsqConfig config c) :
    ∀ connection ∈ c.connections, connection.Speaks nsqConfig config :=
  List.forall_mem_append.mpr ⟨speaks.past, List.forall_mem_singleton.mpr speaks.connection⟩

/-- The opening of a session. -/
theorem connected (topic : IsName config.topic) (channel : IsName config.channel)
    (speaks : Speaks nsqConfig config c) (step : c.connected nsqConfig = some c') :
    Speaks nsqConfig config c' := by
  have couriers := speaks.couriers.connected step
  obtain ⟨connecting, past, behind, opened, rfl⟩ := connected_cases step
  rw [opening_of_settings nsqConfig speaks.couriers.settings] at opened
  have quiet := speaks.connecting connecting
  obtain ⟨identify, identified, direct, buffered⟩ := spoken_opening topic channel opened
  have connection : Connection.Speaks nsqConfig config ⟨true, c.calls, c.start,
      c.read.log ++ past.map (.direct .extension) ++ behind.map (.buffered .extension)⟩ := by
    have written : directWrites (c.read.log ++ past.map (.direct .extension) ++
        behind.map (.buffered .extension)) = ascii "  V2" :: identify.toList := by
      rw [List.append_assoc, directWrites_append, quiet, List.nil_append, direct]
    refine ⟨.inr ⟨identify, identified, written⟩, fun _ => written ▸ List.cons_ne_nil _ _, ?_⟩
    rw [List.append_assoc, bufferedWrites_append]
    exact List.forall_mem_append.mpr ⟨speaks.connection.buffered, buffered⟩
  exact ⟨couriers, fun up => (by cases up), speaks.past, connection⟩

theorem received (speaks : Speaks nsqConfig config c) {call : ReadCall} {read : ReadState}
    (returns : Readcb malloc c.read call read) :
    Speaks nsqConfig config { c with read := read, calls := c.calls ++ [call] } := by
  obtain ⟨effects, log, -, kinds⟩ := returns.grows
  have speak : ∀ effect ∈ effects, effect.Speaks nsqConfig config := by
    intro effect member
    rcases kinds effect member with rfl | ⟨msg, rfl, -⟩
    · exact speaks_nop
    · trivial
  refine ⟨speaks.couriers.received returns, fun connecting => ?_, speaks.past,
    speaks.connection.append speak rfl log⟩
  simp only [log, directWrites_append, directWrites_of_speaks speak, List.append_nil]
  exact speaks.connecting connecting

/-- The messages that wait have ids that end. -/
theorem terminated (speaks : Speaks nsqConfig config c) {waiting : List PendingMessage}
    (holds : c.read.queue.Holds waiting) : ∀ msg ∈ waiting, msg.Terminated := by
  obtain ⟨blocks, waiting', works, -, holds'⟩ := speaks.couriers.work
  obtain rfl := holds.unique holds'
  exact fun msg member => (waits_configured works msg member).1

theorem tick (speaks : Speaks nsqConfig config c) {run : CallbackRun}
    (names : NamesMessages c (.tick run)) (step : c.tick run = some c') :
    Speaks nsqConfig config c' := by
  have couriers := speaks.couriers.tick step
  obtain ⟨effects, exception, queue, processed, -, rfl⟩ := tick_cases step
  obtain ⟨-, waiting, -, -, holds⟩ := speaks.couriers.work
  have speak : ∀ effect ∈ effects, effect.Speaks nsqConfig config := by
    rcases processMessageQueue_handOver holds processed with
      ⟨-, rfl, -⟩ | ⟨first, rest, issued, rfl, -, wrote, rfl, -⟩
    · exact List.forall_mem_nil _
    · obtain ⟨address, next, head, cell, -⟩ := holds.represents.pop
      have terminated := speaks.terminated holds first (List.mem_cons_self ..)
      have user : ∀ effect ∈ issued, effect.Speaks nsqConfig config := by
        intro effect member
        obtain ⟨action, called, one⟩ := exists_action_of_mapM wrote effect member
        exact (names.2 action called).speaks one
      rw [NSQMsg.rdy_of_settings speaks.couriers.settings]
      exact List.forall_mem_append.mpr ⟨forall_mem_handed trivial user fun auto =>
        speaks_settlement terminated (names.1 address _ head cell auto) _,
        List.forall_mem_singleton.mpr speaks_ready⟩
  refine ⟨couriers, fun connecting => ?_, speaks.past, speaks.connection.append speak rfl rfl⟩
  simp only [directWrites_append, directWrites_of_speaks speak, List.append_nil]
  exact speaks.connecting connecting

theorem lost (speaks : Speaks nsqConfig config c) {reason : Loss} {outcome : Subscription}
    (step : c.lost reason outcome = some c') : Speaks nsqConfig config c' := by
  have couriers := speaks.couriers.lost step
  obtain ⟨-, ⟨link, exception, -, rfl⟩ | rfl⟩ := lost_cases step
  · exact ⟨couriers, fun _ => rfl, speaks.connections, silent rfl rfl⟩
  · exact ⟨couriers, fun freed => (by cases freed), speaks.past, speaks.connection⟩

/-- **Every event keeps the invariant.** -/
theorem step (topic : IsName config.topic) (channel : IsName config.channel)
    (speaks : Speaks nsqConfig config c) {event : ConsumerEvent} (names : NamesMessages c event)
    (step : Consumes malloc nsqConfig c event c') : Speaks nsqConfig config c' := by
  cases event with
  | connected => exact speaks.connected topic channel step
  | received call =>
      obtain ⟨-, read, returns, rfl⟩ := step
      exact speaks.received returns
  | tick run => exact speaks.tick names step
  | lost reason outcome => exact speaks.lost step

end Speaks

end Consumer

/-- The commands that some texts are. -/
theorem exists_commands {nsqConfig : Option Bytes} {config : NSQMsg} {texts : List Bytes}
    (spoken : ∀ bytes ∈ texts, Spoken nsqConfig config bytes) :
    ∃ sent : List (Command × Bytes), sent.map Prod.snd = texts ∧
      ∀ pair ∈ sent, pair.1.WellFormed ∧ pair.1.OfConsumer nsqConfig config ∧
        pair.1.encode = some pair.2 := by
  induction texts with
  | nil => exact ⟨[], rfl, List.forall_mem_nil _⟩
  | cons bytes texts ih =>
      obtain ⟨command, here⟩ := spoken bytes (List.mem_cons_self ..)
      obtain ⟨sent, same, more⟩ := ih fun other member => spoken other (List.mem_cons_of_mem _ member)
      exact ⟨(command, bytes) :: sent, by rw [List.map_cons, same],
        List.forall_mem_cons.mpr ⟨here, more⟩⟩

/-- Along every run in which the messages that are settled have names. -/
theorem Consumer.speaks_of_run {malloc : Malloc} {nsqConfig : Option Bytes} {config : NSQMsg}
    (topic : IsName config.topic) (channel : IsName config.channel) {events : List ConsumerEvent}
    {last : Consumer}
    (run : Run (guarded NamesMessages (Consumes malloc nsqConfig)) (.initial config) events last) :
    last.Speaks nsqConfig config :=
  run.invariant (fun _ c => c.Speaks nsqConfig config)
    (fun _ _ _ _ here one => here.step topic channel one.1 one.2) .initial

/-- **What nsqd reads from a consumer.** In every run in which the messages that are settled have
names and none is touched, each connection that came up carries the magic and commands of the
consumer, `IDENTIFY` first if it is configured; and at every moment nsqd has read those that have
come in whole. -/
theorem nsqd_reads_consumer {malloc : Malloc} {nsqConfig : Option Bytes} {config : NSQMsg}
    (topic : IsName config.topic) (channel : IsName config.channel)
    (json : ∀ text, nsqConfig = some text → (0 : UInt8) ∉ text) {events : List ConsumerEvent}
    {last : Consumer}
    (run : Run (guarded NamesMessages (Consumes malloc nsqConfig)) (.initial config) events last) :
    ∀ connection ∈ last.connections, connection.established = true →
      ∃ sent : List (Command × Bytes),
        connection.wire = ascii "  V2" :: sent.map Prod.snd ∧
        (∀ pair ∈ sent, pair.1.WellFormed ∧ pair.1.OfConsumer nsqConfig config ∧
          pair.1.encode = some pair.2) ∧
        (nsqConfig.map Command.sendIdentify).toList <+: sent.map Prod.fst ∧
        ∀ received, received <+: (sent.map Prod.snd).flatten →
          ∃ whole waiting left, sent = whole ++ waiting ∧
            received = whole.flatMap Prod.snd ++ left ∧ (waiting = [] → left = []) ∧
            (∀ pair ∈ waiting.head?, left <+: pair.2 ∧ left.length < pair.2.length) ∧
            nsqdReads (ascii "  V2" ++ received) = some (whole.map Prod.fst, left) := by
  have speaks := Consumer.speaks_of_run topic channel run
  intro connection member up
  have here := speaks.connections connection member
  obtain ⟨identify, identified, direct⟩ := here.direct.resolve_left (here.up up)
  obtain ⟨greeting, greets, names, known⟩ := exists_identify json identified
  obtain ⟨sent, texts, spoken⟩ := exists_commands here.buffered
  have ours : ∀ pair ∈ greeting, pair.1.WellFormed ∧ pair.1.OfConsumer nsqConfig config ∧
      pair.1.encode = some pair.2 := by
    intro pair member
    have inside : pair.1 ∈ greeting.map Prod.fst := List.mem_map_of_mem member
    rw [names, Option.mem_toList, Option.map_eq_some_iff] at inside
    obtain ⟨text, configured, same⟩ := inside
    exact ⟨(known pair member).1, same ▸ configured, (known pair member).2⟩
  have all := List.forall_mem_append.mpr ⟨ours, spoken⟩
  refine ⟨greeting ++ sent, ?_, all, ?_, ?_⟩
  · rw [Connection.wire, if_pos up, direct, List.map_append, greets, texts, List.cons_append]
  · rw [List.map_append, names]
    exact List.prefix_append _ _
  · intro received begins
    rw [← List.flatMap_def] at begins
    exact nsqdReads_prefix (fun pair member => (all pair member).1)
      (fun pair member => (all pair member).2.2) begins

theorem Consumer.Idle.names_tick {config : NSQMsg} {link : Link} {first : PendingMessage}
    {waiting : List PendingMessage} {c : Consumer} (idle : Idle config link (first :: waiting) c)
    (isName : IsName first.id) : NamesMessages c (.tick (.returned [])) := by
  refine ⟨fun address node head cell auto => ?_, List.forall_mem_nil _⟩
  obtain ⟨address', next, head', cell', -⟩ := idle.holds.represents.pop
  obtain rfl := Option.some.inj (head.symm.trans head')
  obtain rfl := Option.some.inj (cell.symm.trans cell')
  exact isName

/-- The `FIN` of a message that outlived its connection comes in front of `SUB`, and is read. -/
theorem nsqd_reads_staleEvents :
    ∃ last, Run (guarded NamesMessages (Consumes granted none)) (.initial settings) staleEvents
        last ∧ ∀ connection ∈ last.connections, connection.established = true →
      ∃ sent : List (Command × Bytes), connection.wire = ascii "  V2" :: sent.map Prod.snd ∧
        ∀ received, received <+: (sent.map Prod.snd).flatten →
          ∃ whole left, nsqdReads (ascii "  V2" ++ received) = some (whole.map Prod.fst, left) ∧
            whole <+: sent := by
  obtain ⟨up, idle⟩ := (Consumer.Idle.initial settings).opened opening_settings
  obtain ⟨read, returns, idle⟩ := idle.received [greeting] (by decide)
  have new : Consumer.Idle settings .connecting [greetingEntry] _ := idle.reconnect .connecting
  obtain ⟨queue, ticks, idle⟩ := new.tick (by decide) rfl (ascii "0123456789abcdef") (by decide)
    (by decide) (by decide)
  obtain ⟨up', -⟩ := idle.opened opening_settings
  have isName : IsName greetingEntry.id := by decide
  have run : Run (guarded NamesMessages (Consumes granted none)) (.initial settings) staleEvents _ :=
    ⟨_, ⟨trivial, up⟩, _, ⟨trivial, rfl, read, returns, rfl⟩, _, ⟨trivial, rfl⟩, _,
      ⟨new.names_tick isName, ticks⟩, _, ⟨trivial, up'⟩, rfl⟩
  refine ⟨_, run, fun connection member established => ?_⟩
  obtain ⟨sent, wire, -, -, reads⟩ := nsqd_reads_consumer (by decide) (by decide)
    (fun text none => by cases none) run connection member established
  refine ⟨sent, wire, fun received begins => ?_⟩
  obtain ⟨whole, waiting, left, rfl, -, -, -, read⟩ := reads received begins
  exact ⟨whole, left, read, List.prefix_append _ _⟩

end PhpNsq
