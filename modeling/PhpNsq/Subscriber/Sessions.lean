import PhpNsq.Subscriber.Isolation
import PhpNsq.Subscriber.Settlement

/-!
# The session on every connection

On each connection nsqd should see the opening of a session first (the magic, `IDENTIFY`
if it is configured, `SUB` and `RDY`) and only behind it settlements, `RDY` and
heartbeat answers (`Connection.OpensFirst`), and the extension should settle on a
connection what was received on it (`Connection.SettlesOwn`).

The queue outlives the connection. So both hold as long as no connection is lost while
a message waits or a frame is incomplete, and no message with a NUL in its id is
settled (`sessions_conform`). A message that waits when its connection is lost is settled on
the next one, and if the timer is faster than the connection, in front of the opening
(`not_conform_pending_message`).
-/

set_option autoImplicit false

namespace PhpNsq

open Foundations

/-! ## What a call of readcb adds -/

/-- The id of a queue entry is terminated. -/
def PendingMessage.Terminated (msg : PendingMessage) : Prop :=
  msg.messageId = msg.id ++ [0] ∧ msg.id.length ≤ 16

theorem terminated_pendingMessage (messageId body : Bytes) (bodyLen : ℕ) (timestamp : Int64)
    (attempts : UInt16) (delayTime : Int32) (autoFinish : Bool) (whole : 16 ≤ messageId.length) :
    (pendingMessage messageId body bodyLen timestamp attempts delayTime autoFinish).Terminated := by
  have sixteen : (messageId.take 16).length = 16 := by
    rw [List.length_take]
    omega
  have id : (pendingMessage messageId body bodyLen timestamp attempts delayTime autoFinish).id =
      messageId.take 16 := List.take_left' sixteen
  exact ⟨by rw [id, pendingMessage], id ▸ Nat.le_of_eq sixteen⟩

namespace ReadState

/-- `t` is `s` with queue entries and heartbeat answers added. -/
def Grows (s t : ReadState) : Prop :=
  ∃ effects, t.log = s.log ++ effects ∧
    (∀ waiting, s.queue.Holds waiting → t.queue.Holds (waiting ++ enqueuedIn effects)) ∧
    ∀ effect ∈ effects, effect = nop ∨ ∃ msg, effect = .enqueued msg ∧ msg.Terminated

variable {malloc : Malloc} {memory : Memory} {s t u : ReadState}

theorem Grows.of_untouched (log : t.log = s.log) (queue : t.queue = s.queue) : Grows s t :=
  ⟨[], by simp [log], by simp [queue], by simp⟩

theorem Grows.trans (first : Grows s t) (second : Grows t u) : Grows s u := by
  obtain ⟨effects, log, queue, kinds⟩ := first
  obtain ⟨effects', log', queue', kinds'⟩ := second
  refine ⟨effects ++ effects', by rw [log', log, List.append_assoc], ?_, ?_⟩
  · intro waiting holds
    simpa using queue' _ (queue _ holds)
  · intro effect member
    exact (List.mem_append.mp member).elim (kinds effect) (kinds' effect)

/-- A heartbeat is answered. -/
theorem Grows.nop (log : t.log = s.log ++ [nop]) (queue : t.queue = s.queue) : Grows s t :=
  ⟨[PhpNsq.nop], log, by simp [queue, enqueuedIn, PhpNsq.nop], by simp⟩

/-- What a pass does to the settings, the record and the queue: one thing at most. -/
inductive Moves (s t : ReadState) : Prop where
  | nothing (settings : t.msg.settings = s.msg.settings) (log : t.log = s.log)
      (queue : t.queue = s.queue)
  /-- A heartbeat is answered. -/
  | answered (settings : t.msg.settings = s.msg.settings) (log : t.log = s.log ++ [PhpNsq.nop])
      (queue : t.queue = s.queue)
  /-- `enqueue_message` adds an entry with the settings. -/
  | enqueued (messageId body : Bytes) (bodyLen : ℕ) (timestamp : Int64) (attempts : UInt16)
      (whole : 16 ≤ messageId.length) (settings : t.msg.settings = s.msg.settings)
      (log : t.log = s.log ++ [.enqueued (pendingMessage messageId body bodyLen timestamp attempts
        s.msg.delayTime s.msg.autoFinish)])
      (queue : enqueueMessage true true messageId body bodyLen timestamp attempts s.msg.delayTime
        s.msg.autoFinish s.queue = some t.queue)

/-- What comes before may change the buffer. -/
theorem Moves.of_same (moves : Moves t u) (settings : t.msg.settings = s.msg.settings)
    (log : t.log = s.log) (queue : t.queue = s.queue) : Moves s u := by
  have delayTime := NSQMsg.delayTime_of_settings settings
  have autoFinish := NSQMsg.autoFinish_of_settings settings
  cases moves with
  | nothing settings' log' queue' =>
      exact .nothing (settings'.trans settings) (log'.trans log) (queue'.trans queue)
  | answered settings' log' queue' =>
      exact .answered (settings'.trans settings) (log ▸ log') (queue'.trans queue)
  | enqueued messageId body bodyLen timestamp attempts whole settings' log' queue' =>
      rw [delayTime, autoFinish, log] at log'
      rw [delayTime, autoFinish, queue] at queue'
      exact .enqueued messageId body bodyLen timestamp attempts whole (settings'.trans settings)
        log' queue'

theorem moves_dispatchResponse (yields : Yields s.dispatchResponse t) : Moves s t := by
  by_cases heartbeat : s.msg.size = 15
  · have long : s.msg.size ≠ 0 := by omega
    simp only [dispatchResponse, if_pos heartbeat, if_pos long, yields_again] at yields
    exact .answered (yields ▸ rfl) (yields ▸ rfl) (yields ▸ rfl)
  · simp only [dispatchResponse, if_neg heartbeat] at yields
    split at yields
    · obtain rfl := yields_again.mp yields
      exact .nothing rfl rfl rfl
    · obtain rfl := yields_ok.mp yields
      exact .nothing rfl rfl rfl

theorem moves_dispatchMessage (yields : Yields (s.dispatchMessage malloc) t) : Moves s t := by
  rw [dispatchMessage] at yields
  by_cases short : s.msg.size < 29
  · rw [if_pos short] at yields
    obtain rfl := yields_again.mp yields
    exact .nothing rfl rfl rfl
  by_cases refused : (malloc s.dispatched).body = false
  · simp only [if_neg short, if_pos refused] at yields
    obtain rfl := yields_again.mp yields
    exact .nothing rfl rfl rfl
  by_cases negative : s.msg.size = 29
  · simp only [if_neg short, if_neg refused, if_pos negative] at yields
    exact absurd yields not_yields_error
  simp only [if_neg short, if_neg refused, if_neg negative] at yields
  generalize (ntoh64 (s.message.advance 4)).toInt64 = timestamp at yields
  generalize readI16 (s.message.advance 12) = attempts at yields
  have whole : 16 ≤ (s.message.slice 14 16).length := by simp
  generalize s.message.slice 14 16 = messageId at yields whole
  generalize s.message.slice 30 (s.msg.size - 30).toNat = body at yields
  generalize (s.msg.size - 30).toNat = bodyLen at yields
  split at yields
  · exact absurd yields not_yields_error
  · next queue enqueued =>
      obtain rfl := yields_again.mp yields
      cases granted : (malloc s.dispatched).node && (malloc s.dispatched).nodeBody with
      | false =>
          rw [MessageQueue.Holds.enqueueMessage_failed granted] at enqueued
          refine .nothing rfl ?_ (Option.some.inj enqueued).symm
          simp
      | true =>
          obtain ⟨node, nodeBody⟩ := Bool.and_eq_true_iff.mp granted
          rw [node, nodeBody] at enqueued
          exact .enqueued messageId body bodyLen timestamp attempts whole rfl (by simp) enqueued

theorem moves_dispatchOn {frameType : ℤ} (yields : Yields (s.dispatchOn malloc frameType) t) :
    Moves s t := by
  by_cases response : frameType = 0
  · rw [dispatchOn, if_pos response] at yields
    have moves : Moves (s.noteType frameType) t := moves_dispatchResponse yields
    exact moves.of_same rfl rfl rfl
  by_cases business : frameType = 2
  · rw [dispatchOn, if_neg response, if_pos business] at yields
    have moves : Moves (s.noteType frameType) t := moves_dispatchMessage yields
    exact moves.of_same rfl rfl rfl
  rw [dispatchOn, if_neg response, if_neg business] at yields
  split at yields
  · obtain rfl := yields_ok.mp yields
    exact .nothing rfl rfl rfl
  · obtain rfl := yields_again.mp yields
    exact .nothing rfl rfl rfl

theorem moves_collect (yields : Yields (s.collect malloc) t) : Moves s t := by
  cases body : s.readBody with
  | error fault =>
      simp only [collect, body] at yields
      exact absurd yields not_yields_error
  | ok read =>
      have same : read.msg.settings = s.msg.settings ∧ read.log = s.log ∧ read.queue = s.queue := by
        rw [readBody] at body
        split at body
        · cases body
        · obtain rfl := Except.ok.inj body
          exact ⟨rfl, rfl, rfl⟩
      rw [collect_of_readBody body] at yields
      suffices moves : Moves read t from moves.of_same same.1 same.2.1 same.2.2
      split at yields
      · obtain rfl := yields_ok.mp yields
        exact .nothing rfl rfl rfl
      split at yields
      · exact moves_dispatchOn yields
      · obtain rfl := yields_ok.mp yields
        exact .nothing rfl rfl rfl

/-- **What a pass does.** -/
theorem moves_pass (yields : Yields (s.pass malloc memory) t) : Moves s t := by
  cases first : s.isFirst with
  | false =>
      rw [pass_of_not_first first] at yields
      exact moves_collect yields
  | true =>
      cases start : s.openBuffer memory with
      | error fault =>
          simp only [pass, if_pos first, start] at yields
          exact absurd yields not_yields_error
      | ok opened =>
          have same : opened.msg.settings = s.msg.settings ∧ opened.log = s.log ∧
              opened.queue = s.queue := by
            by_cases empty : s.input = []
            · obtain rfl := Except.ok.inj ((openBuffer_drained empty).symm.trans start)
              exact ⟨rfl, rfl, rfl⟩
            · obtain ⟨size, read⟩ : ∃ size, prefixSize s.input = size := ⟨_, rfl⟩
              have equation := openBuffer_withPrefix memory empty read
              rw [start] at equation
              split at equation
              · cases equation
              · obtain rfl := Except.ok.inj equation
                exact ⟨rfl, rfl, rfl⟩
          rw [pass_of_openBuffer first start] at yields
          exact (moves_collect yields).of_same same.1 same.2.1 same.2.2

theorem Moves.grows (moves : Moves s t) : Grows s t := by
  cases moves with
  | nothing _ log queue => exact .of_untouched log queue
  | answered _ log queue => exact .nop log queue
  | enqueued messageId body bodyLen timestamp attempts whole _ log enqueued =>
      refine ⟨_, log, ?_, ?_⟩
      · intro waiting holds
        obtain ⟨queue', again, longer⟩ := holds.enqueueMessage messageId body bodyLen timestamp
          attempts s.msg.delayTime s.msg.autoFinish
        obtain rfl := Option.some.inj (again.symm.trans enqueued)
        exact longer
      · intro effect member
        obtain rfl := List.mem_singleton.mp member
        exact .inr ⟨_, rfl, terminated_pendingMessage _ _ _ _ _ _ _ whole⟩

end ReadState

/-- **A call adds queue entries and heartbeat answers only.** -/
theorem Readcb.grows {malloc : Malloc} {s s' : ReadState} {call : ReadCall}
    (returns : Readcb malloc s call s') : s.Grows s' := by
  have whole : (s.receive call.chunk).Grows s' :=
    ReadState.relates_of_exits (fun _ => .of_untouched rfl rfl) (fun _ _ _ => .trans)
      (fun _ _ yields => (ReadState.moves_pass yields).grows) returns
  exact whole

/-! ## What a session looks like -/

/-- What the extension wrote past the output buffer. -/
def directWrites (log : List Effect) : List Bytes :=
  log.filterMap fun
    | .direct .extension bytes => some bytes
    | _ => none

/-- What was written to the output buffer. -/
def bufferedWrites (log : List Effect) : List Bytes :=
  log.filterMap fun
    | .buffered _ bytes => some bytes
    | _ => none

@[simp] theorem directWrites_append (first second : List Effect) :
    directWrites (first ++ second) = directWrites first ++ directWrites second :=
  List.filterMap_append

@[simp] theorem bufferedWrites_append (first second : List Effect) :
    bufferedWrites (first ++ second) = bufferedWrites first ++ bufferedWrites second :=
  List.filterMap_append

/-- The commands of a connection in wire order. The output buffer is flushed when the connection
has come up, behind what is written directly then. A touch is the user's and has no place in
the order. -/
def Connection.wire (connection : Connection) : List Bytes :=
  if connection.established then directWrites connection.log ++ bufferedWrites connection.log
  else []

/-- The opening of a session. -/
def sessionOpening (identify : Option Bytes) (config : NSQMsg) : List Bytes :=
  ascii "  V2" :: identify.toList ++
    [ascii "SUB " ++ cString config.topic ++ ascii " " ++ cString config.channel ++ newLine,
      ascii "RDY " ++ decimal config.rdy.toInt ++ newLine]

/-- A command that settles a message. -/
def Settling (bytes : Bytes) : Prop := ascii "FIN " <+: bytes ∨ ascii "REQ " <+: bytes

/-- A command that belongs behind the opening. -/
def LaterCommand (bytes : Bytes) : Prop :=
  Settling bytes ∨ ascii "RDY " <+: bytes ∨ bytes = ascii "NOP\n"

/-- The opening comes first. -/
def Connection.OpensFirst (nsqConfig : Option Bytes) (config : NSQMsg) (connection : Connection) :
    Prop :=
  connection.wire = [] ∨ ∃ identify later, nsqConfig.mapM identifyCommand = some identify ∧
    connection.wire = sessionOpening identify config ++ later ∧ ∀ bytes ∈ later, LaterCommand bytes

/-- A message with this id was received on the connection. -/
def Connection.Received (malloc : Malloc) (config : NSQMsg) (connection : Connection) (id : Bytes) :
    Prop :=
  ∃ t, Run (Readcb malloc) (.fresh config connection.start) connection.calls t ∧
    ∃ msg ∈ enqueuedIn t.log, msg.id = id

/-- The extension settles what was received on the connection. -/
def Connection.SettlesOwn (malloc : Malloc) (config : NSQMsg) (connection : Connection) : Prop :=
  ∀ bytes, .buffered .extension bytes ∈ connection.log → Settling bytes →
    ∃ id, connection.Received malloc config id ∧
      ∃ delayTime callbackSuccess, bytes = settlementText id delayTime callbackSuccess

/-- No connection is lost while a message waits or a frame is incomplete, and no message
with a NUL in its id is settled. -/
def KeepsSession (c : Consumer) : ConsumerEvent → Prop
  | .lost _ _ => c.read.queue.messageQueueHead = none ∧ c.read.isFirst = true
  | .tick _ => ∀ address node, c.read.queue.messageQueueHead = some address →
      c.read.queue.heap address = some node → node.value.autoFinish = true →
      (0 : UInt8) ∉ node.value.id
  | _ => True

/-! ## The record of a session -/

/-- The record of a connection that is up. -/
structure SessionLog (nsqConfig : Option Bytes) (config : NSQMsg) (log : List Effect) : Prop where
  wire : ∃ identify later, nsqConfig.mapM identifyCommand = some identify ∧
    directWrites log ++ bufferedWrites log = sessionOpening identify config ++ later ∧
    ∀ bytes ∈ later, LaterCommand bytes
  settles : ∀ bytes, .buffered .extension bytes ∈ log → Settling bytes →
    ∃ msg ∈ enqueuedIn log, ∃ delayTime callbackSuccess,
      bytes = settlementText msg.id delayTime callbackSuccess

/-- What may be added to a record. -/
def Effect.Allowed (log : List Effect) : Effect → Prop
  | .direct .extension _ => False
  | .buffered .user bytes => LaterCommand bytes
  | .buffered .extension bytes => LaterCommand bytes ∧ (Settling bytes →
      ∃ msg ∈ enqueuedIn log, ∃ delayTime callbackSuccess,
        bytes = settlementText msg.id delayTime callbackSuccess)
  | _ => True

/-- What the callback brings about is a later command. -/
theorem Effect.ByUser.allowed {effect : Effect} {log : List Effect} (byUser : effect.ByUser) :
    effect.Allowed log := by
  cases effect with
  | buffered origin bytes =>
      cases origin with
      | user => exact .inl byUser
      | extension => exact byUser.elim
  | direct origin bytes =>
      cases origin with
      | user => trivial
      | extension => exact byUser.elim
  | enqueued msg => trivial
  | called object => trivial

theorem not_settling_subscribe (text : Bytes) : ¬ Settling (ascii "SUB " ++ text) := by
  simp [Settling, ascii]

theorem not_settling_ready (text : Bytes) : ¬ Settling (ascii "RDY " ++ text) := by
  simp [Settling, ascii]

theorem not_settling_nop : ¬ Settling (ascii "NOP\n") := by
  simp [Settling, ascii]

/-- The settlement of a message that was received. -/
theorem allowed_settlement {log : List Effect} {msg : PendingMessage} (received : msg ∈ enqueuedIn log)
    (terminated : msg.Terminated) (free : (0 : UInt8) ∉ msg.id) (callbackSuccess : Bool) :
    Effect.Allowed log (.buffered .extension (settlement msg callbackSuccess)) := by
  have text := settlement_eq terminated.1 terminated.2 free callbackSuccess
  refine ⟨.inl ?_, fun _ => ⟨msg, received, _, callbackSuccess, text⟩⟩
  rw [text]
  cases callbackSuccess <;> simp [settlementText, Settling]

theorem allowed_ready {log : List Effect} (rdy : Int32) : Effect.Allowed log (ready rdy) :=
  ⟨.inr (.inl (by simp)), fun settling => absurd settling (by simpa using not_settling_ready _)⟩

namespace SessionLog

variable {nsqConfig : Option Bytes} {config : NSQMsg} {log effects : List Effect}

/-- The opening starts a record. -/
theorem opened {msg : NSQMsg} (settings : msg.settings = config.settings)
    {past behind : List Bytes} (opened : opening nsqConfig msg = some (past, behind)) :
    SessionLog nsqConfig config
      (past.map (.direct .extension) ++ behind.map (.buffered .extension)) := by
  rw [opening_of_settings nsqConfig settings] at opened
  obtain ⟨identify, identified, rfl, rfl⟩ := opening_cases opened
  constructor
  · refine ⟨identify, [], identified, ?_, by simp⟩
    cases identify <;> rfl
  · intro bytes member settling
    have behind : bytes ∈ [ascii "SUB " ++ cString config.topic ++ ascii " " ++
        cString config.channel ++ newLine, ascii "RDY " ++ decimal config.rdy.toInt ++ newLine] := by
      simpa using member
    exfalso
    rcases List.mem_pair.mp behind with rfl | rfl
    · simp only [List.append_assoc] at settling
      exact not_settling_subscribe _ settling
    · simp only [List.append_assoc] at settling
      exact not_settling_ready _ settling

/-- What is allowed may be added. -/
theorem append (session : SessionLog nsqConfig config log)
    (allowed : ∀ effect ∈ effects, effect.Allowed log) :
    SessionLog nsqConfig config (log ++ effects) := by
  obtain ⟨identify, later, identified, order, kinds⟩ := session.wire
  have direct : directWrites effects = [] := by
    refine List.filterMap_eq_nil_iff.mpr ?_
    intro effect member
    have here := allowed effect member
    match effect, here with
    | .enqueued _, _ => rfl
    | .called _, _ => rfl
    | .buffered _ _, _ => rfl
    | .direct .user _, _ => rfl
  constructor
  · refine ⟨identify, later ++ bufferedWrites effects, identified, ?_, ?_⟩
    · rw [directWrites_append, direct, List.append_nil, bufferedWrites_append, ← List.append_assoc,
        order, List.append_assoc]
    · intro bytes member
      rcases List.mem_append.mp member with before | now
      · exact kinds bytes before
      · obtain ⟨effect, inside, writes⟩ := List.mem_filterMap.mp now
        have here := allowed effect inside
        match effect, here, writes with
        | .buffered .user _, later, rfl => exact later
        | .buffered .extension _, later, rfl => exact later.1
  · intro bytes member settling
    have longer : ∀ msg, msg ∈ enqueuedIn log → msg ∈ enqueuedIn (log ++ effects) := by
      intro msg member
      rw [enqueuedIn_append]
      exact List.mem_append_left _ member
    have settled : ∃ msg ∈ enqueuedIn log, ∃ delayTime callbackSuccess,
        bytes = settlementText msg.id delayTime callbackSuccess := by
      rcases List.mem_append.mp member with before | now
      · exact session.settles bytes before settling
      · exact (allowed _ now).2 settling
    obtain ⟨msg, inside, text⟩ := settled
    exact ⟨msg, longer msg inside, text⟩

end SessionLog

/-! ## Runs of a consumer -/

/-- Both laws of a connection. -/
structure Connection.Conforms (malloc : Malloc) (nsqConfig : Option Bytes) (config : NSQMsg)
    (connection : Connection) : Prop where
  opensFirst : connection.OpensFirst nsqConfig config
  settlesOwn : connection.SettlesOwn malloc config

/-- The invariant: what waits was received on the connection that is worked on, and nothing is
written to it before its opening. -/
structure Consumer.InSession (malloc : Malloc) (nsqConfig : Option Bytes) (config : NSQMsg)
    (c : Consumer) : Prop where
  sound : c.Sound malloc config
  waiting : ∃ waiting, c.read.queue.Holds waiting ∧
    ∀ msg ∈ waiting, msg ∈ enqueuedIn c.read.log ∧ msg.Terminated
  quiet : c.established = false → c.read.log = []
  session : c.established = true → SessionLog nsqConfig config c.read.log
  connecting : c.link = .connecting → c.established = false
  up : c.link = .up → c.established = true
  past : ∀ connection ∈ c.past, connection.Conforms malloc nsqConfig config

/-- Other effects enqueue nothing. -/
theorem enqueuedIn_readEffects (log : List Effect) : enqueuedIn (readEffects log) = enqueuedIn log := by
  induction log with
  | nil => rfl
  | cons effect log ih =>
      rw [← List.singleton_append, readEffects_append, enqueuedIn_append, enqueuedIn_append, ih]
      congr 1
      match effect with
      | .enqueued _ => rfl
      | .called _ => rfl
      | .direct _ _ => rfl
      | .buffered .user _ => rfl
      | .buffered .extension bytes =>
          by_cases nop : bytes = ascii "NOP\n" <;> simp [readEffects, Effect.ofReading, nop, enqueuedIn]

namespace Consumer.InSession

variable {malloc : Malloc} {nsqConfig : Option Bytes} {config : NSQMsg} {c c' : Consumer}

theorem initial : InSession malloc nsqConfig config (.initial config) where
  sound := .initial malloc config
  waiting := ⟨[], .initial, by simp⟩
  quiet := fun _ => rfl
  session := fun established => by cases established
  connecting := fun _ => rfl
  up := fun up => by cases up
  past := fun connection member => by cases member

/-- The connection that is worked on conforms. -/
theorem connection (inSession : InSession malloc nsqConfig config c) :
    c.connection.Conforms malloc nsqConfig config := by
  cases established : c.established with
  | false =>
      have quiet : c.connection.log = [] := inSession.quiet established
      constructor
      · exact .inl (if_neg (by simp [Consumer.connection, established]))
      · intro bytes member
        rw [quiet] at member
        cases member
  | true =>
      have session := inSession.session established
      constructor
      · have wire : c.connection.wire = directWrites c.read.log ++ bufferedWrites c.read.log :=
          if_pos established
        rw [Connection.OpensFirst, wire]
        exact .inr session.wire
      · intro bytes member settling
        obtain ⟨msg, inside, text⟩ := session.settles bytes member settling
        obtain ⟨t, run, same⟩ := inSession.sound.connection
        have received : msg ∈ enqueuedIn t.log := by
          rw [same, enqueuedIn_readEffects]
          exact inside
        exact ⟨msg.id, ⟨t, run, msg, received, rfl⟩, text⟩

theorem connections (inSession : InSession malloc nsqConfig config c) :
    ∀ connection ∈ c.connections, connection.Conforms malloc nsqConfig config := by
  intro connection member
  rcases List.mem_append.mp member with before | now
  · exact inSession.past connection before
  · exact List.mem_singleton.mp now ▸ inSession.connection

/-- A lost connection leaves nothing behind. -/
theorem reconnect (inSession : InSession malloc nsqConfig config c)
    (empty : c.read.queue.messageQueueHead = none) (first : c.read.isFirst = true) (link : Link)
    (new : link ≠ .up) : InSession malloc nsqConfig config (c.reconnect link) := by
  obtain ⟨waiting, holds, -⟩ := inSession.waiting
  obtain rfl := holds.represents.head_eq_none_iff.mp empty
  exact
    { sound := inSession.sound.reconnect first link
      waiting := ⟨[], holds, by simp⟩
      quiet := fun _ => rfl
      session := fun established => by cases established
      connecting := fun _ => rfl
      up := fun up => absurd up new
      past := inSession.connections }

theorem connected (inSession : InSession malloc nsqConfig config c)
    (step : c.connected nsqConfig = some c') : InSession malloc nsqConfig config c' := by
  have sound := inSession.sound.connected step
  obtain ⟨t, -, mirrors⟩ := inSession.sound.image
  obtain ⟨connecting, past, behind, opened, rfl⟩ := Consumer.connected_cases step
  have quiet := inSession.quiet (inSession.connecting connecting)
  obtain ⟨waiting, holds, received⟩ := inSession.waiting
  have nothing : waiting = [] := by
    refine List.eq_nil_iff_forall_not_mem.mpr ?_
    intro msg member
    have here := (received msg member).1
    rw [quiet] at here
    cases here
  subst nothing
  refine ⟨sound, ⟨[], holds, by simp⟩, fun established => (by cases established),
    fun _ => ?_, fun up => (by cases up), fun _ => rfl, inSession.past⟩
  simp only [quiet, List.nil_append]
  exact .opened mirrors.settings opened

theorem received (inSession : InSession malloc nsqConfig config c) (up : c.link = .up)
    {call : ReadCall} {read : ReadState} (returns : Readcb malloc c.read call read) :
    InSession malloc nsqConfig config { c with read := read, calls := c.calls ++ [call] } := by
  obtain ⟨effects, log, queue, kinds⟩ := returns.grows
  obtain ⟨waiting, holds, received⟩ := inSession.waiting
  have established := inSession.up up
  have entries : ∀ msg ∈ enqueuedIn effects, msg.Terminated := by
    intro msg member
    obtain ⟨effect, inside, entry⟩ := List.mem_filterMap.mp member
    rcases kinds effect inside with rfl | ⟨other, rfl, terminated⟩
    · cases entry
    · exact Option.some.inj entry ▸ terminated
  exact
    { sound := inSession.sound.received returns
      waiting := by
        refine ⟨waiting ++ enqueuedIn effects, queue waiting holds, ?_⟩
        intro msg member
        rw [log, enqueuedIn_append, List.mem_append]
        rcases List.mem_append.mp member with before | now
        · exact ⟨.inl (received msg before).1, (received msg before).2⟩
        · exact ⟨.inr now, entries msg now⟩
      quiet := fun other => absurd (established.symm.trans other) (by simp)
      session := by
        intro _
        simp only [log]
        refine (inSession.session established).append ?_
        intro effect member
        rcases kinds effect member with rfl | ⟨msg, rfl, -⟩
        · exact ⟨.inr (.inr rfl), fun settling => absurd settling not_settling_nop⟩
        · trivial
      connecting := inSession.connecting
      up := inSession.up
      past := inSession.past }

/-- A tick settles what was received on the connection. -/
theorem tick (inSession : InSession malloc nsqConfig config c) {run : CallbackRun}
    (nulFree : KeepsSession c (.tick run)) (step : c.tick run = some c') :
    InSession malloc nsqConfig config c' := by
  have sound := inSession.sound.tick step
  obtain ⟨waiting, holds, received⟩ := inSession.waiting
  obtain ⟨effects, exception, queue, processed, -, rfl⟩ := Consumer.tick_cases step
  rcases processMessageQueue_cases holds processed with
    ⟨rfl, rfl, -, rfl⟩ | ⟨first, rest, issued, success, rfl, holds', user, rfl⟩
  · simp only [List.append_nil] at sound ⊢
    exact ⟨sound, ⟨[], holds, by simp⟩, inSession.quiet, inSession.session,
      inSession.connecting, inSession.up, inSession.past⟩
  · obtain ⟨here, terminated⟩ := received first (List.mem_cons_self ..)
    -- a message that was received waits, so the connection is up
    have established : c.established = true := by
      cases established : c.established with
      | true => rfl
      | false =>
          rw [inSession.quiet established] at here
          cases here
    obtain ⟨address, next, head, cell, -⟩ := holds.represents.pop
    have free := nulFree address _ head cell
    have handed : ∀ effect ∈ .called first.object :: issued ++
        (if first.autoFinish then [.buffered .extension (settlement first success)] else []),
          effect.Allowed c.read.log :=
      forall_mem_handed trivial (fun effect member => (user effect member).allowed)
        fun auto => allowed_settlement here terminated (free auto) success
    have allowed := List.forall_mem_append.mpr
      ⟨handed, List.forall_mem_singleton.mpr (allowed_ready c.read.msg.rdy)⟩
    exact
      { sound := sound
        waiting := by
          refine ⟨rest, holds', ?_⟩
          intro msg member
          obtain ⟨inside, terminated⟩ := received msg (List.mem_cons_of_mem _ member)
          refine ⟨?_, terminated⟩
          rw [enqueuedIn_append]
          exact List.mem_append_left _ inside
        quiet := fun other => absurd (established.symm.trans other) (by simp)
        session := fun _ => (inSession.session established).append allowed
        connecting := inSession.connecting
        up := inSession.up
        past := inSession.past }

theorem lost (inSession : InSession malloc nsqConfig config c) {reason : Loss}
    {outcome : Subscription} (kept : KeepsSession c (.lost reason outcome))
    (step : c.lost reason outcome = some c') : InSession malloc nsqConfig config c' := by
  obtain ⟨empty, first⟩ := kept
  obtain ⟨-, ⟨link, exception, new_link, rfl⟩ | rfl⟩ := Consumer.lost_cases step
  · have new := inSession.reconnect empty first link new_link
    exact { new with sound := ⟨new.sound.past, new.sound.image, new.sound.ready⟩ }
  · exact
      { inSession with
        sound := ⟨inSession.sound.past, inSession.sound.image, inSession.sound.ready⟩
        connecting := fun freed => by cases freed
        up := fun freed => by cases freed }

/-- **Every event that keeps the session keeps the invariant.** -/
theorem step (inSession : InSession malloc nsqConfig config c) {event : ConsumerEvent}
    (kept : KeepsSession c event) (step : Consumes malloc nsqConfig c event c') :
    InSession malloc nsqConfig config c' := by
  cases event with
  | connected => exact inSession.connected step
  | received call =>
      obtain ⟨up, read, returns, rfl⟩ := step
      exact inSession.received up returns
  | tick run => exact inSession.tick kept step
  | lost reason outcome => exact inSession.lost kept step

end Consumer.InSession

/-- **Every connection has its session**, in every run in which no connection is lost while a
message waits or a frame is incomplete, and no message with a NUL in its id is settled. -/
theorem sessions_conform {malloc : Malloc} {nsqConfig : Option Bytes} {config : NSQMsg}
    {events : List ConsumerEvent} {last : Consumer}
    (run : Run (guarded KeepsSession (Consumes malloc nsqConfig)) (.initial config) events last) :
    ∀ connection ∈ last.connections, connection.Conforms malloc nsqConfig config := by
  have inSession : last.InSession malloc nsqConfig config := by
    refine run.invariant (fun _ c => c.InSession malloc nsqConfig config) ?_ .initial
    intro taken c event next here one
    exact here.step one.1 one.2
  exact inSession.connections

/-! ## A message that waits when its connection is lost -/

namespace Consumer.Idle

variable {config : NSQMsg} {link : Link} {waiting : List PendingMessage} {c : Consumer}
  {first : PendingMessage}

/-- The state after a tick that handed this message over. -/
def handed (c : Consumer) (first : PendingMessage) (queue : MessageQueue) : Consumer :=
  { c with
    read := { c.read with
      queue := queue
      log := c.read.log ++ Handed.effects c.read.msg.rdy ⟨first, .returned []⟩ }
    exception := false }

/-- A tick with a callback that returns. -/
theorem tick (idle : Idle config link (first :: waiting) c) (alive : link ≠ .freed)
    (quiet : c.exception = false) (id : Bytes) (terminated : first.messageId = id ++ [0])
    (sixteen : id.length = 16) (free : (0 : UInt8) ∉ id) :
    ∃ queue, c.tick (.returned []) = some (handed c first queue) ∧
      Idle config link waiting (handed c first queue) := by
  obtain ⟨queue, holds, processed⟩ :=
    idle.holds.processMessageQueue c.read.msg.rdy (.returned []) c.exception
  rw [quiet, processBusinessMessage_eq terminated sixteen free rfl] at processed
  refine ⟨queue, ?_, idle.link, idle.tracks, idle.input, idle.settings, holds⟩
  simp only [Consumer.tick, quiet, processed, Option.map_some]
  rw [if_neg (fun freed => alive (idle.link.symm.trans freed.1))]
  rfl

/-- A tick that finds no message. -/
theorem tick_empty (idle : Idle config link [] c) (run : CallbackRun) : c.tick run = some c := by
  simp [Consumer.tick, idle.holds.processMessageQueue_nil]

theorem keeps_tick (idle : Idle config link (first :: waiting) c)
    (free : first.autoFinish = true → (0 : UInt8) ∉ first.id) (run : CallbackRun) :
    KeepsSession c (.tick run) := by
  intro address node head cell auto
  obtain ⟨address', next, head', cell', -⟩ := idle.holds.represents.pop
  obtain rfl := Option.some.inj (head.symm.trans head')
  obtain rfl := Option.some.inj (cell.symm.trans cell')
  exact free auto

/-- The queue of an idle consumer without messages is empty. -/
theorem head (idle : Idle config link [] c) : c.read.queue.messageQueueHead = none :=
  idle.holds.represents.head_eq_none_iff.mpr rfl

theorem keeps_tick_empty (idle : Idle config link [] c) (run : CallbackRun) :
    KeepsSession c (.tick run) := by
  intro address node head
  rw [idle.head] at head
  cases head

end Consumer.Idle

/-- The queue entry of `greeting`. -/
def greetingEntry : PendingMessage :=
  pendingMessage (ascii "0123456789abcdef") (ascii "hello") 5 0 1 0 true

/-- A message arrives, its connection is lost, and the timer is faster than the next connection. -/
def staleEvents : List ConsumerEvent :=
  [.connected, .received ⟨encodeAll [greeting], zeroMemory⟩, .lost .eof .dispatching,
    .tick (.returned []), .connected]

/-- **A message that is settled on the wrong connection.** Its `FIN` goes out between the magic
and `SUB`, on a connection on which nothing was received. -/
theorem not_conform_pending_message :
    ∃ last, Run (Consumes granted none) (.initial settings) staleEvents last ∧
      ∃ connection ∈ last.connections, ¬ connection.OpensFirst none settings ∧
        ¬ connection.SettlesOwn granted settings := by
  obtain ⟨up, idle⟩ := (Consumer.Idle.initial settings).opened opening_settings
  obtain ⟨read, returns, idle⟩ := idle.received [greeting] (by decide)
  have new : Consumer.Idle settings .connecting [greetingEntry] _ := idle.reconnect .connecting
  obtain ⟨queue, ticks, idle⟩ := new.tick (by decide) rfl (ascii "0123456789abcdef") (by decide)
    (by decide) (by decide)
  obtain ⟨up', -⟩ := idle.opened opening_settings
  refine ⟨_, ⟨_, up, _, ⟨rfl, read, returns, rfl⟩, _, rfl, _, ticks, _, up', rfl⟩, _,
    List.mem_append_right _ (List.mem_singleton_self _), ?_, ?_⟩
  · rintro (nothing | ⟨identify, later, identified, order, -⟩)
    · exact List.cons_ne_nil _ _ nothing
    · obtain rfl : none = identify := Option.some.inj identified
      -- behind the magic comes `FIN`, not `SUB`
      have second : ascii "FIN 0123456789abcdef\n" = ascii "SUB topic channel\n" :=
        (List.cons.inj (List.cons.inj order).2).1
      exact absurd second (by decide)
  · intro settlesOwn
    obtain ⟨id, ⟨t, run, msg, received, -⟩, -⟩ := settlesOwn (ascii "FIN 0123456789abcdef\n")
      (List.mem_append_left _ (List.mem_append_left _ (List.mem_append_right _
        (List.mem_cons_of_mem _ (List.mem_cons_self ..))))) (.inl (by decide))
    -- the connection saw no call of `readcb`
    obtain rfl : ReadState.fresh settings _ = t := run
    cases received

/-- A message that is settled, a loss behind it, and a tick in front of the next opening. -/
def calmEvents : List ConsumerEvent :=
  [.connected, .received ⟨encodeAll [greeting], zeroMemory⟩, .tick (.returned []),
    .lost .error .dispatching, .tick .notCalled, .connected]

theorem conform_calmEvents :
    ∃ last, Run (Consumes granted none) (.initial settings) calmEvents last ∧
      ∀ connection ∈ last.connections, connection.Conforms granted none settings := by
  obtain ⟨up, idle⟩ := (Consumer.Idle.initial settings).opened opening_settings
  obtain ⟨read, returns, idle⟩ := idle.received [greeting] (by decide)
  have waiting : Consumer.Idle settings .up [greetingEntry] _ := idle
  obtain ⟨queue, ticks, idle⟩ := waiting.tick (by decide) rfl (ascii "0123456789abcdef") (by decide)
    (by decide) (by decide)
  have new := idle.reconnect .connecting
  obtain ⟨up', -⟩ := new.opened opening_settings
  refine ⟨_, ⟨_, up, _, ⟨rfl, read, returns, rfl⟩, _, ticks, _, rfl, _, new.tick_empty .notCalled, _,
    up', rfl⟩, ?_⟩
  have run : Run (guarded KeepsSession (Consumes granted none)) (.initial settings) calmEvents _ :=
    ⟨_, ⟨trivial, up⟩, _, ⟨trivial, rfl, read, returns, rfl⟩, _,
      ⟨waiting.keeps_tick (fun _ => by decide) _, ticks⟩, _,
      ⟨⟨idle.head, idle.tracks.1⟩, rfl⟩, _,
      ⟨new.keeps_tick_empty _, new.tick_empty .notCalled⟩, _, ⟨trivial, up'⟩, rfl⟩
  exact sessions_conform run

end PhpNsq
