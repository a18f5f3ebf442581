import PhpNsq.Foundations.Runs
import PhpNsq.Subscriber.Consumer
import PhpNsq.Subscriber.Delivery
import PhpNsq.Subscriber.Mirroring

/-!
# Reading one connection, and the ones before it

What `readcb` enqueues and answers on a connection should be what a parser that starts
fresh makes of the calls of that connection (`Connection.Isolated`). The statics are not
reset when a connection is lost, so this holds as long as no connection is lost in the
middle of a frame body (`isolated_of_loss_between_frames`): whenever `readcb` returns with
`is_first` set, `l` is zero (`Readcb.l_of_isFirst`), and then the parser is the mirror image
of a fresh one.

A connection that is lost in the middle of a frame body leaves the parser waiting
for the rest of that body. It takes the first bytes of the next connection for it
(`not_isolated_cut_message`).
-/

set_option autoImplicit false

namespace PhpNsq

open Foundations

/-! ## The statics at the end of a call -/

namespace ReadState

variable {malloc : Malloc} {memory : Memory} {s s' : ReadState}

/-- The branch of a message goes round again, or copies a body of negative length. -/
theorem dispatchMessage_ne_ok : s.dispatchMessage malloc ≠ .leave (.ok s') := by
  intro left
  rw [dispatchMessage] at left
  by_cases short : s.msg.size < 29
  · rw [if_pos short] at left
    cases left
  by_cases refused : (malloc s.dispatched).body = false
  · simp only [if_neg short, if_pos refused] at left
    cases left
  by_cases negative : s.msg.size = 29
  · simp only [if_neg short, if_neg refused, if_pos negative] at left
    cases left
  · simp only [if_neg short, if_neg refused, if_neg negative] at left
    split at left
    · cases left
    · cases left

/-- Every branch that leaves the loop has reset `l`. -/
theorem dispatchOn_leave {frameType : ℤ} (left : s.dispatchOn malloc frameType = .leave (.ok s')) :
    s'.l = 0 := by
  by_cases response : frameType = 0
  · rw [dispatchOn, if_pos response, dispatchResponse] at left
    split at left
    · cases left
    · cases left
      rfl
  by_cases business : frameType = 2
  · rw [dispatchOn, if_neg response, if_pos business] at left
    exact absurd left dispatchMessage_ne_ok
  · rw [dispatchOn, if_neg response, if_neg business] at left
    split at left
    · cases left
      rfl
    · cases left

theorem collect_leave (left : s.collect malloc = .leave (.ok s')) (first : s'.isFirst = true) :
    s'.l = 0 := by
  cases body : s.readBody with
  | error fault => simp [collect, body] at left
  | ok read =>
      rw [collect_of_readBody body] at left
      split at left
      · cases left
        cases first
      split at left
      · exact dispatchOn_leave left
      · cases left
        rfl

theorem pass_leave (left : s.pass malloc memory = .leave (.ok s')) (first : s'.isFirst = true) :
    s'.l = 0 := by
  cases start : s.isFirst with
  | false =>
      rw [pass_of_not_first start] at left
      exact collect_leave left first
  | true =>
      cases prefix_read : s.openBuffer memory with
      | error fault => simp [pass, start, prefix_read] at left
      | ok opened =>
          rw [pass_of_openBuffer start prefix_read] at left
          exact collect_leave left first

end ReadState

/-- **A call that returns in between frames returns with `l` zero.** -/
theorem Readcb.l_of_isFirst {malloc : Malloc} {s s' : ReadState} {call : ReadCall}
    (returns : Readcb malloc s call s') (first : s'.isFirst = true) : s'.l = 0 := by
  obtain ⟨before, -, left⟩ := Exits.passes returns
  exact ReadState.pass_leave left first

/-! ## Effects that are not of reading -/

theorem Effect.ByUser.not_ofReading {effect : Effect} (byUser : effect.ByUser) :
    ¬ effect.ofReading = true := by
  match effect, byUser with
  | .buffered .user bytes, _ => simp [Effect.ofReading]
  | .direct .user bytes, _ => simp [Effect.ofReading]

/-- A settlement command is no heartbeat answer. -/
theorem settlement_ne_nop (msg : PendingMessage) (callbackSuccess : Bool) :
    settlement msg callbackSuccess ≠ ascii "NOP\n" := by
  cases callbackSuccess <;>
    simp [settlement, snprintf, cString, ascii]

/-- A tick does not read. -/
theorem readEffects_tick {rdy : Int32} {run : CallbackRun} {exception exception' : Bool}
    {queue queue' : MessageQueue} {effects : List Effect} (held : ∃ waiting, queue.Holds waiting)
    (processed : processMessageQueue rdy run exception queue = some (effects, exception', queue')) :
    readEffects effects = [] ∧ ∃ waiting, queue'.Holds waiting := by
  obtain ⟨waiting, holds⟩ := held
  rcases processMessageQueue_cases holds processed with
    ⟨rfl, rfl, -, rfl⟩ | ⟨first, rest, issued, success, -, holds', user, rfl⟩
  · exact ⟨rfl, _, holds⟩
  · refine ⟨List.filter_eq_nil_iff.mpr ?_, rest, holds'⟩
    refine List.forall_mem_append.mpr
      ⟨forall_mem_handed ?_ ?_ ?_, List.forall_mem_singleton.mpr ?_⟩
    · simp [Effect.ofReading]
    · exact fun effect member => (user effect member).not_ofReading
    · simp [Effect.ofReading, settlement_ne_nop]
    · simp [Effect.ofReading, ready, ascii]

/-- Nor does the opening of a session. -/
theorem readEffects_opening {nsqConfig : Option Bytes} {msg : NSQMsg} {past behind : List Bytes}
    (opened : opening nsqConfig msg = some (past, behind)) :
    readEffects (past.map (.direct .extension) ++ behind.map (.buffered .extension)) = [] := by
  obtain ⟨identify, -, -, rfl⟩ := opening_cases opened
  refine List.filter_eq_nil_iff.mpr ?_
  intro effect member
  rcases List.mem_append.mp member with direct | buffered
  · obtain ⟨bytes, -, rfl⟩ := List.mem_map.mp direct
    simp [Effect.ofReading]
  · obtain ⟨bytes, inside, rfl⟩ := List.mem_map.mp buffered
    rcases List.mem_pair.mp inside with rfl | rfl <;> simp [Effect.ofReading, ascii]

/-! ## Isolation -/

/-- Reading this connection did what a fresh parser does on its calls. -/
def Connection.Isolated (malloc : Malloc) (config : NSQMsg) (connection : Connection) : Prop :=
  ∃ t, Run (Readcb malloc) (ReadState.fresh config connection.start) connection.calls t ∧
    t.log = readEffects connection.log

/-- A connection is only lost in between frames. -/
def LossBetweenFrames (c : Consumer) : ConsumerEvent → Prop
  | .lost _ _ => c.read.isFirst = true
  | _ => True

/-- The invariant: the connections before are isolated, and on the one that is worked on
the parser is the image of a fresh one. -/
structure Consumer.Sound (malloc : Malloc) (config : NSQMsg) (c : Consumer) : Prop where
  past : ∀ connection ∈ c.past, connection.Isolated malloc config
  image : ∃ t, Run (Readcb malloc) (.fresh config c.start) c.calls t ∧
    ReadState.Mirrors config c.read t
  ready : c.read.isFirst = true → c.read.l = 0

namespace Consumer.Sound

variable {malloc : Malloc} {config : NSQMsg} {nsqConfig : Option Bytes} {c c' : Consumer}

theorem initial (malloc : Malloc) (config : NSQMsg) : Sound malloc config (.initial config) where
  past := fun connection member => by cases member
  image := ⟨_, rfl, ReadState.Mirrors.fresh rfl rfl rfl rfl rfl rfl rfl ⟨[], .initial⟩⟩
  ready := fun _ => rfl

/-- The connection that is worked on is isolated too. -/
theorem connection (sound : Sound malloc config c) : c.connection.Isolated malloc config := by
  obtain ⟨t, run, mirrors⟩ := sound.image
  exact ⟨t, run, mirrors.log⟩

theorem connections (sound : Sound malloc config c) :
    ∀ connection ∈ c.connections, connection.Isolated malloc config := by
  intro connection member
  rcases List.mem_append.mp member with before | now
  · exact sound.past connection before
  · exact List.mem_singleton.mp now ▸ sound.connection

/-- A new connection finds a parser that is as good as fresh. -/
theorem reconnect (sound : Sound malloc config c) (first : c.read.isFirst = true) (link : Link) :
    Sound malloc config (c.reconnect link) := by
  obtain ⟨t, -, mirrors⟩ := sound.image
  exact
    { past := sound.connections
      image := ⟨_, rfl, ReadState.Mirrors.fresh first (sound.ready first) rfl rfl rfl rfl
        mirrors.settings mirrors.held⟩
      ready := sound.ready }

theorem connected (sound : Sound malloc config c) (step : c.connected nsqConfig = some c') :
    Sound malloc config c' := by
  obtain ⟨t, run, mirrors⟩ := sound.image
  obtain ⟨-, past, behind, opened, rfl⟩ := Consumer.connected_cases step
  have unread := mirrors.unread (readEffects_opening opened)
  rw [← List.append_assoc] at unread
  exact ⟨sound.past, ⟨t, run, unread⟩, sound.ready⟩

theorem received (sound : Sound malloc config c) {call : ReadCall} {read : ReadState}
    (returns : Readcb malloc c.read call read) :
    Sound malloc config { c with read := read, calls := c.calls ++ [call] } := by
  obtain ⟨t, run, mirrors⟩ := sound.image
  obtain ⟨t', returns', mirrored⟩ := mirrors.readcb returns
  exact
    { past := sound.past
      image := ⟨t', run_append.mpr ⟨t, run, run_singleton.mpr returns'⟩, mirrored⟩
      ready := returns.l_of_isFirst }

theorem tick (sound : Sound malloc config c) {run : CallbackRun} (step : c.tick run = some c') :
    Sound malloc config c' := by
  obtain ⟨t, taken, mirrors⟩ := sound.image
  obtain ⟨effects, exception, queue, processed, -, rfl⟩ := Consumer.tick_cases step
  obtain ⟨unread, held⟩ := readEffects_tick mirrors.held processed
  exact ⟨sound.past, ⟨t, taken, (mirrors.requeued held).unread unread⟩, sound.ready⟩

theorem lost (sound : Sound malloc config c) (first : c.read.isFirst = true) {reason : Loss}
    {outcome : Subscription} (step : c.lost reason outcome = some c') :
    Sound malloc config c' := by
  obtain ⟨-, ⟨link, exception, -, rfl⟩ | rfl⟩ := Consumer.lost_cases step
  · have new := sound.reconnect first link
    exact ⟨new.past, new.image, new.ready⟩
  · exact ⟨sound.past, sound.image, sound.ready⟩

/-- **Every event whose loss is in between frames keeps the invariant.** -/
theorem step (sound : Sound malloc config c) {event : ConsumerEvent}
    (between : LossBetweenFrames c event) (step : Consumes malloc nsqConfig c event c') :
    Sound malloc config c' := by
  cases event with
  | connected => exact sound.connected step
  | received call =>
      obtain ⟨-, read, returns, rfl⟩ := step
      exact sound.received returns
  | tick run => exact sound.tick step
  | lost reason outcome => exact sound.lost between step

end Consumer.Sound

/-- **Every connection is read as by a fresh parser**, in every run in which no connection is
lost in the middle of a frame body. -/
theorem isolated_of_loss_between_frames {malloc : Malloc} {config : NSQMsg}
    {nsqConfig : Option Bytes} {events : List ConsumerEvent} {last : Consumer}
    (run : Run (guarded LossBetweenFrames (Consumes malloc nsqConfig)) (.initial config) events
      last) :
    ∀ connection ∈ last.connections, connection.Isolated malloc config := by
  have sound : last.Sound malloc config := by
    refine run.invariant (fun _ c => c.Sound malloc config) ?_ (.initial malloc config)
    intro taken c event next here one
    exact here.step one.1 one.2
  exact sound.connections

/-! ## A message cut by the loss of its connection -/

/-- The opening depends on the settings only. -/
theorem opening_of_settings {msg other : NSQMsg} (nsqConfig : Option Bytes)
    (same : msg.settings = other.settings) : opening nsqConfig msg = opening nsqConfig other := by
  have topic : msg.settings.topic = other.settings.topic := congrArg NSQMsg.topic same
  have channel : msg.settings.channel = other.settings.channel := congrArg NSQMsg.channel same
  have rdy : msg.settings.rdy = other.settings.rdy := congrArg NSQMsg.rdy same
  simp only [NSQMsg.settings] at topic channel rdy
  rw [opening, opening, topic, channel, rdy]

/-- The consumer once its connection is up. -/
def Consumer.opened (c : Consumer) (past behind : List Bytes) : Consumer :=
  { c with
    read := { c.read with
      log := c.read.log ++ past.map (.direct .extension) ++ behind.map (.buffered .extension) }
    link := .up
    established := true }

theorem Consumer.connected_eq {c : Consumer} {nsqConfig : Option Bytes} {config : NSQMsg}
    {past behind : List Bytes} (connecting : c.link = .connecting)
    (settings : c.read.msg.settings = config.settings)
    (opened : opening nsqConfig config = some (past, behind)) :
    c.connected nsqConfig = some (c.opened past behind) := by
  rw [Consumer.connected, if_pos connecting, opening_of_settings nsqConfig settings, opened]
  rfl

/-- What `settings` open a session with. -/
theorem opening_settings : opening none settings =
    some ([ascii "  V2"], [ascii "SUB topic channel\n", ascii "RDY 1\n"]) := by
  decide

/-- A message whose body is a heartbeat frame. -/
def tailed : Frame :=
  .message ⟨0, 1, ⟨ascii "0123456789abcdef", length_id⟩, heartbeat.encode⟩ (by decide)

/-- The connection is lost in front of the body of that message, and the next one begins with
a heartbeat. -/
def cutEvents : List ConsumerEvent :=
  [.connected, .received ⟨tailed.encode.take 34, zeroMemory⟩, .lost .eof .dispatching, .connected,
    .received ⟨heartbeat.encode, zeroMemory⟩]

/-- A parser that has seen the message up to its body, and then the heartbeat. -/
theorem readcb_tailed (s : ReadState) (ready : s.Tracks none) (empty : s.input = [])
    (holds : s.queue.Holds []) :
    ∃ middle last, Readcb granted s ⟨tailed.encode.take 34, zeroMemory⟩ middle ∧
      Readcb granted middle ⟨heartbeat.encode, zeroMemory⟩ last ∧ middle.log = s.log ∧
      middle.input = [] ∧ middle.msg.settings = s.msg.settings ∧ middle.queue.Holds [] ∧
      last.log ≠ s.log ++ [nop] := by
  have plain : ∀ frame ∈ [tailed], ¬ frame.IsError := by decide
  have bytes : delivered [⟨tailed.encode.take 34, zeroMemory⟩, ⟨heartbeat.encode, zeroMemory⟩] =
      encodeAll [tailed] := by decide
  have clean : BoundariesOutsidePrefixes [tailed]
      [⟨tailed.encode.take 34, zeroMemory⟩, ⟨heartbeat.encode, zeroMemory⟩] := by decide
  have zero : DrainedZero [⟨tailed.encode.take 34, zeroMemory⟩, ⟨heartbeat.encode, zeroMemory⟩] :=
    drainedZero_of_zeroMemory (by simp)
  obtain ⟨last, run, -, -, processed⟩ := run_of_zero granted ready empty holds plain bytes clean zero
  obtain ⟨middle, first, last', second, same⟩ := run
  obtain rfl : last' = last := same
  obtain ⟨done, view, after, along⟩ := along_of_run ready empty holds plain bytes clean rfl
    (run_singleton.mpr first)
  -- the message is not complete yet
  have nothing : done = [] := by
    cases done with
    | nil => rfl
    | cons frame done =>
        obtain ⟨rfl, rest⟩ := List.cons.inj along.split
        have lengths := along.length_delivered
        have whole : (encodeAll (tailed :: done ++ partOf view)).length ≥ tailed.encode.length := by
          simp
        have missing_none : missing view = [] := by
          cases view with
          | none => rfl
          | some part => simp [partOf] at rest
        rw [missing_none] at lengths
        have short : (delivered [⟨tailed.encode.take 34, zeroMemory⟩]).length = 34 := by decide
        have long : tailed.encode.length = 53 := by decide
        simp only [List.length_nil] at lengths
        omega
  subst nothing
  have log := along.processed.log
  have queue := along.processed.queue
  simp only [effectsFrom_nil, List.append_nil, enqueuedIn_nil] at log queue
  refine ⟨middle, last', first, second, log, along.empty, along.processed.settings, queue, ?_⟩
  intro same
  have effects := List.append_cancel_left (processed.log.symm.trans same)
  simp [tailed, Frame.effectsUnder, granted, Grants.all, nop] at effects

/-- Whole frames in one chunk are processed at once. -/
theorem readcb_whole {s : ReadState} {old : List PendingMessage} {frames : List Frame}
    (ready : s.Tracks none) (empty : s.input = []) (holds : s.queue.Holds old)
    (plain : ∀ frame ∈ frames, ¬ frame.IsError) :
    ∃ read, Readcb granted s ⟨encodeAll frames, zeroMemory⟩ read ∧ read.Tracks none ∧
      read.input = [] ∧ ReadState.Processed granted s old frames read := by
  have bytes : delivered [⟨encodeAll frames, zeroMemory⟩] = encodeAll frames :=
    List.append_nil _
  have clean : BoundariesOutsidePrefixes frames [⟨encodeAll frames, zeroMemory⟩] := by
    intro first rest before frame after split place
    cases first with
    | nil =>
        intro inside
        exact absurd inside.1 (Nat.not_lt_zero _)
    | cons call first =>
        obtain ⟨rfl, nothing⟩ := List.cons.inj split
        obtain rfl : first = [] := (List.append_eq_nil_iff.mp nothing.symm).1
        rw [bytes]
        exact end_outside_prefixes place
  obtain ⟨last, run, tracks, input, processed⟩ := run_of_zero granted ready empty holds plain bytes
    clean (drainedZero_of_zeroMemory (by simp))
  exact ⟨last, run_singleton.mp run, tracks, input, processed⟩

/-- A consumer in between frames, with these messages waiting. -/
structure Consumer.Idle (config : NSQMsg) (link : Link) (waiting : List PendingMessage)
    (c : Consumer) : Prop where
  link : c.link = link
  tracks : c.read.Tracks none
  input : c.read.input = []
  settings : c.read.msg.settings = config.settings
  holds : c.read.queue.Holds waiting

namespace Consumer.Idle

variable {config : NSQMsg} {link : Link} {waiting : List PendingMessage} {c : Consumer}

theorem initial (config : NSQMsg) : Consumer.Idle config .connecting [] (.initial config) :=
  ⟨rfl, ⟨rfl, rfl⟩, rfl, rfl, .initial⟩

theorem opened (idle : Idle config .connecting waiting c) {nsqConfig : Option Bytes}
    {past behind : List Bytes} (opens : opening nsqConfig config = some (past, behind)) :
    c.connected nsqConfig = some (c.opened past behind) ∧
      Idle config .up waiting (c.opened past behind) :=
  ⟨Consumer.connected_eq idle.link idle.settings opens,
    ⟨rfl, idle.tracks, idle.input, idle.settings, idle.holds⟩⟩

theorem received (idle : Idle config .up waiting c) (frames : List Frame)
    (plain : ∀ frame ∈ frames, ¬ frame.IsError) :
    ∃ read, Readcb granted c.read ⟨encodeAll frames, zeroMemory⟩ read ∧
      Idle config .up
        (waiting ++ enqueuedIn (effectsFrom granted c.read.msg c.read.dispatched frames))
        { c with read := read, calls := c.calls ++ [⟨encodeAll frames, zeroMemory⟩] } := by
  obtain ⟨read, returns, tracks, input, processed⟩ :=
    readcb_whole idle.tracks idle.input idle.holds plain
  exact ⟨read, returns, idle.link, tracks, input, processed.settings.trans idle.settings,
    processed.queue⟩

theorem reconnect (idle : Idle config link waiting c) (new : Link) :
    Idle config new waiting (c.reconnect new) :=
  ⟨rfl, idle.tracks, rfl, idle.settings, idle.holds⟩

end Consumer.Idle

/-- A loss with nothing left to read, in the middle of a frame or not, is seen by the image. -/
theorem ReadState.Mirrors.reconnected {config : NSQMsg} {s t : ReadState}
    (mirrors : Mirrors config s t) (empty : t.input = []) (log : t.log = []) :
    Mirrors config { s with input := [], log := [], opened := 0, drained := 0 }
      { t with opened := 0, drained := 0 } :=
  { mirrors with
    input := empty
    opened := rfl
    drained := rfl
    log := log
    body := fun middle =>
      ⟨(mirrors.body middle).message, (mirrors.body middle).room, (mirrors.body middle).size⟩ }

/-- **A message that mixes bytes of two connections.** The second connection brings a
heartbeat, and it is taken for the body that the first one left open. -/
theorem not_isolated_cut_message :
    ∃ last, Run (Consumes granted none) (.initial settings) cutEvents last ∧
      ∃ connection ∈ last.connections, ¬ connection.Isolated granted settings := by
  have up := Consumer.connected_eq (c := .initial settings) rfl rfl opening_settings
  have unread := readEffects_opening opening_settings
  have image : ReadState.Mirrors settings (.initial settings) (.fresh settings 0) :=
    ReadState.Mirrors.fresh rfl rfl rfl rfl rfl rfl rfl ⟨[], .initial⟩
  -- what a single parser does with the two chunks
  obtain ⟨middle, last, first, second, log, input, -, -, swallowed⟩ :=
    readcb_tailed (.fresh settings 0) ⟨rfl, rfl⟩ rfl .initial
  obtain ⟨read, returns, mirrors⟩ := (image.unread unread).readcb_of_image first
  have again := (mirrors.reconnected input log).unread unread
  obtain ⟨read', returns', mirrors'⟩ :
      ∃ read', Readcb granted _ _ read' ∧ ReadState.Mirrors settings read' last :=
    again.readcb_of_image second
  refine ⟨_, ⟨_, up, _, ⟨rfl, read, returns, rfl⟩, _, rfl, _,
    Consumer.connected_eq rfl mirrors.settings opening_settings, _,
    ⟨rfl, read', returns', rfl⟩, rfl⟩, _, List.mem_append_right _ (List.mem_singleton_self _), ?_⟩
  -- a fresh parser answers the heartbeat
  rintro ⟨t, run, same⟩
  have plain : ∀ frame ∈ [heartbeat], ¬ frame.IsError := by decide
  obtain ⟨fresh, answers, -, -, processed⟩ :=
    readcb_whole (s := .fresh settings read.dispatched) ⟨rfl, rfl⟩ rfl .initial plain
  obtain rfl : t = fresh := Readcb.run_unique run (run_singleton.mpr answers)
  have answered : t.log = [nop] := processed.log
  exact swallowed (mirrors'.log.trans (same.symm.trans answered))

/-- A message, a loss behind it, and a heartbeat on the next connection. -/
def cleanEvents : List ConsumerEvent :=
  [.connected, .received ⟨encodeAll [greeting], zeroMemory⟩, .lost .eof .dispatching, .connected,
    .received ⟨encodeAll [heartbeat], zeroMemory⟩]

theorem isolated_cleanEvents :
    ∃ last, Run (Consumes granted none) (.initial settings) cleanEvents last ∧
      ∀ connection ∈ last.connections, connection.Isolated granted settings := by
  obtain ⟨up, idle⟩ := (Consumer.Idle.initial settings).opened opening_settings
  obtain ⟨read, returns, idle⟩ := idle.received [greeting] (by decide)
  have new := idle.reconnect .connecting
  obtain ⟨up', idle⟩ := new.opened opening_settings
  obtain ⟨read', returns', -⟩ := idle.received [heartbeat] (by decide)
  refine ⟨_, ⟨_, up, _, ⟨rfl, read, returns, rfl⟩, _, rfl, _, up', _,
    ⟨rfl, read', returns', rfl⟩, rfl⟩, ?_⟩
  have run : Run (guarded LossBetweenFrames (Consumes granted none)) (.initial settings)
      cleanEvents _ :=
    ⟨_, ⟨trivial, up⟩, _, ⟨trivial, rfl, read, returns, rfl⟩, _, ⟨new.tracks.1, rfl⟩, _,
      ⟨trivial, up'⟩, _, ⟨trivial, rfl, read', returns', rfl⟩, rfl⟩
  exact isolated_of_loss_between_frames run

end PhpNsq
