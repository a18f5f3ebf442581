import PhpNsq.Subscriber.FramePasses

/-!
# What readcb does depends on its own state only

`Mirrors` relates two parsers that agree on the statics, on the input and on the
settings. In between frames the statics that count are `is_first` and `l`, in the middle
of a frame also the buffer. What else was put on record (the timer writes to the same
connection) and which messages wait does not matter.

Two parsers that mirror each other stay so: pass by pass (`Mirrors.pass`), call by call
(`Mirrors.readcb`) and over any sequence of calls. They enqueue the same messages and
answer the same heartbeats.
-/

set_option autoImplicit false

namespace PhpNsq

open Foundations

/-- A queue entry or a heartbeat answer. -/
def Effect.ofReading : Effect → Bool
  | .enqueued _ => true
  | .buffered .extension bytes => bytes == ascii "NOP\n"
  | _ => false

/-- The effects of reading. -/
def readEffects (log : List Effect) : List Effect := log.filter Effect.ofReading

@[simp] theorem readEffects_nil : readEffects [] = [] := rfl

@[simp] theorem readEffects_append (first second : List Effect) :
    readEffects (first ++ second) = readEffects first ++ readEffects second :=
  List.filter_append _ _

theorem readEffects_nop : readEffects [nop] = [nop] := by
  simp [readEffects, nop, Effect.ofReading]

theorem readEffects_enqueued (message : PendingMessage) :
    readEffects [.enqueued message] = [.enqueued message] := rfl

/-- Enqueueing on a queue that holds some messages follows no dangling pointer, whatever
memory is granted. -/
theorem MessageQueue.exists_enqueueMessage {queue : MessageQueue}
    (held : ∃ waiting, queue.Holds waiting) (node nodeBody : Bool) (messageId body : Bytes)
    (bodyLen : ℕ) (timestamp : Int64) (attempts : UInt16) (delayTime : Int32) (autoFinish : Bool) :
    ∃ queue', enqueueMessage node nodeBody messageId body bodyLen timestamp attempts delayTime
      autoFinish queue = some queue' ∧ ∃ waiting, queue'.Holds waiting := by
  obtain ⟨waiting, holds⟩ := held
  cases granted : node && nodeBody with
  | false => exact ⟨queue, MessageQueue.Holds.enqueueMessage_failed granted .., waiting, holds⟩
  | true =>
      obtain ⟨rfl, rfl⟩ := Bool.and_eq_true_iff.mp granted
      obtain ⟨queue', enqueued, longer⟩ := holds.enqueueMessage messageId body bodyLen timestamp
        attempts delayTime autoFinish
      exact ⟨queue', enqueued, _, longer⟩

namespace ReadState

/-- The same body buffer, for a body of the same size. -/
structure SameBuffer (s t : ReadState) : Prop where
  message : t.message = s.message
  room : t.room = s.room
  size : t.msg.size = s.msg.size

/-- The parsers agree, both with the settings of this consumer, and the second one's
record is the first one's as far as reading goes. -/
structure Mirrors (config : NSQMsg) (s t : ReadState) : Prop where
  isFirst : t.isFirst = s.isFirst
  l : t.l = s.l
  input : t.input = s.input
  opened : t.opened = s.opened
  drained : t.drained = s.drained
  dispatched : t.dispatched = s.dispatched
  settings : s.msg.settings = config.settings
  settings_image : t.msg.settings = config.settings
  log : t.log = readEffects s.log
  held : ∃ waiting, s.queue.Holds waiting
  held_image : ∃ waiting, t.queue.Holds waiting
  body : s.isFirst = false → SameBuffer s t

/-- The same for what a loop leaves with. -/
inductive MirrorsOutcome (config : NSQMsg) :
    Except Fault ReadState → Except Fault ReadState → Prop where
  | ok {s t : ReadState} (mirrors : Mirrors config s t) : MirrorsOutcome config (.ok s) (.ok t)
  | error (fault : Fault) : MirrorsOutcome config (.error fault) (.error fault)

namespace Mirrors

variable {config : NSQMsg} {s t : ReadState} (mirrors : Mirrors config s t)

include mirrors

theorem available (length : ℤ) : t.available length = s.available length := by
  simp only [ReadState.available, mirrors.input]

theorem withPrefix (memory : Memory) (size : ℤ) :
    Mirrors config (s.withPrefix memory size) (t.withPrefix memory size) ∧
      SameBuffer (s.withPrefix memory size) (t.withPrefix memory size) := by
  have same : SameBuffer (s.withPrefix memory size) (t.withPrefix memory size) :=
    ⟨by simp only [ReadState.withPrefix, mirrors.opened], rfl, rfl⟩
  have mirrored : Mirrors config (s.withPrefix memory size) (t.withPrefix memory size) :=
    { mirrors with
      input := by simp only [ReadState.withPrefix, mirrors.input]
      opened := by simp only [ReadState.withPrefix, mirrors.opened]
      settings := mirrors.settings
      settings_image := mirrors.settings_image
      body := fun _ => same }
  exact ⟨mirrored, same⟩

theorem drain (memory : Memory) :
    Mirrors config (s.drain memory) (t.drain memory) ∧
      SameBuffer (s.drain memory) (t.drain memory) := by
  have same : SameBuffer (s.drain memory) (t.drain memory) :=
    ⟨by simp only [ReadState.drain, mirrors.drained], rfl, rfl⟩
  have mirrored : Mirrors config (s.drain memory) (t.drain memory) :=
    { mirrors with
      drained := by simp only [ReadState.drain, mirrors.drained]
      settings := mirrors.settings
      settings_image := mirrors.settings_image
      body := fun _ => same }
  exact ⟨mirrored, same⟩

/-- Whatever has arrived of a prefix opens the same buffer. -/
theorem openBuffer (memory : Memory) :
    (∃ fault, s.openBuffer memory = .error fault ∧ t.openBuffer memory = .error fault) ∨
      ∃ s' t', s.openBuffer memory = .ok s' ∧ t.openBuffer memory = .ok t' ∧ Mirrors config s' t' ∧
        SameBuffer s' t' := by
  by_cases empty : s.input = []
  · exact .inr ⟨_, _, openBuffer_drained empty, openBuffer_drained (mirrors.input.trans empty),
      mirrors.drain memory⟩
  · obtain ⟨size, read⟩ : ∃ size, prefixSize s.input = size := ⟨_, rfl⟩
    have here := openBuffer_withPrefix memory empty read
    have there := openBuffer_withPrefix (s := t) memory (mirrors.input.symm ▸ empty)
      (mirrors.input.symm ▸ read)
    by_cases bad : size < 0 ∨ size = intMax
    · rw [if_pos bad] at here there
      exact .inl ⟨_, here, there⟩
    · rw [if_neg bad] at here there
      exact .inr ⟨_, _, here, there, mirrors.withPrefix memory size⟩

/-- The same part of the body is read. -/
theorem readBody (same : SameBuffer s t) :
    (∃ fault, s.readBody = .error fault ∧ t.readBody = .error fault) ∨
      ∃ s' t', s.readBody = .ok s' ∧ t.readBody = .ok t' ∧ Mirrors config s' t' ∧
        SameBuffer s' t' := by
  simp only [ReadState.readBody, mirrors.available, mirrors.input, mirrors.l, same.size, same.room]
  generalize s.available (s.msg.size - s.l) = count
  by_cases bad : count ≠ 0 ∧ (s.l < 0 ∨ s.room < s.l + count)
  · exact .inl ⟨.heapOverflow, if_pos bad, if_pos bad⟩
  · have buffer : t.message.store s.l.toNat (s.input.take count) =
        s.message.store s.l.toNat (s.input.take count) := by
      rw [same.message]
    refine .inr ⟨_, _, if_neg bad, if_neg bad, ?_, buffer, rfl, same.size⟩
    exact
      { mirrors with
        l := rfl
        input := rfl
        body := fun _ => ⟨buffer, rfl, same.size⟩ }

/-- Behind a complete frame both parsers are ready for the next one. -/
theorem restart : Mirrors config s.restart t.restart :=
  { mirrors with
    isFirst := rfl
    l := rfl
    settings := mirrors.settings
    settings_image := mirrors.settings_image
    body := fun middle => absurd middle (by simp [ReadState.restart]) }

/-- The same effects of reading may be added to both records. -/
theorem record {effects : List Effect} (reading : readEffects effects = effects) :
    Mirrors config { s with log := s.log ++ effects } { t with log := t.log ++ effects } :=
  { mirrors with
    log := by rw [readEffects_append, reading, mirrors.log]
    body := fun middle =>
      ⟨(mirrors.body middle).message, (mirrors.body middle).room, (mirrors.body middle).size⟩ }

/-- A response is answered alike. -/
theorem dispatchResponse (same : SameBuffer s t) :
    Next.Related (Mirrors config) (MirrorsOutcome config) s.dispatchResponse t.dispatchResponse := by
  have logs : Mirrors config
      { s with log := if s.msg.size = 15 then s.log ++ [nop] else s.log }
      { t with log := if s.msg.size = 15 then t.log ++ [nop] else t.log } := by
    split
    · exact mirrors.record readEffects_nop
    · exact mirrors
  simp only [ReadState.dispatchResponse, same.size]
  split
  · exact .again logs.restart
  · refine .leave (.ok ?_)
    exact
      { logs with
        isFirst := rfl
        l := rfl
        body := fun middle => absurd middle (by simp) }

/-- A message is enqueued by both or by neither. -/
theorem dispatchMessage (malloc : Malloc) (same : SameBuffer s t) :
    Next.Related (Mirrors config) (MirrorsOutcome config) (s.dispatchMessage malloc)
      (t.dispatchMessage malloc) := by
  have settings := mirrors.settings_image.trans mirrors.settings.symm
  have delayTime := NSQMsg.delayTime_of_settings settings
  have autoFinish := NSQMsg.autoFinish_of_settings settings
  simp only [ReadState.dispatchMessage, same.size, same.message, mirrors.dispatched, delayTime,
    autoFinish]
  generalize malloc s.dispatched = grants
  generalize (ntoh64 (s.message.advance 4)).toInt64 = timestamp
  generalize readI16 (s.message.advance 12) = attempts
  generalize s.message.slice 14 16 = messageId
  generalize s.message.slice 30 (s.msg.size - 30).toNat = body
  obtain ⟨queue, here, held⟩ := MessageQueue.exists_enqueueMessage mirrors.held grants.node
    grants.nodeBody messageId body (s.msg.size - 30).toNat timestamp attempts s.msg.delayTime
    s.msg.autoFinish
  obtain ⟨queue', there, held'⟩ := MessageQueue.exists_enqueueMessage mirrors.held_image grants.node
    grants.nodeBody messageId body (s.msg.size - 30).toNat timestamp attempts s.msg.delayTime
    s.msg.autoFinish
  rw [here, there]
  by_cases short : s.msg.size < 29
  · rw [if_pos short, if_pos short]
    exact .again mirrors.restart
  by_cases refused : grants.body = false
  · rw [if_neg short, if_neg short, if_pos refused, if_pos refused]
    exact .again
      { mirrors.restart with
        dispatched := rfl
        body := fun middle => absurd middle (by simp [ReadState.restart]) }
  by_cases negative : s.msg.size = 29
  · rw [if_neg short, if_neg short, if_neg refused, if_neg refused, if_pos negative, if_pos negative]
    exact .leave (.error _)
  rw [if_neg short, if_neg short, if_neg refused, if_neg refused, if_neg negative, if_neg negative]
  refine .again ?_
  exact
    { mirrors.restart with
      dispatched := rfl
      log := by
        split
        · rw [readEffects_append, readEffects_enqueued, mirrors.log]
        · exact mirrors.log
      held := held
      held_image := held'
      body := fun middle => absurd middle (by simp [ReadState.restart]) }

/-- A frame type is noted by both. -/
theorem noteType (frameType : ℤ) : Mirrors config (s.noteType frameType) (t.noteType frameType) :=
  { mirrors with
    settings := mirrors.settings
    settings_image := mirrors.settings_image
    body := fun middle =>
      ⟨(mirrors.body middle).message, (mirrors.body middle).room, (mirrors.body middle).size⟩ }

/-- The branches on the frame type decide alike. -/
theorem dispatchOn (malloc : Malloc) (same : SameBuffer s t) (frameType : ℤ) :
    Next.Related (Mirrors config) (MirrorsOutcome config) (s.dispatchOn malloc frameType)
      (t.dispatchOn malloc frameType) := by
  have noted := mirrors.noteType frameType
  have buffer : SameBuffer (s.noteType frameType) (t.noteType frameType) :=
    ⟨same.message, same.room, same.size⟩
  by_cases response : frameType = 0
  · simp only [ReadState.dispatchOn, if_pos response]
    exact noted.dispatchResponse buffer
  by_cases business : frameType = 2
  · simp only [ReadState.dispatchOn, if_neg response, if_pos business]
    exact noted.dispatchMessage malloc buffer
  simp only [ReadState.dispatchOn, if_neg response, if_neg business, mirrors.l]
  split
  · refine .leave (.ok ?_)
    exact
      { noted with
        isFirst := rfl
        l := rfl
        body := fun middle => absurd middle (by simp) }
  · exact .again (by simpa only [ReadState.noteType, mirrors.l] using noted)

/-- The loop body from the body read on decides alike. -/
theorem collect (malloc : Malloc) (same : SameBuffer s t) :
    Next.Related (Mirrors config) (MirrorsOutcome config) (s.collect malloc) (t.collect malloc) := by
  rcases mirrors.readBody same with ⟨fault, here, there⟩ | ⟨s', t', here, there, mirrored, buffer⟩
  · simp only [ReadState.collect, here, there]
    exact .leave (.error fault)
  · rw [collect_of_readBody here, collect_of_readBody there, mirrored.l, buffer.size]
    split
    · refine .leave (.ok ?_)
      exact
        { mirrored with
          isFirst := rfl
          l := rfl
          body := fun _ => ⟨buffer.message, buffer.room, buffer.size⟩ }
    split
    · rw [ReadState.dispatch, ReadState.dispatch, buffer.message]
      exact mirrored.dispatchOn malloc buffer _
    · exact .leave (.ok mirrored.restart)

/-- **One pass decides alike.** -/
theorem pass (malloc : Malloc) (memory : Memory) :
    Next.Related (Mirrors config) (MirrorsOutcome config) (s.pass malloc memory)
      (t.pass malloc memory) := by
  cases first : s.isFirst with
  | false =>
      rw [pass_of_not_first first, pass_of_not_first (mirrors.isFirst.trans first)]
      exact mirrors.collect malloc (mirrors.body first)
  | true =>
      have first' := mirrors.isFirst.trans first
      rcases mirrors.openBuffer memory with ⟨fault, here, there⟩ |
        ⟨s', t', here, there, mirrored, same⟩
      · simp only [ReadState.pass, if_pos first, if_pos first', here, there]
        exact .leave (.error fault)
      · rw [pass_of_openBuffer first here, pass_of_openBuffer first' there]
        exact mirrored.collect malloc same

/-- The bytes of a call reach both. -/
theorem receive (chunk : Bytes) : Mirrors config (s.receive chunk) (t.receive chunk) :=
  { mirrors with
    input := by simp only [ReadState.receive, mirrors.input]
    opened := rfl
    drained := rfl
    body := fun middle =>
      ⟨(mirrors.body middle).message, (mirrors.body middle).room, (mirrors.body middle).size⟩ }

/-- **A call that returns returns on the mirror image**, to a mirror image. -/
theorem readcb {malloc : Malloc} {call : ReadCall} {s' : ReadState}
    (returns : Readcb malloc s call s') : ∃ t', Readcb malloc t call t' ∧ Mirrors config s' t' := by
  obtain ⟨outcome, exits, related⟩ := Exits.simulation 
    (fun _ _ mirrored => mirrored.pass malloc call.memory) returns (mirrors.receive call.chunk)
  cases related with
  | ok mirrored => exact ⟨_, exits, mirrored⟩

/-- And a call that returns on the mirror image returns. -/
theorem readcb_of_image {malloc : Malloc} {call : ReadCall} {t' : ReadState}
    (returns : Readcb malloc t call t') : ∃ s', Readcb malloc s call s' ∧ Mirrors config s' t' := by
  obtain ⟨outcome, exits, related⟩ := Exits.simulation
    (fun _ _ mirrored => (Mirrors.pass mirrored malloc call.memory).flip) returns
    (mirrors.receive call.chunk)
  cases related with
  | ok mirrored => exact ⟨_, exits, mirrored⟩

/-- Effects that are not of reading leave the image as it is. -/
theorem unread {effects : List Effect} (other : readEffects effects = []) :
    Mirrors config { s with log := s.log ++ effects } t :=
  { mirrors with
    log := by rw [readEffects_append, other, List.append_nil, mirrors.log]
    body := fun middle =>
      ⟨(mirrors.body middle).message, (mirrors.body middle).room, (mirrors.body middle).size⟩ }

/-- So does a queue with other messages. -/
theorem requeued {queue : MessageQueue} (held : ∃ waiting, queue.Holds waiting) :
    Mirrors config { s with queue := queue } t :=
  { mirrors with
    held := held
    body := fun middle =>
      ⟨(mirrors.body middle).message, (mirrors.body middle).room, (mirrors.body middle).size⟩ }

end Mirrors

/-- A parser at program start, on a connection that begins after this many messages. -/
def fresh (config : NSQMsg) (start : ℕ) : ReadState := { initial config with dispatched := start }

/-- A parser in between frames, on a connection with nothing read and no record, has a
fresh parser for its image. -/
theorem Mirrors.fresh {config : NSQMsg} {s : ReadState} (ready : s.isFirst = true) (l : s.l = 0)
    (input : s.input = []) (log : s.log = []) (opened : s.opened = 0) (drained : s.drained = 0)
    (settings : s.msg.settings = config.settings) (held : ∃ waiting, s.queue.Holds waiting) :
    Mirrors config s (fresh config s.dispatched) where
  isFirst := ready.symm
  l := l.symm
  input := input.symm
  opened := opened.symm
  drained := drained.symm
  dispatched := rfl
  settings := settings
  settings_image := rfl
  log := by rw [log]; rfl
  held := held
  held_image := ⟨[], .initial⟩
  body := fun middle => absurd (ready.symm.trans middle) (by simp)

end ReadState

end PhpNsq
