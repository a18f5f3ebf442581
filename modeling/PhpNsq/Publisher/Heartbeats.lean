import PhpNsq.Publisher.Publish

/-!
# Heartbeats during a call

nsqd may send heartbeats before the reply to a command. A call answers each of them and
reads on, and what it returns is decided by the first frame that is none.

Here frames come whole (`Arrival`): a prefix read gives `-1` a number of times and then the
four bytes of the prefix, and the body read gives the body. The comparison with the two
literals runs to the byte behind the body, which `publish` does not clear; `Terminated` says that it
is zero. The main result is `heartbeats_transparent`.
-/

set_option autoImplicit false

namespace PhpNsq

open Foundations

/-! ## The verdict on a frame -/

/-- What the data of a frame stands for. -/
def RawFrame.verdict (frame : RawFrame) : Verdict :=
  if frame.data = ascii "OK" then .ok
  else if frame.data = ascii "_heartbeat_" then .heartbeat
  else .other

/-- A buffer that holds a payload and a zero behind it holds the data as a C string. -/
theorem slice_data {message : Cells UInt8} {frame : RawFrame}
    (holds : message.slice 0 frame.size = frame.payload) (zero : message frame.size = 0) :
    (message.advance 4).slice 0 (frame.data.length + 1) = frame.data ++ [0] := by
  have regrouped : message.slice 0 frame.size =
      bigEndian 4 frame.frameType.toNat ++ (frame.data ++ []) := by
    rw [holds, RawFrame.payload, List.append_nil]
  have data : message.slice 4 frame.data.length = frame.data :=
    Cells.slice_of_append regrouped (length_bigEndian ..) rfl
  have behind : message.slice (4 + frame.data.length) 1 = [0] := by
    rw [Nat.add_comm, ← RawFrame.size, Cells.slice_succ, zero, Cells.slice_zero]
  rw [Cells.slice_advance, Nat.add_zero, Cells.slice_add, data, behind]

/-- `strcmp` finds the data. -/
theorem verdict_eq {message : Cells UInt8} {frame : RawFrame}
    (holds : message.slice 0 frame.size = frame.payload) (zero : message frame.size = 0)
    (free : (0 : UInt8) ∉ frame.data) : verdict message = frame.verdict := by
  have text := slice_data holds zero
  have ok : strcmpEq (message.advance 4) (ascii "OK") = true ↔ _ :=
    strcmpEq_iff text free (by decide)
  have heartbeat : strcmpEq (message.advance 4) (ascii "_heartbeat_") = true ↔ _ :=
    strcmpEq_iff text free (by decide)
  rw [verdict, RawFrame.verdict]
  simp only [ok, heartbeat]

/-- The buffer of a frame that has come: its payload, over what `emalloc` left behind it. -/
def RawFrame.buffer (frame : RawFrame) (contents : Cells UInt8) : Cells UInt8 :=
  (Reader.cleared contents frame.size).store 0 frame.payload

theorem RawFrame.slice_buffer (frame : RawFrame) (contents : Cells UInt8) (count : ℕ) :
    (frame.buffer contents).slice 0 (frame.size + count) =
      frame.payload ++ (contents.advance frame.size).slice 0 count := by
  have stored := Cells.slice_store_self (Reader.cleared contents frame.size) 0 frame.payload
  rw [frame.length_payload] at stored
  rw [Cells.slice_add, RawFrame.buffer, stored, Nat.zero_add, Cells.slice_advance]
  congr 1
  exact Cells.slice_congr fun index _ => by
    rw [Cells.store_of_le _ (by simp), Reader.cleared, Cells.store_of_le _ (by simp)]

/-- What a call returns for the data of its reply. -/
def answer (sock : ℤ) (data : Bytes) : ℤ := if data = ascii "OK" then sock else -1

theorem answer_eq_neg_one_iff {sock : ℤ} (open_sock : 0 < sock) {data : Bytes} :
    answer sock data = -1 ↔ data ≠ ascii "OK" := by
  rw [answer]
  split
  · next ok => exact iff_of_false (by omega) (not_not.mpr ok)
  · next other => exact iff_of_true rfl other

theorem answer_eq_sock_iff {sock : ℤ} (open_sock : 0 < sock) {data : Bytes} :
    answer sock data = sock ↔ data = ascii "OK" := by
  rw [answer]
  split
  · next ok => exact iff_of_true rfl ok
  · next other => exact iff_of_false (by omega) other

section Decide

variable {sock : ℤ} {s : PubState} {request : Request} {message : Cells UInt8} {frame : RawFrame}

/-- A heartbeat is answered. -/
theorem PubState.decide_heartbeat (found : PhpNsq.verdict message = frame.verdict)
    (beat : frame.data = ascii "_heartbeat_") :
    s.decide sock request message = s.goTo (.answering request) := by
  have heartbeat : frame.verdict = .heartbeat := by
    rw [RawFrame.verdict, if_neg (by rw [beat]; decide), if_pos beat]
  rw [decide, found, heartbeat]

/-- Every other frame decides the result. -/
theorem PubState.decide_reply (found : PhpNsq.verdict message = frame.verdict)
    (reply : frame.data ≠ ascii "_heartbeat_") :
    s.decide sock request message = s.leave (answer sock frame.data) := by
  rw [decide, found, RawFrame.verdict, answer]
  by_cases ok : frame.data = ascii "OK"
  · rw [if_pos ok, if_pos ok]
  · rw [if_neg ok, if_neg reply, if_neg ok]

end Decide

/-! ## Frames that come whole -/

/-- A frame, and how often the prefix read gives `-1` before it. -/
structure Arrival where
  waits : ℕ
  frame : RawFrame

namespace Arrival

/-- What `read` gives. -/
def answers (arrival : Arrival) : List ReadAnswer :=
  List.replicate arrival.waits .notYet ++
    [.got (bigEndian 4 arrival.frame.size), .got arrival.frame.payload]

/-- The calls of `read`. -/
def reads (arrival : Arrival) : List PubEffect :=
  List.replicate arrival.waits (.read 4 .notYet) ++
    [.read 4 (.got (bigEndian 4 arrival.frame.size)),
      .read arrival.frame.size (.got arrival.frame.payload)]

end Arrival

/-- A heartbeat, and what `send` gives for its answer. -/
structure Heartbeat where
  waits : ℕ
  frameType : UInt32
  sent : ℤ
  bounds : -1 ≤ sent ∧ sent ≤ heartbeatAnswer.length

namespace Heartbeat

def arrival (beat : Heartbeat) : Arrival where
  waits := beat.waits
  frame := ⟨beat.frameType, ascii "_heartbeat_", heartbeat_fits⟩

theorem free (beat : Heartbeat) : (0 : UInt8) ∉ beat.arrival.frame.data := by
  change (0 : UInt8) ∉ ascii "_heartbeat_"
  decide

/-- It is read, and answered. -/
def events (beat : Heartbeat) : List PubEvent :=
  beat.arrival.answers.map .read ++ [.sent beat.sent]

def effects (beat : Heartbeat) : List PubEffect :=
  beat.arrival.reads ++ [.send heartbeatAnswer beat.sent]

end Heartbeat

/-- The byte behind each body is zero, in the buffers that follow. -/
def Terminated (fresh : ℕ → Cells UInt8) : ℕ → List RawFrame → Prop
  | _, [] => True
  | buffers, frame :: frames => fresh buffers frame.size = 0 ∧ Terminated fresh (buffers + 1) frames

theorem terminated_append {fresh : ℕ → Cells UInt8} {buffers : ℕ} {first second : List RawFrame} :
    Terminated fresh buffers (first ++ second) ↔
      Terminated fresh buffers first ∧ Terminated fresh (buffers + first.length) second := by
  induction first generalizing buffers with
  | nil => simp [Terminated]
  | cons frame frames ih =>
      simp only [List.cons_append, Terminated, ih, List.length_cons, and_assoc]
      rw [Nat.add_assoc, Nat.add_comm 1]

section Run

variable (sock : ℤ) (fresh : ℕ → Cells UInt8) {s : PubState} {request : Request}

/-- The prefix read is tried again as often as it gives `-1`. -/
theorem run_waits (waiting : s.point = .reading request .againRead) (waits : ℕ) :
    Run (Publishes sock fresh) s (List.replicate waits (.read .notYet))
      { s with log := s.log ++ List.replicate waits (.read 4 .notYet) } := by
  induction waits generalizing s with
  | zero => simp
  | succ waits ih =>
      have once : Publishes sock fresh s (.read .notYet)
          ((s.record (.read 4 .notYet)).goTo (.reading request .againRead)) :=
        Publishes.read_again waiting (by simp [Reader.requested, ReadAnswer.data]) rfl
      have rest := ih (s := (s.record (.read 4 .notYet)).goTo (.reading request .againRead)) rfl
      rw [List.replicate_succ, List.replicate_succ, List.append_cons]
      refine ⟨_, once, ?_⟩
      simpa [PubState.record, PubState.goTo, ← waiting] using rest

/-- The frame fills its buffer. -/
theorem run_whole (waiting : s.point = .reading request .againRead) (arrival : Arrival) :
    Run (Publishes sock fresh) s (arrival.answers.map .read)
      ({ s with buffers := s.buffers + 1, log := s.log ++ arrival.reads }.decide sock request
        (arrival.frame.buffer (fresh s.buffers))) := by
  obtain ⟨waits, frame⟩ := arrival
  let cleared := Reader.cleared (fresh s.buffers) frame.size
  let waited : PubState := { s with log := s.log ++ List.replicate waits (.read 4 .notYet) }
  let opened : PubState := (waited.record (.read 4 (.got (bigEndian 4 frame.size)))).goTo
    (.reading request (.again 0 frame.size cleared))
  have first : Publishes sock fresh waited (.read (.got (bigEndian 4 frame.size))) opened :=
    Publishes.read_again (s := waited) waiting (by simp [Reader.requested, ReadAnswer.data])
      (Reader.step_prefix frame)
  have complete : Reader.step request.reader (fresh s.buffers) (.again 0 frame.size cleared)
      (.got frame.payload) =
        .leave (.collected frame.size frame.size (frame.buffer (fresh s.buffers))) :=
    Reader.step_last (l := 0) request.reader_readsOn (by simp)
  have second : Publishes sock fresh opened (.read (.got frame.payload)) _ :=
    Publishes.read_collected rfl (by simp [Reader.requested, ReadAnswer.data]) complete
  rw [Arrival.answers, List.map_append, List.map_replicate, run_append]
  refine ⟨_, run_waits sock fresh waiting waits, _, first, _, second, ?_⟩
  have log : waited.log ++ [.read 4 (.got (bigEndian 4 frame.size))] ++
      [.read frame.size (.got frame.payload)] = s.log ++ Arrival.reads ⟨waits, frame⟩ := by
    simp [waited, Arrival.reads]
  rw [List.map_nil, run_nil, ← log]
  exact PubState.decide_point sock
    { s with buffers := s.buffers + 1, log := waited.log ++ _ ++ _ } _ request _

/-- **A frame that comes whole is read whole.** -/
theorem run_arrival (waiting : s.point = .reading request .againRead) (arrival : Arrival) :
    ∃ message, Run (Publishes sock fresh) s (arrival.answers.map .read)
        ({ s with buffers := s.buffers + 1, log := s.log ++ arrival.reads }.decide sock request
          message) ∧
      message.slice 0 arrival.frame.size = arrival.frame.payload ∧
      message arrival.frame.size = fresh s.buffers arrival.frame.size := by
  have filled : (arrival.frame.buffer (fresh s.buffers)).slice 0 (arrival.frame.size + 1) =
      [] ++ (arrival.frame.payload ++ ([fresh s.buffers arrival.frame.size] ++ [])) :=
    arrival.frame.slice_buffer (fresh s.buffers) 1
  have front : (arrival.frame.buffer (fresh s.buffers)).slice 0 arrival.frame.size =
      arrival.frame.payload := Cells.slice_of_append filled rfl arrival.frame.length_payload
  have behind : (arrival.frame.buffer (fresh s.buffers)).slice arrival.frame.size 1 =
      [fresh s.buffers arrival.frame.size] :=
    Cells.slice_of_append ((List.nil_append _).symm.trans filled.symm).symm
      arrival.frame.length_payload rfl
  exact ⟨_, run_whole sock fresh waiting arrival, front, (List.cons.inj behind).1⟩

/-- A heartbeat is answered, and the next prefix is read. -/
theorem run_heartbeat (waiting : s.point = .reading request .againRead) (beat : Heartbeat)
    (zero : fresh s.buffers beat.arrival.frame.size = 0) :
    Run (Publishes sock fresh) s beat.events
      { s with buffers := s.buffers + 1, log := s.log ++ beat.effects } := by
  obtain ⟨message, arrived, holds, behind⟩ :=
    run_arrival sock fresh waiting beat.arrival
  have found : verdict message = beat.arrival.frame.verdict :=
    verdict_eq holds (behind.trans zero) beat.free
  rw [PubState.decide_heartbeat found rfl] at arrived
  refine run_append.mpr ⟨_, arrived, run_singleton.mpr ?_⟩
  simp [Publishes, PubState.step, PubState.goTo, PubState.record, beat.bounds, Heartbeat.effects,
    ← waiting]

/-- **Any number of heartbeats.** -/
theorem run_heartbeats (waiting : s.point = .reading request .againRead) (beats : List Heartbeat)
    (terminated : Terminated fresh s.buffers (beats.map fun beat => beat.arrival.frame)) :
    Run (Publishes sock fresh) s (beats.flatMap Heartbeat.events)
      { s with
        buffers := s.buffers + beats.length
        log := s.log ++ beats.flatMap Heartbeat.effects } := by
  induction beats generalizing s with
  | nil => simp
  | cons beat beats ih =>
      obtain ⟨zero, terminated⟩ := terminated
      have rest := ih
        (s := { s with buffers := s.buffers + 1, log := s.log ++ beat.effects }) waiting terminated
      rw [List.flatMap_cons, run_append]
      refine ⟨_, run_heartbeat sock fresh waiting beat zero, ?_⟩
      simpa [Nat.add_comm, Nat.add_left_comm] using rest

/-- The reply ends the call. -/
theorem run_reply (waiting : s.point = .reading request .againRead) (reply : Arrival)
    (free : (0 : UInt8) ∉ reply.frame.data) (other : reply.frame.data ≠ ascii "_heartbeat_")
    (zero : fresh s.buffers reply.frame.size = 0) :
    Run (Publishes sock fresh) s (reply.answers.map .read)
      { s with
        point := .idle
        buffers := s.buffers + 1
        log := s.log ++ reply.reads ++ [.returned (answer sock reply.frame.data)] } := by
  obtain ⟨message, arrived, holds, behind⟩ :=
    run_arrival sock fresh waiting reply
  have found : verdict message = reply.frame.verdict := verdict_eq holds (behind.trans zero) free
  rwa [PubState.decide_reply found other] at arrived

end Run

/-! ## A call -/

/-- What happens while a call waits for its reply. -/
def replyEvents (beats : List Heartbeat) (reply : Arrival) : List PubEvent :=
  beats.flatMap Heartbeat.events ++ reply.answers.map .read

/-- What a call does while it waits. -/
def replyEffects (beats : List Heartbeat) (reply : Arrival) : List PubEffect :=
  beats.flatMap Heartbeat.effects ++ reply.reads

section Projections

theorem Arrival.sentBytes_reads (arrival : Arrival) : sentBytes arrival.reads = [] := by
  simp [reads, sentBytes]

theorem Arrival.consumed_reads (arrival : Arrival) :
    consumed arrival.reads = arrival.frame.encode := by
  simp [reads, consumed, ReadAnswer.data, RawFrame.encode]

namespace Heartbeat

variable (beat : Heartbeat)

theorem calls_events : calls beat.events = [] := by
  rw [events, calls_append, calls_map_read]
  rfl

theorem sendResults_events : sendResults beat.events = [beat.sent] := by
  rw [events, sendResults_append, sendResults_map_read]
  rfl

theorem readAnswers_events : readAnswers beat.events = beat.arrival.answers := by
  rw [events, readAnswers_append, readAnswers_map_read]
  exact List.append_nil _

theorem sentBytes_effects : sentBytes beat.effects = [heartbeatAnswer] := by
  rw [effects, sentBytes_append, Arrival.sentBytes_reads]
  rfl

theorem consumed_effects : consumed beat.effects = beat.arrival.frame.encode := by
  rw [effects, consumed_append, Arrival.consumed_reads]
  exact List.append_nil _

end Heartbeat

variable (beats : List Heartbeat) (reply : Arrival)

theorem calls_replyEvents : calls (replyEvents beats reply) = [] := by
  rw [replyEvents, calls_append, calls_map_read, List.append_nil, calls_flatMap]
  simp [Heartbeat.calls_events]

theorem sendResults_replyEvents :
    sendResults (replyEvents beats reply) = beats.map Heartbeat.sent := by
  rw [replyEvents, sendResults_append, sendResults_map_read, List.append_nil, sendResults_flatMap]
  simp only [Heartbeat.sendResults_events, ← List.map_eq_flatMap]

theorem readAnswers_replyEvents :
    readAnswers (replyEvents beats reply) =
      beats.flatMap (fun beat => beat.arrival.answers) ++ reply.answers := by
  rw [replyEvents, readAnswers_append, readAnswers_map_read, readAnswers_flatMap]
  simp [Heartbeat.readAnswers_events]

/-- One `NOP` for each heartbeat. -/
theorem sentBytes_replyEffects :
    sentBytes (replyEffects beats reply) = List.replicate beats.length heartbeatAnswer := by
  rw [replyEffects, sentBytes_append, Arrival.sentBytes_reads, List.append_nil, sentBytes_flatMap]
  simp only [Heartbeat.sentBytes_effects, ← List.map_eq_flatMap]
  exact List.map_const' ..

/-- Exactly the frames are taken from the stream. -/
theorem consumed_replyEffects :
    consumed (replyEffects beats reply) =
      (beats.map (fun beat => beat.arrival.frame) ++ [reply.frame]).flatMap RawFrame.encode := by
  rw [replyEffects, consumed_append, Arrival.consumed_reads, consumed_flatMap]
  simp [Heartbeat.consumed_effects, List.flatMap_map]

end Projections

/-- Called once, and given these results by `send` and `read`, the process ends in one state. -/
structure EndsIn (sock : ℤ) (fresh : ℕ → Cells UInt8) (s : PubState) (requests : List Request)
    (sends : List ℤ) (reads : List ReadAnswer) (s' : PubState) : Prop where
  run : ∃ events, Run (Publishes sock fresh) s events s' ∧ calls events = requests ∧
    sendResults events = sends ∧ readAnswers events = reads
  unique : ∀ events s'', Run (Publishes sock fresh) s events s'' → calls events = requests →
    sendResults events = sends → readAnswers events = reads → s'' = s'

section Call

variable {sock : ℤ} {fresh : ℕ → Cells UInt8} {s : PubState} {request : Request} {command : Bytes}

theorem EndsIn.of_run {s' : PubState} {events : List PubEvent}
    (run : Run (Publishes sock fresh) s events s') :
    EndsIn sock fresh s (calls events) (sendResults events) (readAnswers events) s' where
  run := ⟨events, run, rfl, rfl, rfl⟩
  unique := by
    intro others s'' other same_calls same_sends same_reads
    obtain rfl := Publishes.order_unique other run same_calls same_sends same_reads
    exact Publishes.run_unique other run

/-- A call whose command is accepted in full. -/
theorem run_call (sock : ℤ) (idle : s.point = .idle) (fits : request.command = some command)
    (beats : List Heartbeat) {reply : Arrival} (free : (0 : UInt8) ∉ reply.frame.data)
    (other : reply.frame.data ≠ ascii "_heartbeat_")
    (terminated : Terminated fresh s.buffers
      (beats.map (fun beat => beat.arrival.frame) ++ [reply.frame])) :
    Run (Publishes sock fresh) s
      (.call request :: .sent command.length :: replyEvents beats reply)
      { s with
        buffers := s.buffers + beats.length + 1
        log := s.log ++ .called request :: .send command command.length ::
          (replyEffects beats reply ++ [.returned (answer sock reply.frame.data)]) } := by
  obtain ⟨before, zero, -⟩ := terminated_append.mp terminated
  rw [List.length_map] at zero
  let called : PubState := (s.record (.called request)).goTo (.sending request command)
  let sent : PubState := (called.record (.send command command.length)).goTo
    (.reading request .againRead)
  have first : Publishes sock fresh s (.call request) called := by
    simp [Publishes, PubState.step, idle, fits, called]
  have second : Publishes sock fresh called (.sent command.length) sent := by
    have accepted : request.lostConnection command.length = false :=
      request.lostConnection_of_pos (by exact_mod_cast Request.length_pos fits)
    simp [Publishes, PubState.step, called, sent, PubState.goTo, accepted]
  have waited := run_heartbeats sock fresh (s := sent) rfl beats before
  have ended := run_reply sock fresh
    (s := { sent with
      buffers := s.buffers + beats.length
      log := sent.log ++ beats.flatMap Heartbeat.effects }) rfl reply free other zero
  refine ⟨called, first, sent, second, run_append.mpr ⟨_, waited, ?_⟩⟩
  simpa [sent, called, PubState.record, PubState.goTo, replyEffects, ← idle] using ended

/-- **Heartbeats are transparent**: a call answers each with one `NOP`, before it reads on, takes
exactly the frames from the stream, and returns what the data of the last frame says. The record
behind the command is the same for `publish` and `deferredPublish`. -/
theorem heartbeats_transparent (open_sock : 0 < sock) (idle : s.point = .idle)
    (fits : request.command = some command) (beats : List Heartbeat) {reply : Arrival}
    (free : (0 : UInt8) ∉ reply.frame.data) (other : reply.frame.data ≠ ascii "_heartbeat_")
    (terminated : Terminated fresh s.buffers
      (beats.map (fun beat => beat.arrival.frame) ++ [reply.frame])) :
    ∃ s', EndsIn sock fresh s [request] (command.length :: beats.map Heartbeat.sent)
        (beats.flatMap (fun beat => beat.arrival.answers) ++ reply.answers) s' ∧
      s'.point = .idle ∧ s'.exception = s.exception ∧
      s'.log = s.log ++ .called request :: .send command command.length ::
        (replyEffects beats reply ++ [.returned (answer sock reply.frame.data)]) ∧
      sentBytes (replyEffects beats reply) = List.replicate beats.length heartbeatAnswer ∧
      consumed (replyEffects beats reply) =
        (beats.map (fun beat => beat.arrival.frame) ++ [reply.frame]).flatMap RawFrame.encode ∧
      (answer sock reply.frame.data = sock ↔ reply.frame.data = ascii "OK") ∧
      (answer sock reply.frame.data = -1 ↔ reply.frame.data ≠ ascii "OK") := by
  have run := run_call sock idle fits beats free other terminated
  have ends := EndsIn.of_run run
  have requests : calls (.call request :: .sent command.length :: replyEvents beats reply) =
      [request] := congrArg (request :: ·) (calls_replyEvents beats reply)
  have sends : sendResults (.call request :: .sent command.length :: replyEvents beats reply) =
      (command.length : ℤ) :: beats.map Heartbeat.sent :=
    congrArg ((command.length : ℤ) :: ·) (sendResults_replyEvents beats reply)
  have reads : readAnswers (.call request :: .sent command.length :: replyEvents beats reply) =
      beats.flatMap (fun beat => beat.arrival.answers) ++ reply.answers :=
    readAnswers_replyEvents beats reply
  rw [requests, sends, reads] at ends
  exact ⟨_, ends, idle, rfl, rfl, sentBytes_replyEffects beats reply,
    consumed_replyEffects beats reply, answer_eq_sock_iff open_sock,
    answer_eq_neg_one_iff open_sock⟩

end Call

theorem heartbeatAnswer_bounds : (-1 : ℤ) ≤ 4 ∧ (4 : ℤ) ≤ heartbeatAnswer.length := by decide

def beatOnce : Heartbeat := ⟨1, 0, 4, heartbeatAnswer_bounds⟩

def okReply : Arrival := ⟨0, 0, ascii "OK", ok_fits⟩

/-- One heartbeat while `publish` waits for its `OK`. -/
theorem heartbeats_transparent_publish :
    ∃ s', EndsIn 5 (fun _ _ => 0) .initial [.publish (ascii "t") (ascii "m")] [11, 4]
        [.notYet, .got [0, 0, 0, 15], .got ([0, 0, 0, 0] ++ ascii "_heartbeat_"),
          .got [0, 0, 0, 6], .got ([0, 0, 0, 0] ++ ascii "OK")] s' ∧
      results s'.log = [5] ∧
      sentBytes s'.log = [ascii "PUB t\n" ++ [0, 0, 0, 1] ++ ascii "m", ascii "NOP\n"] := by
  have fits : Request.command (.publish (ascii "t") (ascii "m")) =
      some (ascii "PUB t\n" ++ [0, 0, 0, 1] ++ ascii "m") := by decide
  have free : (0 : UInt8) ∉ okReply.frame.data := by decide
  have other : okReply.frame.data ≠ ascii "_heartbeat_" := by decide
  have terminated : Terminated (fun _ _ => 0) 0 [beatOnce.arrival.frame, okReply.frame] :=
    ⟨rfl, rfl, trivial⟩
  obtain ⟨s', ends, -, -, log, -⟩ := heartbeats_transparent (show (0 : ℤ) < 5 by decide)
    (s := .initial) rfl fits [beatOnce] free other terminated
  refine ⟨s', ends, ?_, ?_⟩
  · rw [log]
    rfl
  · rw [log]
    rfl

end PhpNsq
