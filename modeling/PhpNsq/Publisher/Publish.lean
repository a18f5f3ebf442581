import PhpNsq.Foundations.Runs
import PhpNsq.Publisher.Commands
import PhpNsq.Publisher.FrameReader

/-!
# publish and deferredPublish of pub.c

A call assembles its command, sends it, and waits for a reply: it reads a frame, answers
a heartbeat and reads on, and returns the socket if the data of the frame is `OK` and
`-1` otherwise.

`PubState.step` takes one event on a socket: a call begins, or the system call that the
process is at gives its result. The record lists what happened: the calls, the system
calls with their results, and what was returned. Several calls may follow each other on
one socket.

The two functions have their own copy of the reply loop, and differ behind the first
`send`: only `publish` looks at its result.
-/

set_option autoImplicit false

namespace PhpNsq

open Foundations

/-- A call of `publish` or of `deferredPublish`. -/
inductive Request where
  | publish (topic msg : Bytes)
  | deferredPublish (topic msg : Bytes) (deferTime : Int32)

namespace Request

/-- The command that is assembled. -/
def command : Request → Option Bytes
  | .publish topic msg => publishCommand topic msg
  | .deferredPublish topic msg deferTime => deferredPublishCommand topic msg deferTime

/-- The copy of the reply loop. -/
def reader : Request → ReaderCode
  | .publish _ _ => publishReader
  | .deferredPublish _ _ _ => deferredPublishReader

/-- `if (send_len == 0)`, which `deferredPublish` lacks. -/
def lostConnection : Request → ℤ → Bool
  | .publish _ _, result => result == 0
  | .deferredPublish _ _ _, _ => false

/-- A command has its name in front. -/
theorem length_pos {request : Request} {command : Bytes} (fits : request.command = some command) :
    0 < command.length := by
  cases request with
  | publish topic msg =>
      rw [Request.command, publishCommand, Option.ite_none_right_eq_some] at fits
      rw [← Option.some.inj fits.2]
      simp [ascii]
  | deferredPublish topic msg deferTime =>
      rw [Request.command, deferredPublishCommand, Option.ite_none_right_eq_some] at fits
      rw [← Option.some.inj fits.2]
      simp [ascii]

/-- `send` accepted some of it. -/
theorem lostConnection_of_pos (request : Request) {result : ℤ} (positive : 0 < result) :
    request.lostConnection result = false := by
  cases request with
  | publish topic msg => exact beq_false_of_ne positive.ne'
  | deferredPublish topic msg deferTime => rfl

theorem eq_zero_of_lostConnection {request : Request} {result : ℤ}
    (lost : request.lostConnection result = true) : result = 0 := by
  cases request with
  | publish topic msg => exact eq_of_beq lost
  | deferredPublish topic msg deferTime => cases lost

/-- What the two copies have in common. -/
theorem reader_readsOn (request : Request) : request.reader.ReadsOn := by
  cases request with
  | publish topic msg => exact publishReader_readsOn
  | deferredPublish topic msg deferTime => exact deferredPublishReader_readsOn

end Request

/-- What happens on a socket: a call, or the result of a system call. -/
inductive PubEvent where
  | call (request : Request)
  | sent (result : ℤ)
  | read (answer : ReadAnswer)

/-- An entry of the record. -/
inductive PubEffect where
  | called (request : Request)
  | send (bytes : Bytes) (result : ℤ)
  | read (requested : ℤ) (answer : ReadAnswer)
  | returned (result : ℤ)

/-- Where the process is. -/
inductive PubPoint where
  | idle
  /-- At the `send` of the command. -/
  | sending (request : Request) (command : Bytes)
  | reading (request : Request) (reader : Reader)
  /-- At the `send` of the heartbeat answer. -/
  | answering (request : Request)

/-- The process, with the number of body buffers it has asked for, whether an exception was thrown,
and the record. -/
structure PubState where
  point : PubPoint
  buffers : ℕ
  exception : Bool
  log : List PubEffect

/-- What `strcmp` finds behind the frame type. -/
inductive Verdict where
  | ok
  | heartbeat
  | other
  deriving DecidableEq

def verdict (message : Cells UInt8) : Verdict :=
  if strcmpEq (message.advance 4) (ascii "OK") then .ok
  else if strcmpEq (message.advance 4) (ascii "_heartbeat_") then .heartbeat
  else .other

def heartbeatAnswer : Bytes := ascii "NOP\n"

namespace PubState

/-- A process that has connected. -/
def initial : PubState where
  point := .idle
  buffers := 0
  exception := false
  log := []

variable (sock : ℤ) (fresh : ℕ → Cells UInt8) (s : PubState)

def record (entry : PubEffect) : PubState := { s with log := s.log ++ [entry] }

def goTo (point : PubPoint) : PubState := { s with point := point }

/-- `return`. -/
def leave (result : ℤ) : PubState := { s with point := .idle, log := s.log ++ [.returned result] }

/-- `throw_exception` and `return -1`. -/
def throw : PubState := { s.leave (-1) with exception := true }

/-- Behind the body loop. -/
def decide (request : Request) (message : Cells UInt8) : PubState :=
  match verdict message with
  | .ok => s.leave sock
  | .heartbeat => s.goTo (.answering request)
  | .other => s.leave (-1)

/-- The body loop is left behind. -/
theorem decide_point (point : PubPoint) (request : Request) (message : Cells UInt8) :
    ({ s with point := point }).decide sock request message = s.decide sock request message := by
  rw [decide, decide]
  cases verdict message <;> rfl

/-- What `read` gave. -/
def received (request : Request) : Next Reader Reply → Option PubState
  | .again reader => some (s.goTo (.reading request reader))
  | .leave .closed => some s.throw
  | .leave (.collected _ _ message) =>
      some ({ s with buffers := s.buffers + 1 }.decide sock request message)
  | .leave (.fault _) => none

/-- One event on the socket with this descriptor, given what `emalloc` leaves in the buffers. -/
def step : PubEvent → Option PubState
  | .call request =>
      match s.point, request.command with
      | .idle, some command => some ((s.record (.called request)).goTo (.sending request command))
      | _, _ => none
  | .sent result =>
      match s.point with
      | .sending request command =>
          if -1 ≤ result ∧ result ≤ command.length then
            let s := s.record (.send command result)
            some (if request.lostConnection result then s.throw
              else s.goTo (.reading request .againRead))
          else none
      | .answering request =>
          if -1 ≤ result ∧ result ≤ heartbeatAnswer.length then
            some ((s.record (.send heartbeatAnswer result)).goTo (.reading request .againRead))
          else none
      | _ => none
  | .read answer =>
      match s.point with
      | .reading request reader =>
          if answer.data.length ≤ reader.requested then
            (s.record (.read reader.requested answer)).received sock request
              (reader.step request.reader (fresh s.buffers) answer)
          else none
      | _ => none

end PubState

/-- The events on a socket. -/
def Publishes (sock : ℤ) (fresh : ℕ → Cells UInt8) (s : PubState) (event : PubEvent)
    (s' : PubState) : Prop :=
  s.step sock fresh event = some s'

section Inversion

variable {sock : ℤ} {fresh : ℕ → Cells UInt8} {s s' : PubState}

/-- A call begins on an idle socket, with a command that fits. -/
theorem Publishes.of_call {request : Request} (event : Publishes sock fresh s (.call request) s') :
    s.point = .idle ∧ ∃ command, request.command = some command ∧
      s' = (s.record (.called request)).goTo (.sending request command) := by
  rw [Publishes, PubState.step] at event
  split at event
  · next command point assembled => exact ⟨point, command, assembled, (Option.some.inj event).symm⟩
  · cases event

/-- `send` gives its result for a command, or for the answer to a heartbeat. -/
theorem Publishes.of_sent {result : ℤ} (event : Publishes sock fresh s (.sent result) s') :
    (∃ request command, s.point = .sending request command ∧ -1 ≤ result ∧
      result ≤ command.length ∧
      s' = if request.lostConnection result then (s.record (.send command result)).throw
        else (s.record (.send command result)).goTo (.reading request .againRead)) ∨
    ∃ request, s.point = .answering request ∧ -1 ≤ result ∧ result ≤ heartbeatAnswer.length ∧
      s' = (s.record (.send heartbeatAnswer result)).goTo (.reading request .againRead) := by
  rw [Publishes, PubState.step] at event
  split at event
  · next request command point =>
      split at event
      · next bounds =>
          exact .inl ⟨request, command, point, bounds.1, bounds.2, (Option.some.inj event).symm⟩
      · cases event
  · next request point =>
      split at event
      · next bounds => exact .inr ⟨request, point, bounds.1, bounds.2, (Option.some.inj event).symm⟩
      · cases event
  · cases event

/-- `read` gives its result to a reader. -/
theorem Publishes.of_read {answer : ReadAnswer} (event : Publishes sock fresh s (.read answer) s') :
    ∃ request reader, s.point = .reading request reader ∧
      answer.data.length ≤ reader.requested ∧
      (s.record (.read reader.requested answer)).received sock request
        (reader.step request.reader (fresh s.buffers) answer) = some s' := by
  rw [Publishes, PubState.step] at event
  split at event
  · next request reader point =>
      split at event
      · next bound => exact ⟨request, reader, point, bound, event⟩
      · cases event
  · cases event

variable {request : Request} {reader : Reader} {answer : ReadAnswer}

/-- An answer that the reader goes on from. -/
theorem Publishes.read_again (point : s.point = .reading request reader)
    (bound : answer.data.length ≤ reader.requested) {next : Reader}
    (again : reader.step request.reader (fresh s.buffers) answer = .again next) :
    Publishes sock fresh s (.read answer)
      ((s.record (.read reader.requested answer)).goTo (.reading request next)) := by
  rw [Publishes, PubState.step, point]
  simp only [if_pos bound, again, PubState.received]

/-- An answer that completes a frame. -/
theorem Publishes.read_collected (point : s.point = .reading request reader)
    (bound : answer.data.length ≤ reader.requested) {l msgSize : ℤ} {message : Cells UInt8}
    (leaves : reader.step request.reader (fresh s.buffers) answer =
      .leave (.collected l msgSize message)) :
    Publishes sock fresh s (.read answer)
      ({ s.record (.read reader.requested answer) with buffers := s.buffers + 1 }.decide sock
        request message) := by
  rw [Publishes, PubState.step, point]
  simp only [if_pos bound, leaves, PubState.received, PubState.record]

end Inversion

/-! ## What happens, by kind -/

/-- The calls among the events. -/
def calls (events : List PubEvent) : List Request :=
  events.filterMap fun
    | .call request => some request
    | _ => none

/-- The results of `send`. -/
def sendResults (events : List PubEvent) : List ℤ :=
  events.filterMap fun
    | .sent result => some result
    | _ => none

/-- The results of `read`. -/
def readAnswers (events : List PubEvent) : List ReadAnswer :=
  events.filterMap fun
    | .read answer => some answer
    | _ => none

/-- What was handed to `send`, in order. -/
def sentBytes (log : List PubEffect) : List Bytes :=
  log.filterMap fun
    | .send bytes _ => some bytes
    | _ => none

/-- The bytes taken from the stream. -/
def consumed (log : List PubEffect) : Bytes :=
  log.flatMap fun
    | .read _ answer => answer.data
    | _ => []

/-- What was returned. -/
def results (log : List PubEffect) : List ℤ :=
  log.filterMap fun
    | .returned result => some result
    | _ => none

section Projections

@[simp] theorem calls_append (first second : List PubEvent) :
    calls (first ++ second) = calls first ++ calls second := List.filterMap_append ..

@[simp] theorem sendResults_append (first second : List PubEvent) :
    sendResults (first ++ second) = sendResults first ++ sendResults second :=
  List.filterMap_append ..

@[simp] theorem readAnswers_append (first second : List PubEvent) :
    readAnswers (first ++ second) = readAnswers first ++ readAnswers second :=
  List.filterMap_append ..

@[simp] theorem sentBytes_append (first second : List PubEffect) :
    sentBytes (first ++ second) = sentBytes first ++ sentBytes second := List.filterMap_append ..

@[simp] theorem consumed_append (first second : List PubEffect) :
    consumed (first ++ second) = consumed first ++ consumed second := List.flatMap_append

@[simp] theorem results_append (first second : List PubEffect) :
    results (first ++ second) = results first ++ results second := List.filterMap_append ..

/-- Reading is neither calling nor sending. -/
@[simp] theorem calls_map_read (answers : List ReadAnswer) : calls (answers.map .read) = [] := by
  induction answers with
  | nil => rfl
  | cons answer answers ih => exact ih

@[simp] theorem sendResults_map_read (answers : List ReadAnswer) :
    sendResults (answers.map .read) = [] := by
  induction answers with
  | nil => rfl
  | cons answer answers ih => exact ih

@[simp] theorem readAnswers_map_read (answers : List ReadAnswer) :
    readAnswers (answers.map .read) = answers := by
  induction answers with
  | nil => rfl
  | cons answer answers ih => exact congrArg (answer :: ·) ih

variable {α : Type*} (pieces : List α)

theorem calls_flatMap (part : α → List PubEvent) :
    calls (pieces.flatMap part) = pieces.flatMap fun piece => calls (part piece) :=
  List.filterMap_flatMap

theorem sendResults_flatMap (part : α → List PubEvent) :
    sendResults (pieces.flatMap part) = pieces.flatMap fun piece => sendResults (part piece) :=
  List.filterMap_flatMap

theorem readAnswers_flatMap (part : α → List PubEvent) :
    readAnswers (pieces.flatMap part) = pieces.flatMap fun piece => readAnswers (part piece) :=
  List.filterMap_flatMap

theorem sentBytes_flatMap (part : α → List PubEffect) :
    sentBytes (pieces.flatMap part) = pieces.flatMap fun piece => sentBytes (part piece) :=
  List.filterMap_flatMap

theorem consumed_flatMap (part : α → List PubEffect) :
    consumed (pieces.flatMap part) = pieces.flatMap fun piece => consumed (part piece) :=
  List.flatMap_assoc

end Projections

section Effects

variable {sock : ℤ} {fresh : ℕ → Cells UInt8} {s s' : PubState}

/-- What a read adds to the record, and where it leaves the process. -/
theorem Publishes.read_effect {answer : ReadAnswer}
    (here : Publishes sock fresh s (.read answer) s') :
    ∃ request reader, s.point = .reading request reader ∧
      ((s'.log = s.log ++ [.read reader.requested answer] ∧
          ((∃ next, s'.point = .reading request next) ∨ s'.point = .answering request)) ∨
        ∃ result, s'.log = s.log ++ [.read reader.requested answer] ++ [.returned result] ∧
          s'.point = .idle) := by
  obtain ⟨request, reader, point, -, received⟩ := here.of_read
  refine ⟨request, reader, point, ?_⟩
  generalize reader.step request.reader (fresh s.buffers) answer = next at received
  cases next with
  | again next =>
      obtain rfl := Option.some.inj received
      exact .inl ⟨rfl, .inl ⟨next, rfl⟩⟩
  | leave reply =>
      cases reply with
      | closed =>
          obtain rfl := Option.some.inj received
          exact .inr ⟨-1, rfl, rfl⟩
      | collected l msgSize message =>
          obtain rfl := Option.some.inj received
          rw [PubState.decide]
          cases verdict message with
          | ok => exact .inr ⟨sock, rfl, rfl⟩
          | heartbeat => exact .inl ⟨rfl, .inr rfl⟩
          | other => exact .inr ⟨-1, rfl, rfl⟩
      | fault fault => cases received

/-- The bytes taken from the stream are those that `read` gave. -/
theorem Publishes.consumed_eq {event : PubEvent} (here : Publishes sock fresh s event s') :
    consumed s'.log = consumed s.log ++ (readAnswers [event]).flatMap ReadAnswer.data := by
  cases event with
  | call request =>
      obtain ⟨-, command, -, rfl⟩ := here.of_call
      exact consumed_append ..
  | sent result =>
      rcases here.of_sent with ⟨request, command, -, -, -, rfl⟩ | ⟨request, -, -, -, rfl⟩
      · split
        · exact (consumed_append _ _).trans (congrArg (· ++ _) (consumed_append _ _)) |>.trans
            (List.append_nil _)
        · exact consumed_append ..
      · exact consumed_append ..
  | read answer =>
      obtain ⟨request, reader, -, ⟨log, -⟩ | ⟨result, log, -⟩⟩ := here.read_effect
      · rw [log, consumed_append]
        rfl
      · rw [log, consumed_append, consumed_append]
        exact List.append_nil _

/-- The calls that have not returned. -/
def PubPoint.pending : PubPoint → ℕ
  | .idle => 0
  | _ => 1

/-- A call returns before the next one begins. -/
theorem Publishes.pending_eq {event : PubEvent} (here : Publishes sock fresh s event s') :
    (results s'.log).length + s'.point.pending =
      (results s.log).length + s.point.pending + (calls [event]).length := by
  cases event with
  | call request =>
      obtain ⟨point, command, -, rfl⟩ := here.of_call
      rw [point]
      change (results (s.log ++ [_])).length + 1 = _
      simp [results, calls, PubPoint.pending]
  | sent result =>
      rcases here.of_sent with ⟨request, command, point, -, -, rfl⟩ | ⟨request, point, -, -, rfl⟩
      · rw [point]
        split
        · change (results (s.log ++ [_] ++ [_])).length + 0 = _
          simp [results, calls, PubPoint.pending]
        · change (results (s.log ++ [_])).length + 1 = _
          simp [results, calls, PubPoint.pending]
      · rw [point]
        change (results (s.log ++ [_])).length + 1 = _
        simp [results, calls, PubPoint.pending]
  | read answer =>
      obtain ⟨request, reader, point, ⟨log, busy⟩ | ⟨result, log, idle⟩⟩ := here.read_effect
      · rcases busy with ⟨next, busy⟩ | busy
        · rw [log, point, busy]
          simp [results, calls, PubPoint.pending]
        · rw [log, point, busy]
          simp [results, calls, PubPoint.pending]
      · rw [log, idle, point]
        simp [results, calls, PubPoint.pending]

end Effects

section Order

variable {sock : ℤ} {fresh : ℕ → Cells UInt8} {s first second : PubState}

theorem Publishes.unique {event : PubEvent} (here : Publishes sock fresh s event first)
    (there : Publishes sock fresh s event second) : first = second :=
  Option.some.inj (here.symm.trans there)

/-- A sequence of events leads to one state. -/
theorem Publishes.run_unique {events : List PubEvent}
    (left : Run (Publishes sock fresh) s events first)
    (right : Run (Publishes sock fresh) s events second) : first = second :=
  Run.unique (fun _ _ _ _ here there => here.unique there) left right

/-- What kind of event is possible. -/
inductive PubKind where
  | call
  | sent
  | read

def PubPoint.kind : PubPoint → PubKind
  | .idle => .call
  | .sending _ _ => .sent
  | .reading _ _ => .read
  | .answering _ => .sent

def PubEvent.kind : PubEvent → PubKind
  | .call _ => .call
  | .sent _ => .sent
  | .read _ => .read

/-- The point tells which kind of event comes next. -/
theorem Publishes.kind_point {event : PubEvent} (here : Publishes sock fresh s event first) :
    event.kind = s.point.kind := by
  cases event with
  | call request => rw [here.of_call.1]; rfl
  | sent result =>
      rcases here.of_sent with ⟨request, command, point, -⟩ | ⟨request, point, -⟩
      · rw [point]; rfl
      · rw [point]; rfl
  | read answer =>
      obtain ⟨request, reader, point, -⟩ := here.of_read
      rw [point]; rfl

theorem Publishes.kind_eq {event other : PubEvent} (here : Publishes sock fresh s event first)
    (there : Publishes sock fresh s other second) : event.kind = other.kind :=
  here.kind_point.trans there.kind_point.symm

/-- **The process decides in which order it asks**: the calls, the results of `send` and those of
`read` fix the events. -/
theorem Publishes.order_unique {events others : List PubEvent}
    (left : Run (Publishes sock fresh) s events first)
    (right : Run (Publishes sock fresh) s others second) (same_calls : calls events = calls others)
    (same_sends : sendResults events = sendResults others)
    (same_reads : readAnswers events = readAnswers others) : events = others := by
  induction events generalizing s others with
  | nil =>
      cases others with
      | nil => rfl
      | cons event others =>
          cases event with
          | call request => cases same_calls
          | sent result => cases same_sends
          | read answer => cases same_reads
  | cons event events ih =>
      obtain ⟨next, here, before⟩ := left
      cases others with
      | nil =>
          cases event with
          | call request => cases same_calls
          | sent result => cases same_sends
          | read answer => cases same_reads
      | cons other others =>
          obtain ⟨next', there, behind⟩ := right
          have head : event = other := by
            have kind := here.kind_eq there
            cases event with
            | call request =>
                cases other with
                | call request' => exact congrArg PubEvent.call (List.cons.inj same_calls).1
                | _ => cases kind
            | sent result =>
                cases other with
                | sent result' => exact congrArg PubEvent.sent (List.cons.inj same_sends).1
                | _ => cases kind
            | read answer =>
                cases other with
                | read answer' => exact congrArg PubEvent.read (List.cons.inj same_reads).1
                | _ => cases kind
          subst head
          obtain rfl := here.unique there
          cases event with
          | call request =>
              rw [ih before behind (List.cons.inj same_calls).2 same_sends same_reads]
          | sent result =>
              rw [ih before behind same_calls (List.cons.inj same_sends).2 same_reads]
          | read answer =>
              rw [ih before behind same_calls same_sends (List.cons.inj same_reads).2]

end Order

end PhpNsq
