import PhpNsq.Nsq.Methods
import PhpNsq.Publisher.CallAccounts

/-!
# An object that publishes

`Nsq::publish` and `Nsq::deferredPublish` choose one of the connections of the object by `rand`, and
the function of pub.c works on that socket until it returns. The sockets keep their own output and
input, so what one call leaves behind on a socket is met by the next call on the same socket.

`Publishing` is the object with the processes of its sockets and the call that has not returned. Every
run of it is a run on each socket (`Publishing.Tracks`). So each call reports what the nsqd it was
sent to replied to it (`publish_reports`), and its message is read by that nsqd and by no other
(`published_once`).
-/

set_option autoImplicit false

namespace PhpNsq

open Foundations

/-- A call of a method that publishes. -/
inductive PublishCall where
  | publish (topic msg : Bytes)
  | deferredPublish (topic msg : Bytes) (delayTime : Int64)

namespace PublishCall

/-- The call of pub.c. -/
def request : PublishCall → Request
  | .publish topic msg => .publish topic msg
  | .deferredPublish topic msg delayTime => .deferredPublish topic msg delayTime.toInt32

/-- The method. -/
def result (self : Nsq) (rand : ℕ) (re : ℤ) : PublishCall → CallResult
  | .publish topic msg => self.publish topic msg rand re
  | .deferredPublish topic msg delayTime => self.deferredPublish topic msg delayTime rand re

end PublishCall

/-- The socket that `rand` gives. -/
def Nsq.chosen (self : Nsq) (rand : ℕ) : Option ℤ :=
  self.nsqdConnectionFds.bind fun val => val.lookup (rand % val.length)

/-- A call that has not returned. -/
structure OngoingCall where
  sock : ℤ
  call : PublishCall
  rand : ℕ

/-- A call that has returned: what the function of pub.c returned, and how the method ended. -/
structure FinishedCall where
  sock : ℤ
  call : PublishCall
  re : ℤ
  ending : Ending

/-- An object, the processes of its sockets, the call that it is in, and those before. -/
structure Publishing where
  obj : Nsq
  sockets : ℤ → PubState
  ongoing : Option OngoingCall
  finished : List FinishedCall

/-- A method is called, or the system call that the process is at gives its result. -/
inductive PublishingEvent where
  | call (call : PublishCall) (rand : ℕ)
  | sent (result : ℤ)
  | read (answer : ReadAnswer)

namespace Publishing

/-- An object that has connected. -/
def initial (obj : Nsq) : Publishing where
  obj := obj
  sockets := fun _ => .initial
  ongoing := none
  finished := []

variable (s : Publishing) (fresh : ℤ → ℕ → Cells UInt8)

/-- The process of the socket has moved; when the function of pub.c has returned, so does the
method. -/
def moved (ongoing : OngoingCall) (next : PubState) : Publishing :=
  let sockets := Function.update s.sockets ongoing.sock next
  match next.point, (results next.log).getLast? with
  | .idle, some re =>
      { s with
        sockets := sockets
        ongoing := none
        finished := s.finished ++
          [⟨ongoing.sock, ongoing.call, re, (ongoing.call.result s.obj ongoing.rand re).ending⟩] }
  | _, _ => { s with sockets := sockets }

/-- The result of a system call. -/
def resume (event : PubEvent) : Option Publishing :=
  match s.ongoing with
  | none => none
  | some ongoing =>
      ((s.sockets ongoing.sock).step ongoing.sock (fresh ongoing.sock) event).map (s.moved ongoing)

/-- One event, given what `emalloc` leaves in the buffers of each socket. -/
def step : PublishingEvent → Option Publishing
  | .call call rand =>
      match s.ongoing, s.obj.chosen rand with
      | none, some sock =>
          ((s.sockets sock).step sock (fresh sock) (.call call.request)).map fun next =>
            { s with
              sockets := Function.update s.sockets sock next
              ongoing := some ⟨sock, call, rand⟩ }
      | _, _ => none
  | .sent result => s.resume fresh (.sent result)
  | .read answer => s.resume fresh (.read answer)

end Publishing

/-- The events of an object that publishes. -/
def WorksOn (fresh : ℤ → ℕ → Cells UInt8) (s : Publishing) (event : PublishingEvent)
    (s' : Publishing) : Prop :=
  s.step fresh event = some s'

/-- The event on the socket of the call. -/
def PublishingEvent.onSocket : PublishingEvent → PubEvent
  | .call made _ => .call made.request
  | .sent result => .sent result
  | .read answer => .read answer

/-- An event that meets a condition on its socket. -/
def OnSocket (condition : PubState → PubEvent → Prop) (s : Publishing) (event : PublishingEvent) :
    Prop :=
  ∀ ongoing, s.ongoing = some ongoing → condition (s.sockets ongoing.sock) event.onSocket

/-- The calls on a socket that have returned, and what they returned. -/
def finishedOn (finished : List FinishedCall) (sock : ℤ) : List (Request × ℤ) :=
  (finished.filter fun call => call.sock = sock).map fun call => (call.call.request, call.re)

/-! ## One socket at a time -/

/-- The method gives back whether the function of pub.c returned a descriptor. -/
theorem PublishCall.result_eq {self : Nsq} {rand : ℕ} {sock : ℤ} (chosen : self.chosen rand = some sock)
    (call : PublishCall) (re : ℤ) :
    call.result self rand re =
      ⟨[.publish sock call.request], self, .returned (some (decide (re > 0)))⟩ := by
  obtain ⟨fds, connected, found⟩ := Option.bind_eq_some_iff.mp chosen
  have some_entry : ¬ fds.length = 0 := by
    intro zero
    rw [List.length_eq_zero_iff.mp zero] at found
    cases found
  cases call with
  | publish topic msg =>
      simp only [PublishCall.result, Nsq.publish, Nsq.publishing, connected, if_neg some_entry, found]
      rfl
  | deferredPublish topic msg delayTime =>
      simp only [PublishCall.result, Nsq.deferredPublish, Nsq.publishing, connected,
        if_neg some_entry, found]
      rfl

/-- The call on a socket that has not returned. -/
def ongoingOn (ongoing : Option OngoingCall) (sock : ℤ) : List Request :=
  (ongoing.toList.filter fun call => call.sock = sock).map fun call => call.call.request

theorem finishedOn_append (first second : List FinishedCall) (sock : ℤ) :
    finishedOn (first ++ second) sock = finishedOn first sock ++ finishedOn second sock := by
  rw [finishedOn, List.filter_append, List.map_append]
  rfl

/-- A socket with the calls on it that have returned, and the one that has not. -/
structure PubState.Serves (sock : ℤ) (fresh : ℕ → Cells UInt8)
    (condition : PubState → PubEvent → Prop) (finished : List (Request × ℤ)) (ongoing : List Request)
    (s : PubState) : Prop where
  run : ∃ events, Run (guarded condition (Publishes sock fresh)) .initial events s
  idle : ongoing = [] → s.point = .idle
  calls : calledIn s.log = finished.map Prod.fst ++ ongoing
  results : PhpNsq.results s.log = finished.map Prod.snd

namespace PubState.Serves

variable {sock : ℤ} {fresh : ℕ → Cells UInt8} {condition : PubState → PubEvent → Prop}
  {finished : List (Request × ℤ)} {request : Request} {s next : PubState}

theorem initial : Serves sock fresh condition [] [] .initial where
  run := ⟨[], rfl⟩
  idle := fun _ => rfl
  calls := rfl
  results := rfl

theorem extend {ongoing : List Request} (serves : Serves sock fresh condition finished ongoing s)
    {event : PubEvent} (meets : condition s event) (here : Publishes sock fresh s event next) :
    ∃ events, Run (guarded condition (Publishes sock fresh)) .initial events next := by
  obtain ⟨events, run⟩ := serves.run
  exact ⟨events ++ [event], run_append.mpr ⟨_, run, run_singleton.mpr ⟨meets, here⟩⟩⟩

theorem call (serves : Serves sock fresh condition finished [] s)
    (meets : condition s (.call request)) (here : Publishes sock fresh s (.call request) next) :
    Serves sock fresh condition finished [request] next := by
  have run := serves.extend meets here
  obtain ⟨-, command, -, rfl⟩ := here.of_call
  refine ⟨run, fun none => (by cases none), ?_, ?_⟩
  · change calledIn (s.log ++ [_]) = _
    rw [calledIn_append, serves.calls, List.append_nil]
    rfl
  · change PhpNsq.results (s.log ++ [_]) = _
    rw [results_append, serves.results]
    exact List.append_nil _

/-- A system call goes on with the call, or ends it. -/
theorem system (serves : Serves sock fresh condition finished [request] s) {event : PubEvent}
    (system : ∀ request, event ≠ .call request) (meets : condition s event)
    (here : Publishes sock fresh s event next) :
    (next.point ≠ .idle ∧ Serves sock fresh condition finished [request] next) ∨
      (next.point = .idle ∧ ∃ re, (PhpNsq.results next.log).getLast? = some re ∧
        Serves sock fresh condition (finished ++ [(request, re)]) [] next) := by
  have run := serves.extend meets here
  obtain ⟨calls, ⟨busy, results⟩ | ⟨idle, re, results⟩⟩ := here.ends_or_goes_on system
  · exact .inl ⟨busy, run, fun none => (by cases none), calls.trans serves.calls,
      results.trans serves.results⟩
  · refine .inr ⟨idle, re, by rw [results, List.getLast?_concat], run, fun _ => idle, ?_, ?_⟩
    · rw [calls, serves.calls, List.map_append, List.append_nil]
      rfl
    · rw [results, serves.results, List.map_append]
      rfl

end PubState.Serves

namespace Publishing

/-- The invariant: each socket serves the calls on it, and the methods end as the sockets say. -/
structure Tracks (fresh : ℤ → ℕ → Cells UInt8) (condition : PubState → PubEvent → Prop)
    (obj : Nsq) (s : Publishing) : Prop where
  same : s.obj = obj
  sockets : ∀ sock, (s.sockets sock).Serves sock (fresh sock) condition (finishedOn s.finished sock)
    (ongoingOn s.ongoing sock)
  chosen : ∀ ongoing, s.ongoing = some ongoing → obj.chosen ongoing.rand = some ongoing.sock
  finished : ∀ call ∈ s.finished, (∃ rand, obj.chosen rand = some call.sock) ∧
    call.ending = .returned (some (decide (call.re > 0)))

/-- The call goes on. -/
theorem moved_of_busy {s : Publishing} {ongoing : OngoingCall} {next : PubState}
    (busy : next.point ≠ .idle) :
    s.moved ongoing next =
      { s with sockets := Function.update s.sockets ongoing.sock next } := by
  rw [moved]
  split
  · next idle last => exact absurd idle busy
  · rfl

/-- The call returns. -/
theorem moved_of_idle {s : Publishing} {ongoing : OngoingCall} {next : PubState} {re : ℤ}
    (idle : next.point = .idle) (last : (results next.log).getLast? = some re) :
    s.moved ongoing next =
      { s with
        sockets := Function.update s.sockets ongoing.sock next
        ongoing := none
        finished := s.finished ++
          [⟨ongoing.sock, ongoing.call, re, (ongoing.call.result s.obj ongoing.rand re).ending⟩] } := by
  simp only [moved, idle, last]

/-- The result of a system call of the process. -/
theorem resume_eq {s : Publishing} {fresh : ℤ → ℕ → Cells UInt8} {ongoing : OngoingCall}
    {event : PubEvent} {next : PubState} (busy : s.ongoing = some ongoing)
    (here : Publishes ongoing.sock (fresh ongoing.sock) (s.sockets ongoing.sock) event next) :
    s.resume fresh event = some (s.moved ongoing next) := by
  rw [Publishes] at here
  simp only [resume, busy, here, Option.map_some]

namespace Tracks

variable {fresh : ℤ → ℕ → Cells UInt8} {condition : PubState → PubEvent → Prop} {obj : Nsq}
  {s s' : Publishing}

theorem initial : Tracks fresh condition obj (.initial obj) where
  same := rfl
  sockets := fun sock => .initial
  chosen := fun ongoing none => by cases none
  finished := List.forall_mem_nil _

/-- A method is called. -/
theorem of_call (tracks : Tracks fresh condition obj s) {call : PublishCall} {rand : ℕ}
    (meets : ∀ state, condition state (.call call.request))
    (here : WorksOn fresh s (.call call rand) s') : Tracks fresh condition obj s' := by
  rw [WorksOn, step] at here
  split at here
  · next sock free chosen =>
      obtain ⟨next, moves, rfl⟩ := Option.map_eq_some_iff.mp here
      refine ⟨tracks.same, fun other => ?_, ?_, tracks.finished⟩
      · by_cases same : other = sock
        · subst same
          have serves := tracks.sockets other
          rw [free] at serves
          have called : next.Serves other (fresh other) condition (finishedOn s.finished other)
              [call.request] := serves.call (meets _) moves
          simpa [ongoingOn] using called
        · have serves := tracks.sockets other
          rw [free] at serves
          simpa [ongoingOn, same, Ne.symm same] using serves
      · rintro ongoing ⟨⟩
        exact tracks.same ▸ chosen
  · cases here

/-- A system call gives its result. -/
theorem of_system (tracks : Tracks fresh condition obj s) {event : PubEvent}
    (system : ∀ request, event ≠ .call request)
    (meets : ∀ ongoing, s.ongoing = some ongoing → condition (s.sockets ongoing.sock) event)
    (here : s.resume fresh event = some s') : Tracks fresh condition obj s' := by
  rw [resume] at here
  split at here
  · cases here
  · next ongoing busy =>
      obtain ⟨next, moves, rfl⟩ := Option.map_eq_some_iff.mp here
      have serves := tracks.sockets ongoing.sock
      have mine : ongoingOn s.ongoing ongoing.sock = [ongoing.call.request] := by
        simp [ongoingOn, busy]
      rw [mine] at serves
      rcases serves.system system (meets ongoing busy) moves with
        ⟨goes_on, serves⟩ | ⟨idle, re, last, serves⟩
      · rw [moved_of_busy goes_on]
        refine ⟨tracks.same, fun other => ?_, tracks.chosen, tracks.finished⟩
        by_cases same : other = ongoing.sock
        · subst same
          simpa [mine] using serves
        · simpa [same] using tracks.sockets other
      · rw [moved_of_idle idle last]
        have chosen := tracks.chosen ongoing busy
        refine ⟨tracks.same, fun other => ?_, fun _ none => (by cases none), ?_⟩
        · rw [finishedOn_append]
          by_cases same : other = ongoing.sock
          · subst same
            simpa [finishedOn, ongoingOn] using serves
          · simpa [finishedOn, ongoingOn, busy, same, Ne.symm same] using tracks.sockets other
        · refine List.forall_mem_append.mpr ⟨tracks.finished, List.forall_mem_singleton.mpr
            ⟨⟨ongoing.rand, chosen⟩, ?_⟩⟩
          rw [tracks.same, PublishCall.result_eq chosen]

/-- **Every event keeps the invariant.** -/
theorem step (tracks : Tracks fresh condition obj s) {event : PublishingEvent}
    (calls : ∀ state request, condition state (.call request)) (meets : OnSocket condition s event)
    (here : WorksOn fresh s event s') : Tracks fresh condition obj s' := by
  cases event with
  | call call rand => exact tracks.of_call (fun state => calls state _) here
  | sent result =>
      exact tracks.of_system (fun request call => by cases call) meets here
  | read answer =>
      exact tracks.of_system (fun request call => by cases call) meets here

end Tracks

/-- Along every run. -/
theorem tracks_of_run {fresh : ℤ → ℕ → Cells UInt8} {condition : PubState → PubEvent → Prop}
    {obj : Nsq} {events : List PublishingEvent} {last : Publishing}
    (calls : ∀ state request, condition state (.call request))
    (run : Run (guarded (OnSocket condition) (WorksOn fresh)) (.initial obj) events last) :
    last.Tracks fresh condition obj :=
  run.invariant (fun _ s => s.Tracks fresh condition obj)
    (fun _ _ _ _ here one => here.step calls one.1 one.2) .initial

end Publishing

/-! ## A call -/

/-- An object with one connection and a configuration. -/
def publisher : Nsq := ⟨some [(0, 5)], none, some (ascii "{}")⟩

def helloCall : PublishCall := .publish (ascii "t") (ascii "m")

/-- The object while the call is on its socket. -/
def Publishing.inHello (state : PubState) : Publishing :=
  ⟨publisher, Function.update (fun _ => .initial) 5 state, some ⟨5, helloCall, 0⟩, []⟩

theorem Publishing.inHello_five (state : PubState) : (inHello state).sockets 5 = state := by
  simp [inHello]

/-- A system call that the call goes on from. -/
theorem inHello_goes_on {state next : PubState} {event : PubEvent}
    (here : Publishes 5 (fun _ _ => 0) state event next) (busy : next.point ≠ .idle) :
    (Publishing.inHello state).resume (fun _ _ _ => 0) event = some (.inHello next) := by
  rw [← Publishing.inHello_five state] at here
  rw [Publishing.resume_eq rfl here, Publishing.moved_of_busy busy]
  simp only [Publishing.inHello, Function.update_idem]

/-- The events of the call, up to its reply. -/
def helloEvents : List PublishingEvent :=
  [.call helloCall 0, .sent 11, .read (.got (bigEndian 4 okFrame.size)),
    .read (.got okFrame.payload)]

/-- The process behind the reply. -/
def helloDone : PubState :=
  { helloSent with
    point := .idle
    buffers := 1
    log := helloSent.log ++ okReads ++ [.returned 5] }

/-- The call returns `true`. -/
theorem run_helloEvents {condition : PubState → PubEvent → Prop}
    (sends : condition ((PubState.initial.record (.called hello)).goTo
      (.sending hello helloCommand)) (.sent 11))
    (opens : condition helloSent (.read (.got (bigEndian 4 okFrame.size))))
    (collects : condition helloOpened (.read (.got okFrame.payload))) :
    ∃ last, Run (guarded (OnSocket condition) (WorksOn fun _ _ _ => 0)) (.initial publisher)
        helloEvents last ∧
      last.finished = [⟨5, helloCall, 5, .returned (some true)⟩] ∧ last.ongoing = none ∧
      last.sockets 5 = helloDone := by
  have meets : ∀ {state : PubState} {event : PublishingEvent}, condition state event.onSocket →
      OnSocket condition (.inHello state) event := by
    rintro state event here ongoing ⟨⟩
    rwa [Publishing.inHello_five]
  have complete : Reader.step hello.reader (fun _ => 0)
      (.again (0 : ℕ) okFrame.size fun _ => 0) (.got okFrame.payload) = _ :=
    Reader.step_last hello.reader_readsOn rfl
  have collected : Publishes 5 (fun _ _ => 0) helloOpened (.read (.got okFrame.payload)) _ :=
    Publishes.read_collected rfl (by decide) complete
  have leaves : Publishes 5 (fun _ _ => 0) helloOpened (.read (.got okFrame.payload)) helloDone :=
    collected
  let called := (PubState.initial.record (.called hello)).goTo (.sending hello helloCommand)
  have accepted : Publishes 5 (fun _ _ => 0) called (.sent 11) helloSent := rfl
  have first : WorksOn (fun _ _ _ => 0) (.initial publisher) (.call helloCall 0)
      (.inHello called) := rfl
  have second : WorksOn (fun _ _ _ => 0) (.inHello called) (.sent 11) (.inHello helloSent) :=
    inHello_goes_on accepted fun idle => by cases idle
  have third : WorksOn (fun _ _ _ => 0) (.inHello helloSent)
      (.read (.got (bigEndian 4 okFrame.size))) (.inHello helloOpened) :=
    inHello_goes_on helloSent_opened fun idle => by cases idle
  rw [← Publishing.inHello_five helloOpened] at leaves
  have busy : (Publishing.inHello helloOpened).ongoing = some ⟨5, helloCall, 0⟩ := rfl
  have fourth : (Publishing.inHello helloOpened).resume (fun _ _ _ => 0)
      (.read (.got okFrame.payload)) =
        some ((Publishing.inHello helloOpened).moved ⟨5, helloCall, 0⟩ helloDone) :=
    Publishing.resume_eq busy leaves
  refine ⟨_, ⟨_, ⟨fun ongoing none => (by cases none), first⟩, _, ⟨meets sends, second⟩, _,
    ⟨meets opens, third⟩, _, ⟨meets collects, fourth⟩, rfl⟩, ?_⟩
  rw [Publishing.moved_of_idle rfl rfl]
  exact ⟨rfl, rfl, by simp⟩

/-! ## What the calls report -/

/-- What comes in on a socket: the frames, what `read` gives to `send_identify` of them, and the
buffer that it reads into. -/
structure Inbound where
  frames : List RawFrame
  greeting : List ReadAnswer
  contents : Cells UInt8

namespace Inbound

variable (inbound : Inbound) (nsqConfig : Option Bytes)

/-- The stream. -/
def stream : Bytes := inbound.frames.flatMap RawFrame.encode

/-- How far `send_identify` reads: it takes a frame for the reply if there is a configuration. -/
def greetingEnd : Option ℕ :=
  match nsqConfig with
  | none => some 0
  | some _ =>
      (drive sendIdentifyReader inbound.contents .againRead 0 inbound.greeting).map
        Outcome.position

/-- The frames that are left to the calls. -/
def left : List RawFrame :=
  match nsqConfig with
  | none => inbound.frames
  | some _ => inbound.frames.tail

/-- The first frame comes in plainly, if `send_identify` waits for it. -/
def PlainGreeting : Prop :=
  match nsqConfig, inbound.frames with
  | none, _ => True
  | some _, [] => False
  | some _, frame :: _ => PlainSchedule frame.size inbound.greeting ∧
      inbound.greeting.flatMap ReadAnswer.data <+: inbound.stream

variable {inbound nsqConfig}

/-- **`send_identify` takes the first frame**, whatever it is. -/
theorem PlainGreeting.greetingEnd_eq (plain : inbound.PlainGreeting nsqConfig) :
    ∃ position, inbound.greetingEnd nsqConfig = some position ∧
      inbound.stream.drop position = (inbound.left nsqConfig).flatMap RawFrame.encode := by
  cases nsqConfig with
  | none => exact ⟨0, rfl, rfl⟩
  | some json =>
      obtain ⟨frames, greeting, contents⟩ := inbound
      cases frames with
      | nil => exact plain.elim
      | cons frame frames =>
          obtain ⟨schedule, undelivered, delivers⟩ := plain
          rw [stream, List.flatMap_cons] at delivers
          obtain ⟨outcome, driven, exactly⟩ : ReadsFrame sendIdentifyReader contents frame greeting :=
            drive_plainSchedule sendIdentifyReader_readsOn schedule delivers
          refine ⟨frame.size + 4, ?_, ?_⟩
          · simp only [greetingEnd, driven, Option.map_some, exactly.position]
          · have whole : frame.encode.length = frame.size + 4 := by
              rw [RawFrame.encode, List.length_append, length_bigEndian, frame.length_payload]
              omega
            rw [stream, List.flatMap_cons, List.drop_left' whole]
            rfl

end Inbound

/-- What a process took from its socket is what `read` gave. -/
theorem consumed_of_run {sock : ℤ} {fresh : ℕ → Cells UInt8} {events : List PubEvent}
    {last : PubState} (run : Run (Publishes sock fresh) .initial events last) :
    consumed last.log = (readAnswers events).flatMap ReadAnswer.data := by
  refine run.invariant (fun taken s =>
    consumed s.log = (readAnswers taken).flatMap ReadAnswer.data) ?_ rfl
  intro taken s event next here one
  rw [one.consumed_eq, here, readAnswers_append, List.flatMap_append]

/-- A call among those on its socket. -/
theorem getElem?_finishedOn {before after : List FinishedCall} {call : FinishedCall} :
    (finishedOn (before ++ call :: after) call.sock)[(finishedOn before call.sock).length]? =
      some (call.call.request, call.re) := by
  rw [List.append_cons, finishedOn_append, finishedOn_append, List.append_assoc,
    List.getElem?_append_right (Nat.le_refl _), Nat.sub_self]
  simp [finishedOn]

/-- What comes in on a socket can be told apart, and was read as far as the process has come. -/
structure Inbound.Delivered (nsqConfig : Option Bytes) (fresh : ℕ → Cells UInt8)
    (inbound : Inbound) (s : PubState) : Prop where
  greeting : inbound.PlainGreeting nsqConfig
  free : ∀ frame ∈ inbound.left nsqConfig, (0 : UInt8) ∉ frame.data
  terminated : Terminated fresh 0 (inbound.left nsqConfig)
  reads : ∀ position, inbound.greetingEnd nsqConfig = some position →
    consumed s.log <+: inbound.stream.drop position

/-- **Every call reports what its nsqd replied.** The sockets are read plainly, into buffers with a zero
behind each body, and the replies have no NUL. Then the n-th call on a socket returns `true` if the
n-th reply on it, behind the frame that `send_identify` took, is `OK`, and otherwise `false`;
whatever the calls on the other sockets do. -/
theorem publish_reports {fresh : ℤ → ℕ → Cells UInt8} {obj : Nsq} {inbound : ℤ → Inbound}
    (connected : ∀ rand sock, obj.chosen rand = some sock → 0 < sock)
    {events : List PublishingEvent} {last : Publishing}
    (run : Run (guarded (OnSocket PlainStep) (WorksOn fresh)) (.initial obj) events last)
    (delivered : ∀ rand sock, obj.chosen rand = some sock →
      (inbound sock).Delivered obj.nsqConfig (fresh sock) (last.sockets sock))
    {before after : List FinishedCall} {call : FinishedCall}
    (finished : last.finished = before ++ call :: after) :
    ∃ frame, (replies ((inbound call.sock).left obj.nsqConfig))[
        (finishedOn before call.sock).length]? = some frame ∧
      call.ending = .returned (some (decide (frame.data = ascii "OK"))) := by
  have tracks := Publishing.tracks_of_run (fun _ _ => trivial) run
  obtain ⟨⟨rand, chosen⟩, ending⟩ := tracks.finished call (by simp [finished])
  have here := delivered rand call.sock chosen
  obtain ⟨position, ends, left⟩ := here.greeting.greetingEnd_eq
  obtain ⟨undelivered, stream⟩ := here.reads position ends
  have serves := tracks.sockets call.sock
  obtain ⟨taken, sock_run⟩ := serves.run
  rw [consumed_of_run sock_run.unguarded, left] at stream
  obtain ⟨done, rest, split, aligned⟩ :=
    aligned_of_run here.free here.terminated sock_run stream
  have result : (results (last.sockets call.sock).log)[(finishedOn before call.sock).length]? =
      some call.re := by
    rw [serves.results, List.getElem?_map, finished, getElem?_finishedOn]
    rfl
  obtain ⟨frame, reply, verdict⟩ := kth_result aligned (connected rand call.sock chosen) result
  refine ⟨frame, split ▸ reply, ?_⟩
  rw [ending, decide_eq_decide.mpr verdict]

/-- The connection of `publisher`. -/
theorem publisher_chosen {rand : ℕ} {sock : ℤ} (chosen : publisher.chosen rand = some sock) :
    sock = 5 := by
  have five : publisher.chosen rand = some 5 := by
    simp [Nsq.chosen, publisher, Nat.mod_one]
  exact (Option.some.inj (five.symm.trans chosen)).symm

/-- Two times `OK`: the first is for `IDENTIFY`. -/
def helloInbound : Inbound :=
  ⟨[okFrame, okFrame], [.got (bigEndian 4 okFrame.size), .got okFrame.payload], fun _ => 7⟩

theorem publish_reports_hello :
    ∃ last, Run (guarded (OnSocket PlainStep) (WorksOn fun _ _ _ => 0)) (.initial publisher)
        helloEvents last ∧ last.finished = [⟨5, helloCall, 5, .returned (some true)⟩] ∧
      ∃ frame, (replies (helloInbound.left publisher.nsqConfig))[0]? = some frame ∧
        Ending.returned (some true) = .returned (some (decide (frame.data = ascii "OK"))) := by
  have accepted : PlainStep ((PubState.initial.record (.called hello)).goTo
      (.sending hello helloCommand)) (.sent 11) := by
    rintro request command ⟨⟩
    rfl
  have opens : PlainStep helloSent (.read (.got (bigEndian 4 okFrame.size))) := by
    rintro request reader ⟨⟩
    rfl
  have collects : PlainStep helloOpened (.read (.got okFrame.payload)) := by
    rintro request reader ⟨⟩
    exact ⟨by decide, by decide⟩
  obtain ⟨last, run, finished, -, five⟩ := run_helloEvents accepted opens collects
  refine ⟨last, run, finished, ?_⟩
  have greeting : helloInbound.PlainGreeting publisher.nsqConfig :=
    ⟨⟨rfl, by decide, by decide, trivial⟩, by decide⟩
  have delivered : ∀ rand sock, publisher.chosen rand = some sock →
      helloInbound.Delivered publisher.nsqConfig (fun _ _ => 0) (last.sockets sock) := by
    intro rand sock chosen
    rw [publisher_chosen chosen, five]
    refine ⟨greeting, by decide, ⟨rfl, trivial⟩, fun position ends => ?_⟩
    obtain ⟨position', ends', left⟩ := greeting.greetingEnd_eq
    obtain rfl := Option.some.inj (ends.symm.trans ends')
    rw [left]
    decide
  have first : last.finished = [] ++ ⟨5, helloCall, 5, .returned (some true)⟩ :: [] := finished
  exact publish_reports (fun rand sock chosen => by rw [publisher_chosen chosen]; decide) run
    delivered first

/-! ## What the nsqds read -/

/-- The calls so far. -/
def Publishing.calls (s : Publishing) : List PublishCall :=
  s.finished.map FinishedCall.call ++ s.ongoing.toList.map OngoingCall.call

/-- **Every message goes to the nsqd that was chosen for it.** The sends are whole, the topics are
names and no delay is negative. Then each nsqd reads the messages of the calls on its socket whose
commands were accepted, in their order and once each, with answers to heartbeats between them; and a
call whose command was not accepted returns `false`. -/
theorem published_once {fresh : ℤ → ℕ → Cells UInt8} {obj : Nsq}
    (json : ∀ text, obj.nsqConfig = some text → (0 : UInt8) ∉ text) {identify : Option Bytes}
    (identified : obj.nsqConfig.mapM identifyCommand = some identify)
    {events : List PublishingEvent} {last : Publishing}
    (run : Run (guarded (OnSocket WholeSend) (WorksOn fresh)) (.initial obj) events last)
    (names : ∀ call ∈ last.calls, call.request.asCommand.WellFormed) (sock : ℤ) :
    ∃ (done : List ReturnedCall) (current : List (Request × Bool)) (commands : List Command)
        (tail : Bytes),
      done.map (fun call => (call.request, call.result)) = finishedOn last.finished sock ∧
      current.map Prod.fst = ongoingOn last.ongoing sock ∧
      nsqdReads (ascii "  V2" ++ (identify.toList.flatten ++ wire (last.sockets sock).log)) =
        some ((obj.nsqConfig.map Command.sendIdentify).toList ++ commands, tail) ∧
      commands.filterMap Command.request =
        acceptedRequests (done.map (fun call => (call.request, call.accepted)) ++ current) ∧
      (∀ command ∈ commands, command = .nsqNop ∨ ∃ request : Request, command = request.asCommand) ∧
      ∀ call ∈ done, call.accepted = false → call.result = -1 := by
  have tracks := Publishing.tracks_of_run (fun _ _ => trivial) run
  have serves := tracks.sockets sock
  obtain ⟨taken, sock_run⟩ := serves.run
  obtain ⟨done, current, sent, tail, account⟩ := account_of_run sock_run
  have lengths := congrArg List.length (account.results.symm.trans serves.results)
  rw [List.length_map, List.length_map] at lengths
  obtain ⟨first, current_eq⟩ := List.append_inj (account.calls.symm.trans serves.calls)
    (by rw [List.length_map, List.length_map, lengths])
  have second := account.results.symm.trans serves.results
  have done_eq : done.map (fun call => (call.request, call.result)) =
      finishedOn last.finished sock := by
    rw [List.zip_of_prod first.symm second.symm]
    exact List.zip_of_prod (by rw [List.map_map]; rfl) (by rw [List.map_map]; rfl)
  have named : ∀ request ∈ calledIn (last.sockets sock).log, request.asCommand.WellFormed := by
    intro request called
    obtain ⟨call, made, rfl⟩ : ∃ call ∈ last.calls, call.request = request := by
      rw [serves.calls] at called
      rcases List.mem_append.mp called with returned | waits
      · obtain ⟨pair, member, rfl⟩ := List.mem_map.mp returned
        obtain ⟨call, inside, rfl⟩ := List.mem_map.mp member
        exact ⟨call.call, List.mem_append_left _
          (List.mem_map_of_mem (List.mem_filter.mp inside).1), rfl⟩
      · obtain ⟨call, inside, rfl⟩ := List.mem_map.mp waits
        exact ⟨call.call, List.mem_append_right _
          (List.mem_map_of_mem (List.mem_filter.mp inside).1), rfl⟩
    exact names call made
  refine ⟨done, current, sent.map Prod.fst, tail, done_eq, current_eq,
    account.nsqdReads named json identified, ?_, List.forall_mem_map.mpr account.kinds,
    account.failed⟩
  rw [List.filterMap_map]
  exact account.published

/-- nsqd reads `IDENTIFY` and the message. -/
theorem published_once_hello :
    ∃ last, Run (guarded (OnSocket WholeSend) (WorksOn fun _ _ _ => 0)) (.initial publisher)
        helloEvents last ∧
      ∃ (done : List ReturnedCall) (commands : List Command) (tail : Bytes),
        done.map (fun call => (call.request, call.result)) = [(hello, 5)] ∧
        nsqdReads (ascii "  V2" ++
          ((ascii "IDENTIFY\n" ++ [0, 0, 0, 2] ++ ascii "{}") ++ wire helloDone.log)) =
            some (.sendIdentify (ascii "{}") :: commands, tail) ∧
        ∀ call ∈ done, call.accepted = false → call.result = -1 := by
  have whole : WholeSend ((PubState.initial.record (.called hello)).goTo
      (.sending hello helloCommand)) (.sent 11) := by
    refine .inr ⟨rfl, ?_⟩
    intro bytes result member
    cases List.mem_singleton.mp member
  obtain ⟨last, run, finished, ongoing, five⟩ := run_helloEvents whole trivial trivial
  have names : ∀ call ∈ last.calls, call.request.asCommand.WellFormed := by
    rw [Publishing.calls, finished, ongoing]
    have name : hello.asCommand.WellFormed := by decide
    exact List.forall_mem_singleton.mpr name
  have json : ∀ text, publisher.nsqConfig = some text → (0 : UInt8) ∉ text := by
    rintro text ⟨⟩
    decide
  have identified : publisher.nsqConfig.mapM identifyCommand =
      some (some (ascii "IDENTIFY\n" ++ [0, 0, 0, 2] ++ ascii "{}")) := rfl
  obtain ⟨done, current, commands, tail, same, -, reads, -, -, failed⟩ :=
    published_once json identified run names 5
  rw [finished] at same
  rw [five] at reads
  exact ⟨last, run, done, commands, tail, same, reads, failed⟩

end PhpNsq
