import PhpNsq.Publisher.Heartbeats
import PhpNsq.Publisher.ReadSchedules

/-!
# Whose reply a call returns

nsqd answers commands in order, and puts heartbeats between the answers. A sequence of
calls on one socket gets its results from these frames: as long as every read is
plain, the socket stands at a frame boundary when a call returns (`Aligned`), and the
k-th result is what the k-th reply says.

`PlainStep` is the condition on one event: a prefix read gives `-1` or the whole prefix, a body read
gives some of the missing bytes, and no `publish` finds its connection lost at `send`.
-/

set_option autoImplicit false

namespace PhpNsq

open Foundations

/-- What a reader may be given. -/
def Reader.Plain : Reader → ReadAnswer → Prop
  | .againRead, .notYet => True
  | .againRead, .got data => data.length = 4
  | .again _ _ _, .notYet => False
  | .again l msgSize _, .got data => data ≠ [] ∧ l + data.length ≤ msgSize

/-- An event that keeps the socket in order. -/
def PlainStep (s : PubState) : PubEvent → Prop
  | .call _ => True
  | .sent result => ∀ request command, s.point = .sending request command →
      request.lostConnection result = false
  | .read answer => ∀ request reader, s.point = .reading request reader → reader.Plain answer

/-- The frames that are replies. -/
def replies (frames : List RawFrame) : List RawFrame :=
  frames.filter fun frame => frame.data ≠ ascii "_heartbeat_"

theorem replies_append (first second : List RawFrame) :
    replies (first ++ second) = replies first ++ replies second := List.filter_append ..

theorem replies_heartbeat {frame : RawFrame} (beat : frame.data = ascii "_heartbeat_") :
    replies [frame] = [] := by
  simp [replies, beat]

theorem replies_reply {frame : RawFrame} (other : frame.data ≠ ascii "_heartbeat_") :
    replies [frame] = [frame] := by
  simp [replies, other]

/-- What a process has taken of the frames that are left, at its point. -/
inductive InFrame (after : List RawFrame) : PubPoint → Bytes → Prop where
  | idle : InFrame after .idle []
  | sending (request : Request) (command : Bytes) : InFrame after (.sending request command) []
  | waiting (request : Request) : InFrame after (.reading request .againRead) []
  | answering (request : Request) : InFrame after (.answering request) []
  | body {request : Request} {frame : RawFrame} {more : List RawFrame} {l : ℕ}
      {message : Cells UInt8} (next : after = frame :: more) (below : l < frame.size)
      (stored : message.slice 0 l = frame.payload.take l) (zero : message frame.size = 0) :
      InFrame after (.reading request (.again l frame.size message))
        (bigEndian 4 frame.size ++ frame.payload.take l)

/-- A process that has taken these frames from its socket, and part of the next one. -/
structure Aligned (sock : ℤ) (before after : List RawFrame) (s : PubState) : Prop where
  buffers : s.buffers = before.length
  place : ∃ part, InFrame after s.point part ∧
    consumed s.log = before.flatMap RawFrame.encode ++ part
  results : results s.log = (replies before).map fun frame => answer sock frame.data

namespace Aligned

variable {sock : ℤ} {fresh : ℕ → Cells UInt8} {before after : List RawFrame} {s s' : PubState}
  {undelivered : Bytes}

theorem initial (sock : ℤ) (frames : List RawFrame) : Aligned sock [] frames .initial where
  buffers := rfl
  place := ⟨[], .idle, rfl⟩
  results := rfl

/-- Between two frames: an entry that takes nothing from the socket and returns nothing. -/
theorem quiet (aligned : Aligned sock before after s)
    (boundary : consumed s.log = before.flatMap RawFrame.encode) {point : PubPoint}
    (stays : InFrame after point []) {entry : PubEffect} (reads : consumed [entry] = [])
    (returns : PhpNsq.results [entry] = []) :
    Aligned sock before after ((s.record entry).goTo point) where
  buffers := aligned.buffers
  place := ⟨[], stays, by
    change consumed (s.log ++ [entry]) = _
    rw [consumed_append, boundary, reads]⟩
  results := by
    change PhpNsq.results (s.log ++ [entry]) = _
    rw [results_append, aligned.results, returns, List.append_nil]

theorem of_call (aligned : Aligned sock before after s) {request : Request}
    (here : Publishes sock fresh s (.call request) s') : Aligned sock before after s' := by
  obtain ⟨point, command, -, rfl⟩ := here.of_call
  obtain ⟨part, place, taken⟩ := aligned.place
  rw [point] at place
  cases place
  exact aligned.quiet (taken.trans (List.append_nil _)) (.sending request command) rfl rfl

theorem of_sent (aligned : Aligned sock before after s) {result : ℤ}
    (plain : PlainStep s (.sent result)) (here : Publishes sock fresh s (.sent result) s') :
    Aligned sock before after s' := by
  obtain ⟨part, place, taken⟩ := aligned.place
  rcases here.of_sent with ⟨request, command, point, -, -, rfl⟩ | ⟨request, point, -, -, rfl⟩
  · rw [point] at place
    cases place
    rw [if_neg (by rw [plain request command point]; exact Bool.false_ne_true)]
    exact aligned.quiet (taken.trans (List.append_nil _)) (.waiting request) rfl rfl
  · rw [point] at place
    cases place
    exact aligned.quiet (taken.trans (List.append_nil _)) (.waiting request) rfl rfl

/-- The prefix read. -/
theorem of_prefix (aligned : Aligned sock before after s) {request : Request}
    (point : s.point = .reading request .againRead)
    (boundary : consumed s.log = before.flatMap RawFrame.encode)
    (terminated : Terminated fresh 0 (before ++ after)) {answer : ReadAnswer}
    (plain : Reader.againRead.Plain answer)
    (delivers : answer.data ++ undelivered = after.flatMap RawFrame.encode)
    (here : Publishes sock fresh s (.read answer) s') : Aligned sock before after s' := by
  cases answer with
  | notYet =>
      have waits : Publishes sock fresh s (.read .notYet)
          ((s.record (.read 4 .notYet)).goTo (.reading request .againRead)) :=
        Publishes.read_again point (by decide) rfl
      rw [here.unique waits]
      exact aligned.quiet boundary (.waiting request) rfl rfl
  | got data =>
      have four : data.length = 4 := plain
      cases after with
      | nil =>
          have nothing : data ++ undelivered = [] := delivers
          rw [(List.append_eq_nil_iff.mp nothing).1] at four
          cases four
      | cons frame more =>
          rw [List.flatMap_cons] at delivers
          obtain ⟨rfl, -⟩ : data = bigEndian 4 frame.size ∧ _ :=
            prefix_of_delivers four delivers
          have opened : Publishes sock fresh s (.read (.got (bigEndian 4 frame.size))) _ :=
            Publishes.read_again point (by simp [ReadAnswer.data, Reader.requested])
              (Reader.step_prefix frame)
          have zero : fresh s.buffers frame.size = 0 := by
            have here := (terminated_append.mp terminated).2.1
            rwa [Nat.zero_add, ← aligned.buffers] at here
          have size_pos := frame.four_le_size
          rw [here.unique opened]
          exact {
            buffers := aligned.buffers
            place := ⟨_, .body (l := 0) rfl (by omega) rfl
              ((Cells.store_of_le _ (by simp)).trans zero), by
                change consumed (s.log ++ [.read 4 (.got _)]) = _
                rw [consumed_append, boundary]
                exact congrArg (_ ++ ·) (List.append_nil _)⟩
            results := by
              change PhpNsq.results (s.log ++ [.read 4 (.got _)]) = _
              rw [results_append, aligned.results]
              exact List.append_nil _ }

/-- What comes behind the part of a frame that was taken. -/
theorem rest_of_delivers {frame : RawFrame} {more : List RawFrame} {l : ℕ} {data : Bytes}
    (taken : consumed s.log = before.flatMap RawFrame.encode ++
      (bigEndian 4 frame.size ++ frame.payload.take l))
    (delivers : consumed s.log ++ data ++ undelivered =
      (before ++ frame :: more).flatMap RawFrame.encode) :
    data ++ undelivered = frame.payload.drop l ++ more.flatMap RawFrame.encode := by
  have split : frame.payload ++ more.flatMap RawFrame.encode =
      frame.payload.take l ++ (frame.payload.drop l ++ more.flatMap RawFrame.encode) := by
    rw [← List.append_assoc, List.take_append_drop]
  rw [taken, List.flatMap_append, List.flatMap_cons, RawFrame.encode] at delivers
  simp only [List.append_assoc, List.append_cancel_left_eq] at delivers
  rw [split] at delivers
  exact List.append_cancel_left delivers

/-- A whole body is decided, and its frame is behind the process. -/
theorem decided (aligned : Aligned sock before after s) {request : Request} {frame : RawFrame}
    (more : List RawFrame) {message : Cells UInt8} {requested : ℤ} {answer : ReadAnswer}
    (holds : message.slice 0 frame.size = frame.payload) (zero : message frame.size = 0)
    (free : (0 : UInt8) ∉ frame.data)
    (behind : consumed (s.log ++ [.read requested answer]) =
      (before ++ [frame]).flatMap RawFrame.encode) :
    Aligned sock (before ++ [frame]) more
      ({ s.record (.read requested answer) with buffers := s.buffers + 1 }.decide sock request
        message) := by
  have found := verdict_eq holds zero free
  have buffers : s.buffers + 1 = (before ++ [frame]).length := by
    rw [List.length_append, aligned.buffers]
    rfl
  by_cases beat : frame.data = ascii "_heartbeat_"
  · rw [PubState.decide_heartbeat found beat]
    exact {
      buffers := buffers
      place := ⟨[], .answering request, behind.trans (List.append_nil _).symm⟩
      results := by
        rw [replies_append, replies_heartbeat beat, List.append_nil, ← aligned.results]
        exact (results_append s.log _).trans (List.append_nil _) }
  · rw [PubState.decide_reply found beat]
    exact {
      buffers := buffers
      place := ⟨[], .idle, by
        rw [List.append_nil, ← behind]
        exact (consumed_append _ _).trans (List.append_nil _)⟩
      results := by
        rw [replies_append, replies_reply beat, List.map_append, ← aligned.results]
        change PhpNsq.results (s.log ++ [_] ++ [_]) = _
        rw [results_append, results_append]
        exact congrArg (· ++ _) (List.append_nil _) }

/-- A body read. -/
theorem of_body (aligned : Aligned sock before after s) {request : Request} {frame : RawFrame}
    {more : List RawFrame} {l : ℕ} {message : Cells UInt8}
    (point : s.point = .reading request (.again l frame.size message))
    (next : after = frame :: more) (below : l < frame.size)
    (stored : message.slice 0 l = frame.payload.take l) (zero : message frame.size = 0)
    (taken : consumed s.log = before.flatMap RawFrame.encode ++
      (bigEndian 4 frame.size ++ frame.payload.take l))
    (free : (0 : UInt8) ∉ frame.data) {answer : ReadAnswer}
    (plain : Reader.Plain (.again l frame.size message) answer)
    (delivers : consumed s.log ++ answer.data ++ undelivered =
      (before ++ after).flatMap RawFrame.encode)
    (here : Publishes sock fresh s (.read answer) s') :
    ∃ before' after', before' ++ after' = before ++ after ∧ Aligned sock before' after' s' := by
  subst next
  cases answer with
  | notYet => exact plain.elim
  | got data =>
      obtain ⟨some_data, fits⟩ := plain
      have stream : data ++ undelivered = _ := rest_of_delivers taken delivers
      obtain ⟨piece, -⟩ := front_of_append stream (by
        rw [List.length_drop, frame.length_payload]
        omega)
      have stored' : (message.store l data).slice 0 (l + data.length) =
          frame.payload.take (l + data.length) := store_piece below stored piece
      have zero' : message.store l data frame.size = 0 :=
        (Cells.store_of_le _ (by omega)).trans zero
      have bound : ((ReadAnswer.got data).data.length : ℤ) ≤ frame.size := by
        change (data.length : ℤ) ≤ frame.size
        omega
      have taken' : consumed (s.log ++ [.read frame.size (.got data)]) =
          before.flatMap RawFrame.encode ++
            (bigEndian 4 frame.size ++ frame.payload.take (l + data.length)) := by
        rw [consumed_append, taken, List.take_add, ← piece]
        simp [consumed, ReadAnswer.data]
      by_cases complete : l + data.length = frame.size
      · have collected : Publishes sock fresh s (.read (.got data)) _ :=
          Publishes.read_collected point bound
            (Reader.step_last request.reader_readsOn complete)
        rw [here.unique collected]
        have whole : frame.payload.take frame.size = frame.payload :=
          List.take_of_length_le frame.length_payload.le
        rw [complete, whole] at stored' taken'
        have behind : consumed (s.log ++ [.read frame.size (.got data)]) =
            (before ++ [frame]).flatMap RawFrame.encode := by
          rw [taken', List.flatMap_append, List.flatMap_singleton, RawFrame.encode]
        exact ⟨before ++ [frame], more, (List.append_cons ..).symm,
          aligned.decided more stored' zero' free behind⟩
      · have goes : Publishes sock fresh s (.read (.got data)) _ :=
          Publishes.read_again point bound
            (Reader.step_piece request.reader_readsOn some_data (by omega))
        rw [here.unique goes]
        exact ⟨before, frame :: more, rfl, {
          buffers := aligned.buffers
          place := ⟨_, .body rfl (by omega) stored' zero', taken'⟩
          results := by
            rw [← aligned.results]
            exact (results_append s.log _).trans (List.append_nil _) }⟩

/-- **One event keeps a process in order.** -/
theorem step (aligned : Aligned sock before after s)
    (free : ∀ frame ∈ before ++ after, (0 : UInt8) ∉ frame.data)
    (terminated : Terminated fresh 0 (before ++ after)) {event : PubEvent}
    (plain : PlainStep s event) (here : Publishes sock fresh s event s')
    (delivers : consumed s.log ++ (readAnswers [event]).flatMap ReadAnswer.data ++ undelivered =
      (before ++ after).flatMap RawFrame.encode) :
    ∃ before' after', before' ++ after' = before ++ after ∧ Aligned sock before' after' s' := by
  cases event with
  | call request => exact ⟨before, after, rfl, aligned.of_call here⟩
  | sent result => exact ⟨before, after, rfl, aligned.of_sent plain here⟩
  | read answer =>
      obtain ⟨request, reader, point, -⟩ := here.of_read
      obtain ⟨part, place, taken⟩ := aligned.place
      have plain := plain request reader point
      have delivers : consumed s.log ++ answer.data ++ undelivered =
          (before ++ after).flatMap RawFrame.encode := by
        simpa [readAnswers] using delivers
      rw [point] at place
      cases place with
      | waiting =>
          rw [List.append_nil] at taken
          rw [taken, List.flatMap_append, List.append_assoc] at delivers
          exact ⟨before, after, rfl, aligned.of_prefix point taken terminated plain
            (List.append_cancel_left delivers) here⟩
      | @body _ frame more l message next below stored zero =>
          have member : frame ∈ before ++ after := by
            rw [next]
            exact List.mem_append_right _ (List.mem_cons_self ..)
          exact aligned.of_body point next below stored zero taken (free frame member) plain
            delivers here

end Aligned

section Runs

variable {sock : ℤ} {fresh : ℕ → Cells UInt8} {frames : List RawFrame} {events : List PubEvent}
  {undelivered : Bytes} {last : PubState}

/-- **A socket that is read plainly stays in order**, over any number of calls. -/
theorem aligned_of_run (free : ∀ frame ∈ frames, (0 : UInt8) ∉ frame.data)
    (terminated : Terminated fresh 0 frames)
    (run : Run (guarded PlainStep (Publishes sock fresh)) .initial events last)
    (delivers : (readAnswers events).flatMap ReadAnswer.data ++ undelivered =
      frames.flatMap RawFrame.encode) :
    ∃ before after, before ++ after = frames ∧ Aligned sock before after last := by
  have kept := run.invariant_within
    (fun taken s => consumed s.log = (readAnswers taken).flatMap ReadAnswer.data ∧
      ∃ before after, before ++ after = frames ∧ Aligned sock before after s) ?_
    ⟨rfl, [], frames, rfl, .initial sock frames⟩
  · exact kept.2
  · rintro taken event rest s s' split ⟨so_far, before, after, rfl, aligned⟩ ⟨plain, here⟩
    have now := here.consumed_eq
    have stream : consumed s.log ++ (readAnswers [event]).flatMap ReadAnswer.data ++
        ((readAnswers rest).flatMap ReadAnswer.data ++ undelivered) =
          (before ++ after).flatMap RawFrame.encode := by
      rw [← delivers, split, List.append_cons]
      simp only [readAnswers_append, List.flatMap_append, List.append_assoc, so_far]
    refine ⟨?_, aligned.step free terminated plain here stream⟩
    rw [now, so_far, readAnswers_append, List.flatMap_append]

/-- Every call of a run but an open one has returned. -/
theorem calls_eq_results (run : Run (Publishes sock fresh) .initial events last) :
    (calls events).length = (results last.log).length + last.point.pending := by
  refine run.invariant (fun taken s =>
    (calls taken).length = (results s.log).length + s.point.pending) ?_ rfl
  intro taken s event next here one
  rw [calls_append, List.length_append, one.pending_eq, here]

end Runs

theorem kth_result {sock : ℤ} {before after : List RawFrame} {s : PubState}
    (aligned : Aligned sock before after s) (open_sock : 0 < sock) {k : ℕ} {result : ℤ}
    (kth : (results s.log)[k]? = some result) :
    ∃ frame, (replies (before ++ after))[k]? = some frame ∧
      (0 < result ↔ frame.data = ascii "OK") := by
  rw [aligned.results, List.getElem?_map, Option.map_eq_some_iff] at kth
  obtain ⟨frame, here, rfl⟩ := kth
  have bound : k < (replies before).length := (List.getElem?_eq_some_iff.mp here).1
  refine ⟨frame, ?_, ?_⟩
  · rw [replies_append, List.getElem?_append_left bound, here]
  · rw [answer]
    split
    · next ok => exact iff_of_true open_sock ok
    · next other => exact iff_of_false (by decide) other

/-- **Reply readers.** Each of the three copies reads a frame exactly under plain schedules and no
others; and as long as a socket is read plainly, the k-th call on it succeeds if and only if the
k-th reply says `OK`. -/
theorem replies_in_order (sock : ℤ) (fresh : ℕ → Cells UInt8) :
    (∀ code ∈ [publishReader, deferredPublishReader, sendIdentifyReader],
      ∀ (contents : Cells UInt8) (frame : RawFrame) (rest undelivered : Bytes)
        (answers : List ReadAnswer),
        answers.flatMap ReadAnswer.data ++ undelivered = frame.encode ++ rest →
          (ReadsFrame code contents frame answers ↔ PlainSchedule frame.size answers)) ∧
    ∀ (frames : List RawFrame) (events : List PubEvent) (undelivered : Bytes) (last : PubState),
      0 < sock →
      (∀ frame ∈ frames, (0 : UInt8) ∉ frame.data) → Terminated fresh 0 frames →
      Run (guarded PlainStep (Publishes sock fresh)) .initial events last →
      (readAnswers events).flatMap ReadAnswer.data ++ undelivered =
        frames.flatMap RawFrame.encode →
      (calls events).length = (results last.log).length + last.point.pending ∧
        ∀ (k : ℕ) (result : ℤ), (results last.log)[k]? = some result →
          ∃ frame, (replies frames)[k]? = some frame ∧
            (0 < result ↔ frame.data = ascii "OK") := by
  constructor
  · intro code copy contents frame rest undelivered answers delivers
    have reads : code.ReadsOn := by
      simp only [List.mem_cons, List.not_mem_nil, or_false] at copy
      rcases copy with rfl | rfl | rfl
      · exact publishReader_readsOn
      · exact deferredPublishReader_readsOn
      · exact sendIdentifyReader_readsOn
    exact readsFrame_iff reads delivers
  · intro frames events undelivered last open_sock free terminated run delivers
    obtain ⟨before, after, rfl, aligned⟩ := aligned_of_run free terminated run delivers
    exact ⟨calls_eq_results run.unguarded, fun k result kth => kth_result aligned open_sock kth⟩

/-- The reply of a successful call. -/
def okFrame : RawFrame := ⟨0, ascii "OK", ok_fits⟩

/-- The prefix is there, and the body is not yet. -/
def bodyLater : List ReadAnswer :=
  [.got (bigEndian 4 okFrame.size), .notYet, .got okFrame.payload]

theorem cleared_zero (msgSize : ℤ) : Reader.cleared (fun _ => 0) msgSize = fun _ => 0 := by
  funext index
  rw [Reader.cleared, Cells.store, if_pos (Nat.zero_le _), List.getElem?_replicate]
  split
  · rfl
  · rfl

/-- A short call, and the process that waits for its reply. -/
def hello : Request := .publish (ascii "t") (ascii "m")

def helloSent : PubState where
  point := .reading hello .againRead
  buffers := 0
  exception := false
  log := [.called hello, .send (ascii "PUB t\n" ++ [0, 0, 0, 1] ++ ascii "m") 11]

/-- The process that has read the prefix of `okFrame`. -/
def helloOpened : PubState :=
  (helloSent.record (.read 4 (.got (bigEndian 4 okFrame.size)))).goTo
    (.reading hello (.again (0 : ℕ) okFrame.size (fun _ => 0)))

theorem helloSent_opened :
    Publishes 5 (fun _ _ => 0) helloSent (.read (.got (bigEndian 4 okFrame.size))) helloOpened := by
  have opened : Publishes 5 (fun _ _ => 0) helloSent (.read (.got (bigEndian 4 okFrame.size))) _ :=
    Publishes.read_again rfl (by decide) (Reader.step_prefix okFrame)
  rwa [cleared_zero] at opened

/-- **A body that is late is lost**: no copy reads the frame, and `publish` reports a failure while
its `OK` is on the way. -/
theorem not_readsFrame_bodyLater :
    (bodyLater.flatMap ReadAnswer.data = okFrame.encode ∧
      ∀ code ∈ [publishReader, deferredPublishReader, sendIdentifyReader],
        ∀ contents, ¬ ReadsFrame code contents okFrame bodyLater) ∧
    ∃ last, Run (Publishes 5 (fun _ _ => 0)) .initial
        [.call hello, .sent 11, .read (.got (bigEndian 4 okFrame.size)), .read .notYet] last ∧
      results last.log = [-1] := by
  refine ⟨⟨by decide, ?_⟩, ?_⟩
  · intro code copy contents reads
    have delivers : bodyLater.flatMap ReadAnswer.data ++ [] = okFrame.encode ++ [] := by decide
    exact (plainSchedule_of_readsFrame reads delivers).2
  · have leaves : Publishes 5 (fun _ _ => 0) helloOpened (.read .notYet) _ :=
      Publishes.read_collected rfl (by decide) rfl
    exact ⟨_, ⟨_, rfl, helloSent, rfl, _, helloSent_opened, _, leaves, rfl⟩, rfl⟩

/-- A `-1` in front, and the body in two pieces. -/
theorem replies_in_order_publish :
    ReadsFrame publishReader (fun _ => 7) okFrame
        [.notYet, .got [0, 0, 0, 6], .got [0, 0, 0], .got [0, 79, 75]] ∧
      ∃ last, Run (Publishes 5 (fun _ _ => 0)) .initial
          [.call hello, .sent 11, .read (.got (bigEndian 4 okFrame.size)),
            .read (.got okFrame.payload)] last ∧
        results last.log = [5] ∧
        ∀ (k : ℕ) (result : ℤ), (results last.log)[k]? = some result →
          ∃ frame, [okFrame][k]? = some frame ∧ (0 < result ↔ frame.data = ascii "OK") := by
  constructor
  · exact ((replies_in_order 5 (fun _ _ => 0)).1 publishReader (List.mem_cons_self ..)
      (fun _ => 7) okFrame [] []
      [.notYet, .got [0, 0, 0, 6], .got [0, 0, 0], .got [0, 79, 75]] (by decide)).mpr
        ⟨rfl, by decide, by decide, by decide, by decide, trivial⟩
  · have complete : Reader.step hello.reader (fun _ => 0)
        (.again (0 : ℕ) okFrame.size fun _ => 0) (.got okFrame.payload) = _ :=
      Reader.step_last hello.reader_readsOn rfl
    have leaves : Publishes 5 (fun _ _ => 0) helloOpened (.read (.got okFrame.payload)) _ :=
      Publishes.read_collected rfl (by decide) complete
    have accepted : PlainStep ((PubState.initial.record (.called hello)).goTo
        (.sending hello (ascii "PUB t\n" ++ [0, 0, 0, 1] ++ ascii "m"))) (.sent 11) := by
      rintro request command ⟨⟩
      rfl
    have prefix_plain : PlainStep helloSent (.read (.got (bigEndian 4 okFrame.size))) := by
      rintro request reader ⟨⟩
      rfl
    have body_plain : PlainStep helloOpened (.read (.got okFrame.payload)) := by
      rintro request reader ⟨⟩
      exact ⟨by decide, by decide⟩
    have run : Run (guarded PlainStep (Publishes 5 (fun _ _ => 0))) .initial
        [.call hello, .sent 11, .read (.got (bigEndian 4 okFrame.size)),
          .read (.got okFrame.payload)] _ :=
      ⟨_, ⟨trivial, rfl⟩, helloSent, ⟨accepted, rfl⟩, _, ⟨prefix_plain, helloSent_opened⟩,
        _, ⟨body_plain, leaves⟩, rfl⟩
    refine ⟨_, run.unguarded, rfl, ?_⟩
    exact ((replies_in_order 5 (fun _ _ => 0)).2 [okFrame] _ [] _ (by decide) (by decide)
      ⟨rfl, trivial⟩ run (by decide)).2

end PhpNsq
