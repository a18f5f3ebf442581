import PhpNsq.Publisher.BodyReads
import PhpNsq.Publisher.ReplyMemory

/-!
# Losing the connection

The loss of the connection ends a call of `publish` or `deferredPublish` (`LossEnds`) when
it comes in front of a size prefix or directly behind what was read of one, and does not end
it when some of a body has come (`LostOutside`): a read of zero bytes leaves `l` as it is,
and the loop goes on. `send_identify` takes zero bytes of a prefix for a reason to read again.

`lost_connection` is about every schedule. Where frames come whole, the call ends exactly when
the stream is cut outside the body of a frame (`lossEnds_cut`).
-/

set_option autoImplicit false

namespace PhpNsq

open Foundations

namespace PubState

variable (sock : ℤ) (fresh : ℕ → Cells UInt8) (sent : ℕ → ℤ)

/-- A heartbeat is answered; `sent` tells what `send` gives. -/
def answerHeartbeat (s : PubState) : Option PubState :=
  match s.point with
  | .answering _ => s.step sock fresh (.sent (sent s.buffers))
  | _ => some s

/-- One call of `read` of a call, which leaves with what it returns. -/
def pass : PubState × List ReadAnswer → Next (PubState × List ReadAnswer) (Option ℤ)
  | (s, answers) =>
      let (answer, rest) := nextRead answers
      match (s.step sock fresh (.read answer)).bind (answerHeartbeat sock fresh sent) with
      | none => .leave none
      | some next =>
          match next.point with
          | .idle => .leave (results next.log).getLast?
          | _ => .again (next, rest)

end PubState

/-- **The loss ends the call**: it returns `-1` after finitely many reads. -/
def LossEnds (sock : ℤ) (fresh : ℕ → Cells UInt8) (sent : ℕ → ℤ) (s : PubState)
    (answers : List ReadAnswer) : Prop :=
  Exits (PubState.pass sock fresh sent) (s, answers) (some (-1))

/-- **Lost outside a body.** Heartbeats are taken off the schedule, and then it ends in front
of a prefix or directly behind what was read of one, or holds a frame that is refused. -/
inductive LostOutside (code : ReaderCode) (fresh : ℕ → Cells UInt8) :
    ℕ → List ReadAnswer → Prop where
  | beforePrefix {buffers : ℕ} : LostOutside code fresh buffers []
  | closed {buffers : ℕ} (rest : List ReadAnswer) :
      LostOutside code fresh buffers (.got [] :: rest)
  | notYet {buffers : ℕ} {answers : List ReadAnswer} (lost : LostOutside code fresh buffers answers) :
      LostOutside code fresh buffers (.notYet :: answers)
  | behindPrefix {buffers : ℕ} {data : Bytes} (opens : Opens data)
      (not_ok : verdict (Reader.cleared (fresh buffers) (Reader.sizeOf data)) ≠ .ok) :
      LostOutside code fresh buffers [.got data]
  | refused {buffers : ℕ} {data : Bytes} {body : List ReadAnswer} (rest : List ReadAnswer)
      (opens : Opens data) (taken : TakesBody code (Reader.sizeOf data) 0 body)
      (other : verdict (bodyOf (Reader.cleared (fresh buffers) (Reader.sizeOf data)) 0 body) =
        .other) :
      LostOutside code fresh buffers (.got data :: (body ++ rest))
  | heartbeat {buffers : ℕ} {data : Bytes} {body rest : List ReadAnswer} (opens : Opens data)
      (taken : TakesBody code (Reader.sizeOf data) 0 body)
      (beat : verdict (bodyOf (Reader.cleared (fresh buffers) (Reader.sizeOf data)) 0 body) =
        .heartbeat)
      (lost : LostOutside code fresh (buffers + 1) rest) :
      LostOutside code fresh buffers (.got data :: (body ++ rest))

/-! ## publish and deferredPublish -/

section Calls

variable (sock : ℤ) (fresh : ℕ → Cells UInt8) (sent : ℕ → ℤ) {s : PubState} {request : Request}
  {reader next : Reader} (answers : List ReadAnswer) {l msgSize : ℤ} {message : Cells UInt8}

/-- The pass of a call goes on. -/
theorem PubState.pass_of_step {s' s'' : PubState}
    (read : Publishes sock fresh s (.read (nextRead answers).1) s')
    (answered : s'.answerHeartbeat sock fresh sent = some s'')
    (busy : s''.point ≠ .idle) :
    PubState.pass sock fresh sent (s, answers) = .again (s'', (nextRead answers).2) := by
  have stepped : (s.step sock fresh (.read (nextRead answers).1)).bind
      (answerHeartbeat sock fresh sent) = some s'' := by
    rw [read, Option.bind_some, answered]
  simp only [PubState.pass, stepped]

/-- The pass of a call leaves. -/
theorem PubState.pass_of_idle {s' : PubState}
    (read : Publishes sock fresh s (.read (nextRead answers).1) s') (idle : s'.point = .idle) :
    PubState.pass sock fresh sent (s, answers) = .leave (results s'.log).getLast? := by
  have stepped : (s.step sock fresh (.read (nextRead answers).1)).bind
      (answerHeartbeat sock fresh sent) = some s' := by
    rw [read, Option.bind_some, answerHeartbeat, idle]
  simp only [PubState.pass, stepped, idle]

/-- A read that a reader goes on from. -/
theorem PubState.pass_again (point : s.point = .reading request reader)
    (possible : (nextRead answers).1.data.length ≤ reader.requested)
    (again : reader.step request.reader (fresh s.buffers) (nextRead answers).1 = .again next) :
    ∃ s' : PubState, s'.point = .reading request next ∧ s'.buffers = s.buffers ∧
      PubState.pass sock fresh sent (s, answers) = .again (s', (nextRead answers).2) := by
  have read : Publishes sock fresh s (.read (nextRead answers).1) _ :=
    Publishes.read_again point possible again
  exact ⟨(s.record (.read reader.requested (nextRead answers).1)).goTo (.reading request next), rfl,
    rfl, PubState.pass_of_step sock fresh sent answers read rfl PubPoint.noConfusion⟩

/-- A read that completes a body. -/
theorem lossEnds_collected (open_sock : 0 < sock)
    (bounds : ∀ count, -1 ≤ sent count ∧ sent count ≤ heartbeatAnswer.length)
    (point : s.point = .reading request reader)
    (possible : (nextRead answers).1.data.length ≤ reader.requested)
    (leaves : reader.step request.reader (fresh s.buffers) (nextRead answers).1 =
      .leave (.collected l msgSize message)) :
    ∃ s' : PubState, s'.point = .reading request .againRead ∧ s'.buffers = s.buffers + 1 ∧
      (LossEnds sock fresh sent s answers ↔
        verdict message = .other ∨
          verdict message = .heartbeat ∧ LossEnds sock fresh sent s' (nextRead answers).2) := by
  have read : Publishes sock fresh s (.read (nextRead answers).1) _ :=
    Publishes.read_collected point possible leaves
  let collected : PubState :=
    { s.record (.read reader.requested (nextRead answers).1) with buffers := s.buffers + 1 }
  let answered : PubState := (collected.record (.send heartbeatAnswer (sent (s.buffers + 1)))).goTo
    (.reading request .againRead)
  refine ⟨answered, rfl, rfl, ?_⟩
  rw [PubState.decide] at read
  cases found : verdict message with
  | ok =>
      rw [found] at read
      have leaves := PubState.pass_of_idle sock fresh sent answers read rfl
      rw [LossEnds, exits_of_leave leaves]
      have returned : (results (collected.log ++ [.returned sock])).getLast? = some sock := by
        simp [results]
      change some (-1) = (results (collected.log ++ [.returned sock])).getLast? ↔ _
      rw [returned]
      refine iff_of_false ?_ ?_
      · rw [Option.some_inj]
        omega
      · rintro (other | ⟨beat, -⟩)
        · cases other
        · cases beat
  | heartbeat =>
      rw [found] at read
      have sends : PubState.answerHeartbeat sock fresh sent (collected.goTo (.answering request)) =
          some answered := if_pos (bounds (s.buffers + 1))
      rw [LossEnds, exits_of_again
        (PubState.pass_of_step sock fresh sent answers read sends PubPoint.noConfusion)]
      constructor
      · exact fun ends => .inr ⟨rfl, ends⟩
      · rintro (other | ⟨-, ends⟩)
        · cases other
        · exact ends
  | other =>
      rw [found] at read
      have leaves := PubState.pass_of_idle sock fresh sent answers read rfl
      rw [LossEnds, exits_of_leave leaves]
      have returned : (results (collected.log ++ [.returned (-1)])).getLast? = some (-1) := by
        simp [results]
      exact iff_of_true returned.symm (.inl rfl)

/-- A read that is impossible or a fault. -/
theorem not_lossEnds (point : s.point = .reading request reader)
    (wrong : (nextRead answers).1.data.length ≤ reader.requested →
      ∃ fault, reader.step request.reader (fresh s.buffers) (nextRead answers).1 =
        .leave (.fault fault)) : ¬ LossEnds sock fresh sent s answers := by
  have refused : s.step sock fresh (.read (nextRead answers).1) = none := by
    simp only [PubState.step, point]
    split
    · next possible =>
        obtain ⟨fault, leaves⟩ := wrong possible
        rw [leaves, PubState.received]
    · rfl
  have leaves : PubState.pass sock fresh sent (s, answers) = .leave none := by
    simp only [PubState.pass, refused, Option.bind_none]
  rw [LossEnds, exits_of_leave leaves]
  exact Option.some_ne_none _

/-- A prefix read of zero bytes is a lost connection. -/
theorem lossEnds_closed (point : s.point = .reading request .againRead)
    (closed : (nextRead answers).1 = .got []) : LossEnds sock fresh sent s answers := by
  have leaves : Reader.againRead.step request.reader (fresh s.buffers) (.got []) =
      .leave .closed := by
    cases request with
    | publish topic msg => rfl
    | deferredPublish topic msg deferTime => rfl
  have read : Publishes sock fresh s (.read (nextRead answers).1)
      (s.record (.read 4 (.got []))).throw := by
    rw [Publishes, PubState.step, point, closed]
    simp only [leaves]
    rfl
  have left := PubState.pass_of_idle sock fresh sent answers read rfl
  rw [LossEnds, exits_of_leave left]
  change some (-1) = (results (s.log ++ [_] ++ [.returned (-1)])).getLast?
  simp [results]

/-- A body read that the loop goes on from. -/
theorem PubState.pass_body (point : s.point = .reading request (.again l msgSize message))
    (nonneg : 0 ≤ msgSize) (fits : (nextRead answers).1.Fits l msgSize)
    (more : request.reader.goesOn (l + (nextRead answers).1.count) msgSize = true) :
    ∃ s' : PubState, s'.point = .reading request (.again (l + (nextRead answers).1.count) msgSize
        ((nextRead answers).1.storeIn message l)) ∧ s'.buffers = s.buffers ∧
      PubState.pass sock fresh sent (s, answers) = .again (s', (nextRead answers).2) :=
  PubState.pass_again sock fresh sent answers point (fits.length_le nonneg)
    (by rw [Reader.step_fits fits, Reader.afterBody, if_pos more])

/-- A begun body is waited for without an end. -/
theorem not_lossEnds_body (point : s.point = .reading request (.again l msgSize message))
    (nonneg : 0 ≤ msgSize) (more : request.reader.goesOn l msgSize = true) :
    ¬ LossEnds sock fresh sent s [] := by
  refine not_exits_of_invariant (fun state => state.2 = [] ∧
    state.1.point = .reading request (.again l msgSize message)) ?_ ⟨rfl, point⟩ _
  rintro ⟨state, -⟩ ⟨rfl, here⟩
  obtain ⟨s', point', -, pass⟩ := PubState.pass_body sock fresh sent [] here nonneg
    (ReadAnswer.fits_end nonneg) (by rw [nextRead, ReadAnswer.add_count_end, more])
  rw [nextRead, ReadAnswer.add_count_end, ReadAnswer.storeIn_end] at point'
  exact ⟨_, pass, rfl, point'⟩

/-- A body read that ends the loop. -/
theorem lossEnds_complete {ends : List ReadAnswer → Prop} (open_sock : 0 < sock)
    (bounds : ∀ count, -1 ≤ sent count ∧ sent count ≤ heartbeatAnswer.length)
    (nonneg : 0 ≤ msgSize) (point : s.point = .reading request (.again l msgSize message))
    (fits : (nextRead answers).1.Fits l msgSize)
    (complete : request.reader.goesOn (l + (nextRead answers).1.count) msgSize = false)
    (follow : ∀ s' : PubState, s'.point = .reading request .againRead →
      s'.buffers = s.buffers + 1 →
        (LossEnds sock fresh sent s' (nextRead answers).2 ↔ ends (nextRead answers).2)) :
    LossEnds sock fresh sent s answers ↔
      verdict ((nextRead answers).1.storeIn message l) = .other ∨
        verdict ((nextRead answers).1.storeIn message l) = .heartbeat ∧
          ends (nextRead answers).2 := by
  have leaves : Reader.step request.reader (fresh s.buffers) (.again l msgSize message)
      (nextRead answers).1 = .leave (.collected (l + (nextRead answers).1.count) msgSize
        ((nextRead answers).1.storeIn message l)) := by
    rw [Reader.step_fits fits, Reader.afterBody, complete]
    rfl
  obtain ⟨s', waiting, buffers, iff⟩ :=
    lossEnds_collected sock fresh sent answers open_sock bounds point (fits.length_le nonneg) leaves
  rw [iff, follow s' waiting buffers]

/-- **The body of a frame**: the call ends when it is collected and refused, or is a heartbeat
and the call ends behind it. -/
theorem lossEnds_body {ends : List ReadAnswer → Prop} {buffers : ℕ} (open_sock : 0 < sock)
    (bounds : ∀ count, -1 ≤ sent count ∧ sent count ≤ heartbeatAnswer.length)
    (nonneg : 0 ≤ msgSize) (point : s.point = .reading request (.again l msgSize message))
    (same : s.buffers = buffers)
    (follow : ∀ (s' : PubState) (rest : List ReadAnswer), rest.length ≤ answers.length →
      s'.point = .reading request .againRead → s'.buffers = buffers + 1 →
        (LossEnds sock fresh sent s' rest ↔ ends rest)) :
    LossEnds sock fresh sent s answers ↔ ∃ message' rest,
      Reader.Collects request.reader (fresh buffers) (.again l msgSize message) answers message'
        rest ∧ (verdict message' = .other ∨ verdict message' = .heartbeat ∧ ends rest) := by
  induction answers generalizing s l message with
  | nil =>
      simp only [Reader.collects_nil nonneg]
      cases more : request.reader.goesOn l msgSize with
      | true =>
          refine iff_of_false (not_lossEnds_body sock fresh sent point nonneg more) ?_
          rintro ⟨message', rest, ⟨ends, -⟩, -⟩
          cases ends
      | false =>
          have complete := lossEnds_complete sock fresh sent [] open_sock bounds nonneg point
            (ReadAnswer.fits_end nonneg) (by rw [nextRead, ReadAnswer.add_count_end, more])
            (by rw [same]; exact fun s' => follow s' [] le_rfl)
          rw [complete]
          simp [nextRead, ReadAnswer.storeIn_end]
  | cons answer answers ih =>
      simp only [Reader.collects_cons nonneg]
      by_cases fits : answer.Fits l msgSize
      · cases more : request.reader.goesOn (l + answer.count) msgSize with
        | true =>
            obtain ⟨s', point', buffers', pass⟩ :=
              PubState.pass_body sock fresh sent (answer :: answers) point nonneg fits more
            have behind := ih point' (buffers'.trans same)
              fun s' rest bound => follow s' rest (Nat.le_succ_of_le bound)
            simp only [fits, true_and, if_true]
            exact (exits_of_again pass).trans behind
        | false =>
            have complete := lossEnds_complete sock fresh sent (answer :: answers) open_sock bounds
              nonneg point fits more (by rw [same]; exact fun s' => follow s' answers (Nat.le_succ _))
            rw [complete]
            simp [nextRead, fits]
      · refine iff_of_false (not_lossEnds sock fresh sent _ point fun possible => ?_) ?_
        · exact ⟨.heapOverflow, Reader.step_not_fits possible fits⟩
        · rintro ⟨message', rest, ⟨inside, -⟩, -⟩
          exact fits inside

/-- Nothing of a body is no reason to read on. -/
theorem Request.reader_goesOn_zero (request : Request) (msgSize : ℤ) :
    request.reader.goesOn 0 msgSize = false := by
  cases request with
  | publish topic msg => simp [Request.reader, publishReader]
  | deferredPublish topic msg deferTime => simp [Request.reader, deferredPublishReader]

/-- The first bytes of a prefix, and the body behind them. -/
theorem lossEnds_data {ends : List ReadAnswer → Prop} (open_sock : 0 < sock)
    (bounds : ∀ count, -1 ≤ sent count ∧ sent count ≤ heartbeatAnswer.length) {data : Bytes}
    (some_data : data ≠ []) (waiting : s.point = .reading request .againRead)
    (follow : ∀ (s' : PubState) (rest : List ReadAnswer), rest.length ≤ answers.length →
      s'.point = .reading request .againRead → s'.buffers = s.buffers + 1 →
        (LossEnds sock fresh sent s' rest ↔ ends rest)) :
    LossEnds sock fresh sent s (.got data :: answers) ↔ Opens data ∧ ∃ message' rest,
      Reader.Collects request.reader (fresh s.buffers) (.again 0 (Reader.sizeOf data)
        (Reader.cleared (fresh s.buffers) (Reader.sizeOf data))) answers message' rest ∧
      (verdict message' = .other ∨ verdict message' = .heartbeat ∧ ends rest) := by
  by_cases opens : Opens data
  · have possible : ((ReadAnswer.got data).data.length : ℤ) ≤ Reader.againRead.requested :=
      Nat.cast_le.mpr opens.2.1
    obtain ⟨s', point, buffers, pass⟩ :=
      PubState.pass_again sock fresh sent (.got data :: answers) waiting possible opens.step
    rw [and_iff_right opens, LossEnds, exits_of_again pass]
    exact lossEnds_body sock fresh sent answers open_sock bounds opens.2.2.1 point buffers follow
  · refine iff_of_false (not_lossEnds sock fresh sent _ waiting fun possible => ?_)
      fun both => opens both.1
    exact ⟨.badAllocation, Reader.step_not_opens some_data (Nat.cast_le.mp possible) opens⟩

/-- The same of a schedule. -/
theorem lostOutside_data {code : ReaderCode} {buffers : ℕ} {data : Bytes}
    (some_data : data ≠ []) (none : ∀ msgSize, code.goesOn 0 msgSize = false) :
    LostOutside code fresh buffers (.got data :: answers) ↔ Opens data ∧ ∃ message' rest,
      Reader.Collects code (fresh buffers) (.again 0 (Reader.sizeOf data)
        (Reader.cleared (fresh buffers) (Reader.sizeOf data))) answers message' rest ∧
      (verdict message' = .other ∨
        verdict message' = .heartbeat ∧ LostOutside code fresh (buffers + 1) rest) := by
  constructor
  · intro lost
    cases lost with
    | closed rest => exact absurd rfl some_data
    | behindPrefix opens not_ok =>
        refine ⟨opens, _, [],
          (Reader.collects_body opens.2.2.1).mpr (.inl ⟨rfl, rfl, none _, rfl⟩), ?_⟩
        cases found : verdict (Reader.cleared (fresh buffers) (Reader.sizeOf data)) with
        | ok => exact absurd found not_ok
        | heartbeat => exact .inr ⟨rfl, .beforePrefix⟩
        | other => exact .inl rfl
    | refused rest opens taken other =>
        exact ⟨opens, _, rest,
          (Reader.collects_body opens.2.2.1).mpr (.inr ⟨_, rfl, taken, rfl⟩), .inl other⟩
    | heartbeat opens taken beat lost =>
        exact ⟨opens, _, _,
          (Reader.collects_body opens.2.2.1).mpr (.inr ⟨_, rfl, taken, rfl⟩), .inr ⟨beat, lost⟩⟩
  · rintro ⟨opens, message', rest, collects, judged⟩
    rcases (Reader.collects_body opens.2.2.1).mp collects with
      ⟨rfl, rfl, -, rfl⟩ | ⟨body, rfl, taken, rfl⟩
    · refine .behindPrefix opens fun ok => ?_
      rcases judged with other | ⟨beat, -⟩
      · rw [ok] at other
        cases other
      · rw [ok] at beat
        cases beat
    · rcases judged with other | ⟨beat, lost⟩
      · exact .refused rest opens taken other
      · exact .heartbeat opens taken beat lost

/-- **What the loss of the connection does to a call** of `publish` or `deferredPublish`. -/
theorem lossEnds_iff (open_sock : 0 < sock)
    (bounds : ∀ count, -1 ≤ sent count ∧ sent count ≤ heartbeatAnswer.length)
    (waiting : s.point = .reading request .againRead) :
    LossEnds sock fresh sent s answers ↔
      LostOutside request.reader fresh s.buffers answers := by
  induction length : answers.length using Nat.strong_induction_on generalizing s answers with
  | _ count ih =>
      cases answers with
      | nil => exact iff_of_true (lossEnds_closed sock fresh sent [] waiting rfl) .beforePrefix
      | cons answer answers =>
          rw [List.length_cons] at length
          cases answer with
          | notYet =>
              have possible : ((ReadAnswer.notYet).data.length : ℤ) ≤
                Reader.againRead.requested := by decide
              obtain ⟨s', point, buffers, pass⟩ :=
                PubState.pass_again sock fresh sent (.notYet :: answers) waiting possible rfl
              have behind := ih answers.length (by omega) answers point rfl
              rw [LossEnds, exits_of_again pass]
              refine behind.trans ?_
              rw [buffers]
              constructor
              · exact .notYet
              · intro lost
                cases lost with
                | notYet lost => exact lost
          | got data =>
              cases data with
              | nil => exact iff_of_true (lossEnds_closed sock fresh sent _ waiting rfl) (.closed _)
              | cons byte data =>
                  have some_data := List.cons_ne_nil byte data
                  have follow : ∀ (s' : PubState) (rest : List ReadAnswer),
                      rest.length ≤ answers.length → s'.point = .reading request .againRead →
                        s'.buffers = s.buffers + 1 → (LossEnds sock fresh sent s' rest ↔
                          LostOutside request.reader fresh (s.buffers + 1) rest) := by
                    intro s' rest bound waiting' buffers
                    rw [← buffers]
                    exact ih rest.length (by omega) rest waiting' rfl
                  rw [lossEnds_data sock fresh sent answers open_sock bounds some_data waiting
                    follow, lostOutside_data fresh answers some_data request.reader_goesOn_zero]

/-- **Losing the connection.** A call of `publish` or `deferredPublish` ends with `-1` when the
connection is lost outside a body, and `send_identify` returns when it had a complete reply. -/
theorem lost_connection (open_sock : 0 < sock)
    (bounds : ∀ count, -1 ≤ sent count ∧ sent count ≤ heartbeatAnswer.length)
    (waiting : s.point = .reading request .againRead) (contents : Cells UInt8) :
    (LossEnds sock fresh sent s answers ↔
        LostOutside request.reader fresh s.buffers answers) ∧
      (IdentifyReturns contents answers ↔ Replied answers) :=
  ⟨lossEnds_iff sock fresh sent answers open_sock bounds waiting, identifyReturns_iff⟩

end Calls

/-! ## Where a stream of frames is cut -/

section Cut

variable {code : ReaderCode} {fresh : ℕ → Cells UInt8} {buffers : ℕ} {contents : Cells UInt8}
  {rest : List ReadAnswer}

theorem lostOutside_waits (waits : ℕ) :
    LostOutside code fresh buffers (List.replicate waits .notYet ++ rest) ↔
      LostOutside code fresh buffers rest := by
  induction waits with
  | zero => rfl
  | succ waits ih =>
      rw [← ih]
      constructor
      · intro lost
        cases lost with
        | notYet lost => exact lost
      · exact .notYet

/-- A heartbeat that comes whole is taken off the schedule. -/
theorem lostOutside_heartbeat (reads : code.ReadsOn)
    (none : ∀ msgSize, code.goesOn 0 msgSize = false) (beat : Heartbeat)
    (zero : fresh buffers beat.arrival.frame.size = 0) :
    LostOutside code fresh buffers (beat.arrival.answers ++ rest) ↔
      LostOutside code fresh (buffers + 1) rest := by
  have opens := opens_size beat.arrival.frame
  have bound := beat.arrival.frame.size_lt
  have reads_beat : ReadsHeartbeat beat.arrival.frame (fresh buffers) := (readsAs_self rfl).mpr zero
  have found : verdict (beat.arrival.frame.buffer (fresh buffers)) = .heartbeat := by
    rw [verdict_buffer, if_neg fun ok => ok.not_heartbeat reads_beat, if_pos reads_beat]
  have body : LostOutside code fresh buffers (.got (bigEndian 4 beat.arrival.frame.size) ::
      .got beat.arrival.frame.payload :: rest) ↔ _ := lostOutside_data fresh _ opens.1 none
  rw [Reader.sizeOf_bigEndian (by omega), and_iff_right opens] at body
  simp only [Reader.collects_whole reads] at body
  rw [Arrival.answers, List.append_assoc, lostOutside_waits]
  refine body.trans ⟨?_, fun lost => ⟨_, _, ⟨rfl, rfl⟩, .inr ⟨found, lost⟩⟩⟩
  rintro ⟨message', rest', ⟨rfl, rfl⟩, other | ⟨-, lost⟩⟩
  · rw [found] at other
    cases other
  · exact lost

theorem lostOutside_heartbeats (reads : code.ReadsOn)
    (none : ∀ msgSize, code.goesOn 0 msgSize = false) (beats : List Heartbeat)
    (terminated : Terminated fresh buffers (beats.map fun beat => beat.arrival.frame)) :
    LostOutside code fresh buffers (beats.flatMap (fun beat => beat.arrival.answers) ++ rest) ↔
      LostOutside code fresh (buffers + beats.length) rest := by
  induction beats generalizing buffers with
  | nil => rfl
  | cons beat beats ih =>
      obtain ⟨zero, terminated⟩ := terminated
      rw [List.flatMap_cons, List.append_assoc, lostOutside_heartbeat reads none beat zero,
        ih terminated, List.length_cons, Nat.add_assoc, Nat.add_comm 1]

/-- A cleared buffer for some data reads as the empty string. -/
theorem verdict_cleared (contents : Cells UInt8) {msgSize : ℤ} (long : 4 < msgSize) :
    verdict (Reader.cleared contents msgSize) = .other := by
  have zero : Reader.cleared contents msgSize 4 = 0 := by
    have inside : 4 < msgSize.toNat := by omega
    simp [Reader.cleared, Cells.store, inside]
  have unlike : ∀ byte literal, byte ≠ 0 →
      strcmpEq ((Reader.cleared contents msgSize).advance 4) (byte :: literal) = false := by
    intro byte literal nonzero
    rw [strcmpEq, beq_eq_false_iff_ne, Cells.slice_advance, List.length_cons, Cells.slice_succ]
    intro same
    exact nonzero ((List.cons.inj same).1.symm.trans zero)
  have ok : strcmpEq ((Reader.cleared contents msgSize).advance 4) (ascii "OK") = false :=
    unlike _ _ (by decide)
  have beat : strcmpEq ((Reader.cleared contents msgSize).advance 4) (ascii "_heartbeat_") =
      false := unlike _ _ (by decide)
  rw [verdict, ok, beat]
  rfl

/-- **A cut body** is outside only if nothing of it has come. -/
theorem lostOutside_cut (reads : code.ReadsOn) (none : ∀ msgSize, code.goesOn 0 msgSize = false)
    (frame : RawFrame) (some_data : frame.data ≠ []) {pieces : List Bytes}
    (some_pieces : ∀ piece ∈ pieces, piece ≠ []) (short : pieces.flatten.length < frame.size) :
    LostOutside code fresh buffers (.got (bigEndian 4 frame.size) :: pieces.map .got) ↔
      pieces = [] := by
  have opens := opens_size frame
  have bound := frame.size_lt
  have long : 4 < (frame.size : ℤ) := by
    have := List.length_pos_iff.mpr some_data
    rw [RawFrame.size]
    omega
  have body : LostOutside code fresh buffers (.got (bigEndian 4 frame.size) ::
      pieces.map .got) ↔ _ := lostOutside_data fresh _ opens.1 none
  rw [Reader.sizeOf_bigEndian (by omega), and_iff_right opens] at body
  refine body.trans ⟨?_, ?_⟩
  · rintro ⟨message', rest', collects, -⟩
    cases pieces with
    | nil => rfl
    | cons piece pieces =>
        rw [List.flatten_cons, List.length_append] at short
        have begun := List.length_pos_iff.mpr (some_pieces piece (List.mem_cons_self ..))
        rw [List.map_cons, Reader.collects_cons (Int.natCast_nonneg _)] at collects
        have more : code.goesOn (0 + (ReadAnswer.got piece).count) frame.size = true :=
          reads.more _ _ (by rw [ReadAnswer.count]; omega) (by rw [ReadAnswer.count]; omega)
        rw [more, if_pos rfl, zero_add] at collects
        exact absurd collects.2 (Reader.not_collects_pieces
          (fun k from_here below => reads.more k _ (by omega) (by omega)) short)
  · rintro rfl
    exact ⟨_, [], (Reader.collects_nil (Int.natCast_nonneg _)).mpr ⟨none _, rfl, rfl⟩,
      .inl (verdict_cleared _ long)⟩

/-- **Where the stream may be cut.** Heartbeats come whole, and then a frame with its prefix in
one read: the loss ends the call exactly when nothing of the body has come. -/
theorem lossEnds_cut {sock : ℤ} {sent : ℕ → ℤ} {s : PubState} {request : Request}
    (open_sock : 0 < sock)
    (bounds : ∀ count, -1 ≤ sent count ∧ sent count ≤ heartbeatAnswer.length)
    (waiting : s.point = .reading request .againRead) (beats : List Heartbeat)
    (terminated : Terminated fresh s.buffers (beats.map fun beat => beat.arrival.frame))
    (frame : RawFrame) (some_data : frame.data ≠ []) (waits : ℕ) {pieces : List Bytes}
    (some_pieces : ∀ piece ∈ pieces, piece ≠ []) (short : pieces.flatten.length < frame.size) :
    LossEnds sock fresh sent s (beats.flatMap (fun beat => beat.arrival.answers) ++
        (List.replicate waits .notYet ++ .got (bigEndian 4 frame.size) :: pieces.map .got)) ↔
      pieces = [] := by
  rw [lossEnds_iff sock fresh sent _ open_sock bounds waiting,
    lostOutside_heartbeats request.reader_readsOn request.reader_goesOn_zero beats terminated,
    lostOutside_waits]
  exact lostOutside_cut request.reader_readsOn request.reader_goesOn_zero frame some_data
    some_pieces short

end Cut

/-- `publish` at its first read. -/
def publishWaiting : PubState :=
  { PubState.initial with point := .reading (.publish (ascii "t") (ascii "m")) .againRead }

/-- The loss comes directly behind a size prefix: `publish` returns, and `send_identify` does not. -/
theorem lost_connection_publish :
    LossEnds 5 (fun _ _ => 0) (fun _ => 4) publishWaiting [.got (bigEndian 4 6)] ∧
      ¬ IdentifyReturns (fun _ => 0) [.got (bigEndian 4 6)] := by
  have both := lost_connection 5 (fun _ _ => 0) (fun _ => 4) [.got (bigEndian 4 6)]
    (show (0 : ℤ) < 5 by decide) (fun _ => heartbeatAnswer_bounds)
    (show publishWaiting.point = _ from rfl) (fun _ => 0)
  have outside : LostOutside publishReader (fun _ _ => 0) 0 (.got (bigEndian 4 6) :: [].map .got) :=
    (lostOutside_cut publishReader_readsOn (Request.reader_goesOn_zero (.publish [] []))
      okReply.frame (by decide) (List.forall_mem_nil _) (by decide)).mpr rfl
  have waits_on : ¬ IdentifyReturns (fun _ => 0) (.got (bigEndian 4 6) :: [].map .got) :=
    not_identifyReturns_cut okReply.frame 0 (by decide)
  exact ⟨both.1.mpr outside, waits_on⟩

/-- **Both wait for ever** behind the first byte of the body of an `OK`. -/
theorem not_lossEnds_begun :
    [ReadAnswer.got (bigEndian 4 6), .got [0]].flatMap ReadAnswer.data <+: okReply.frame.encode ∧
      ¬ LossEnds 5 (fun _ _ => 0) (fun _ => 4) publishWaiting [.got (bigEndian 4 6), .got [0]] ∧
      ¬ IdentifyReturns (fun _ => 0) [.got (bigEndian 4 6), .got [0]] := by
  have some_pieces : ∀ piece ∈ [[(0 : UInt8)]], piece ≠ [] := by decide
  have short : [[(0 : UInt8)]].flatten.length < okReply.frame.size := by decide
  have ends : LossEnds 5 (fun _ _ => 0) (fun _ => 4) publishWaiting
      (.got (bigEndian 4 6) :: [[0]].map .got) ↔ [[(0 : UInt8)]] = [] :=
    lossEnds_cut (show (0 : ℤ) < 5 by decide) (fun _ => heartbeatAnswer_bounds) rfl [] trivial
      okReply.frame (by decide) 0 some_pieces short
  have waits_on : ¬ IdentifyReturns (fun _ => 0) (.got (bigEndian 4 6) :: [[0]].map .got) :=
    not_identifyReturns_cut okReply.frame 0 short
  exact ⟨by decide, fun lost => absurd (ends.mp lost) (List.cons_ne_nil _ _), waits_on⟩

end PhpNsq
