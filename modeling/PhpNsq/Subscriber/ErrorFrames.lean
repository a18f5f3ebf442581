import PhpNsq.Subscriber.Delivery

/-!
# Error frames in readcb

The loop of `readcb` has branches for the frame types 0 and 2 only. A complete error
frame is left where it is, with `l` at its full size, and the loop goes round again.

What happens then depends on how the frame arrived. If a call finds the payload of
a frame that an earlier call began, it looks at the same complete frame for ever
(`error_stuck`). If one call reads the whole frame and more bytes follow, the next frame is
read with the old `l`, and no state with `l = 0` is seen at the end of the error
frame (`past_error`). Only if the frame arrives whole and nothing follows in the input does the
comparison of the old `l` with the size of the empty buffer set the parser right
(`error_recovers`).

So error frames are harmless exactly when each arrives whole at the end of a chunk
(`survivesErrors_iff`).
-/

set_option autoImplicit false

namespace PhpNsq

open Foundations

namespace ReadState

variable {malloc : Malloc} {memory : Memory} {s t u : ReadState} {frame : Frame}

/-! ## Passes never put input back -/

theorem dispatchMessage_input (yields : Yields (s.dispatchMessage malloc) t) :
    t.input = s.input := by
  rw [dispatchMessage] at yields
  split at yields
  · exact (yields_again.mp yields) ▸ rfl
  · simp only at yields
    split at yields
    · exact (yields_again.mp yields) ▸ rfl
    · split at yields
      · exact absurd yields not_yields_error
      · split at yields
        · exact absurd yields not_yields_error
        · exact (yields_again.mp yields) ▸ rfl

theorem dispatchOn_input {frameType : ℤ} (yields : Yields (s.dispatchOn malloc frameType) t) :
    t.input = s.input := by
  rw [dispatchOn] at yields
  split at yields
  · rw [dispatchResponse] at yields
    simp only at yields
    split at yields
    · exact (yields_again.mp yields) ▸ rfl
    · exact (yields_ok.mp yields) ▸ rfl
  · split at yields
    · exact dispatchMessage_input (s := s.noteType frameType) yields
    · split at yields
      · exact (yields_ok.mp yields) ▸ rfl
      · exact (yields_again.mp yields) ▸ rfl

theorem readBody_input (body : s.readBody = .ok t) : t.input.length ≤ s.input.length := by
  rw [readBody] at body
  split at body
  · cases body
  · rw [← Except.ok.inj body, List.length_drop]
    omega

theorem collect_input (yields : Yields (s.collect malloc) t) : t.input.length ≤ s.input.length := by
  rw [collect] at yields
  split at yields
  · exact absurd yields not_yields_error
  · next read body =>
      have shorter := readBody_input body
      split at yields
      · exact (yields_ok.mp yields) ▸ shorter
      · split at yields
        · rw [dispatchOn_input yields]
          exact shorter
        · exact (yields_ok.mp yields) ▸ shorter

theorem openBuffer_input (opened : s.openBuffer memory = .ok t) :
    t.input.length = s.input.length - min 4 s.input.length := by
  rw [openBuffer] at opened
  simp only at opened
  split at opened
  · cases opened
  · rw [← Except.ok.inj opened, List.length_drop]
    rfl

theorem pass_input (yields : Yields (s.pass malloc memory) t) :
    t.input.length ≤ s.input.length := by
  rw [pass] at yields
  split at yields
  · split at yields
    · exact absurd yields not_yields_error
    · next opened open_ok =>
        have opened_input := openBuffer_input open_ok
        have rest := collect_input yields
        omega
  · exact collect_input yields

/-- A pass that opens a buffer takes at least one byte, if there is one. -/
theorem pass_input_lt (first : s.isFirst = true) (some_input : s.input ≠ [])
    (yields : Yields (s.pass malloc memory) t) : t.input.length < s.input.length := by
  have long : 0 < s.input.length := List.length_pos_iff.mpr some_input
  rw [pass, if_pos first] at yields
  split at yields
  · exact absurd yields not_yields_error
  · next opened open_ok =>
      have opened_input := openBuffer_input open_ok
      have rest := collect_input yields
      omega

theorem passes_input (passes : Passes (pass malloc memory) s t) :
    t.input.length ≤ s.input.length := by
  induction passes with
  | refl => exact Nat.le_refl _
  | tail _ again ih => exact (pass_input (.inl again)).trans ih

theorem exits_input (exit : Exits (pass malloc memory) s (.ok t)) :
    t.input.length ≤ s.input.length :=
  relates_of_exits (fun _ => Nat.le_refl _) (fun _ _ _ first second => second.trans first)
    (fun _ _ => pass_input) exit

/-! ## After a complete error frame -/

/-- **Whole and last: recovered.** The buffer that is opened next has size 0, less than the old
`l`, and the parser starts over. -/
theorem error_recovers (malloc : Malloc) (memory : Memory)
    (complete : u.Collecting frame frame.size) (first : u.isFirst = true) (empty : u.input = []) :
    ∃ left, (u.noteType 1).pass malloc memory = .leave (.ok left) ∧ left.Tracks none ∧
      left.input = [] ∧ Untouched u left := by
  have large := frame.four_le_size
  have l : u.l = frame.size := complete.l
  have body : ((u.noteType 1).drain memory).readBody = .ok ((u.noteType 1).drain memory) := by
    simp [readBody, available, drain, noteType, empty, l]
  have above : ¬ ((u.noteType 1).drain memory).l < ((u.noteType 1).drain memory).msg.size := by
    change ¬ u.l < 0
    omega
  have apart : ¬ ((u.noteType 1).drain memory).l = ((u.noteType 1).drain memory).msg.size := by
    change ¬ u.l = 0
    omega
  refine ⟨((u.noteType 1).drain memory).restart, ?_, ⟨rfl, rfl⟩, empty, rfl, rfl, rfl,
    u.msg.settings_update _ _⟩
  rw [pass_of_openBuffer (s := u.noteType 1) first (openBuffer_drained empty),
    collect_of_readBody body, if_neg above, if_neg apart]

/-- **Begun by an earlier call: stuck.** The complete frame is dispatched for ever. -/
theorem error_stuck (malloc : Malloc) (memory : Memory)
    (complete : u.Collecting frame frame.size) (error : frame.IsError) (middle : u.isFirst = false)
    (result : Except Fault ReadState) : ¬ Exits (pass malloc memory) (u.noteType 1) result := by
  have frameType := complete.frameType_error error
  have positive : 0 ≤ u.l := by
    rw [complete.l]
    omega
  have holds : u.HoldsBody u.message :=
    ⟨middle, by rw [complete.l, complete.size], positive, rfl⟩
  exact stuck_of_frameType malloc memory (holds.noteType 1) (by omega) (by omega) result

/-- **Whole with more behind it: derailed.** Every later state has read on. -/
theorem past_error (first : u.isFirst = true) (more : u.input ≠ [])
    (passes : Passes (pass malloc memory) u t) : t = u ∨ t.input.length < u.input.length := by
  rcases Relation.ReflTransGen.cases_head passes with rfl | ⟨next, again, rest⟩
  · exact .inl rfl
  · have shorter := pass_input_lt first more (.inl again)
    exact .inr (Nat.lt_of_le_of_lt (passes_input rest) shorter)

theorem past_error_exit (first : u.isFirst = true) (more : u.input ≠ [])
    (exit : Exits (pass malloc memory) u (.ok t)) : t.input.length < u.input.length := by
  obtain ⟨last, passes, leaves⟩ := exit.passes
  rcases past_error first more passes with rfl | shorter
  · exact pass_input_lt first more (.inr leaves)
  · exact Nat.lt_of_le_of_lt (pass_input (.inr leaves)) shorter

end ReadState

/-! ## Errors in a delivery -/

/-- A property of every error frame of a sequence and the frames before it. -/
def EachError (property : List Frame → Frame → Prop) (frames : List Frame) : Prop :=
  ∀ before frame after, frames = before ++ frame :: after → frame.IsError → property before frame

/-- Every error frame arrives whole, at the end of a chunk. -/
def ErrorsEndTheirChunks (frames : List Frame) (calls : List ReadCall) : Prop :=
  EachError (fun before frame => ∃ first call rest, calls = first ++ call :: rest ∧
    (delivered first).length ≤ (encodeAll before).length ∧
    delivered (first ++ [call]) = encodeAll (before ++ [frame])) frames

/-- A state that a call is in between two passes of its loop, or that it returns. -/
def Visits (malloc : Malloc) (s : ReadState) (call : ReadCall) (t : ReadState) : Prop :=
  Passes (ReadState.pass malloc call.memory) (s.receive call.chunk) t ∨ Readcb malloc s call t

/-- At some point exactly these bytes are consumed, with `is_first = 1` and `l = 0`. -/
def LeavesReady (malloc : Malloc) (start : ReadState) (calls : List ReadCall) (bytes : Bytes) :
    Prop :=
  ∃ first call rest s t, calls = first ++ call :: rest ∧ Run (Readcb malloc) start first s ∧
    Visits malloc s call t ∧ t.isFirst = true ∧ t.l = 0 ∧
    delivered (first ++ [call]) = bytes ++ t.input

/-- The stream without its error frames. -/
def plainFrames (frames : List Frame) : List Frame := frames.filter fun frame => ¬ frame.IsError

/-- **Error frames do no harm**: every call returns, each error frame is consumed exactly and leaves
the parser ready, and the effects and the queue are those of any delivery of the stream without
the error frames. -/
def SurvivesErrors (malloc : Malloc) (start : ReadState) (frames : List Frame)
    (calls : List ReadCall) : Prop :=
  ∃ last, Run (Readcb malloc) start calls last ∧
    EachError (fun before frame => LeavesReady malloc start calls (encodeAll (before ++ [frame])))
      frames ∧
    ∀ others, delivered others = encodeAll (plainFrames frames) →
      BoundariesOutsidePrefixes (plainFrames frames) others → DrainedZero others →
      ∃ other, Run (Readcb malloc) start others other ∧ last.log = other.log ∧
        ∀ messages, other.queue.Holds messages → last.queue.Holds messages

namespace EachError

variable {property : List Frame → Frame → Prop} {frames now : List Frame}

theorem nil : EachError property [] := by
  intro before frame after split
  exact absurd split (by simp)

theorem mono {other : List Frame → Frame → Prop} (each : EachError property frames)
    (implies : ∀ before frame, property before frame → other before frame) :
    EachError other frames :=
  fun before frame after split error => implies before frame (each before frame after split error)

theorem append_plain (each : EachError property frames) (plain : ∀ frame ∈ now, ¬ frame.IsError) :
    EachError property (frames ++ now) := by
  intro before frame after split error
  rcases List.append_eq_append_iff.mp split with ⟨more, here, tail⟩ | ⟨more, here, tail⟩
  · exact absurd error (plain frame (by simp [tail]))
  · cases more with
    | nil =>
        rw [List.nil_append] at tail
        exact absurd error (plain frame (by simp [← tail]))
    | cons first more =>
        obtain ⟨rfl, -⟩ := List.cons.inj tail
        exact each before frame more here error

theorem snoc {frame : Frame} (each : EachError property frames) (here : property frames frame) :
    EachError property (frames ++ [frame]) := by
  intro before other after split error
  rcases split_trichotomy split.symm with ⟨rfl, rfl, -⟩ | ⟨between, place, tail⟩ |
    ⟨between, place, tail⟩
  · exact here
  · exact each before other between place error
  · simp at tail

end EachError

theorem LeavesReady.mono {malloc : Malloc} {start : ReadState} {calls : List ReadCall}
    {bytes : Bytes} (ready : LeavesReady malloc start calls bytes) (more : List ReadCall) :
    LeavesReady malloc start (calls ++ more) bytes := by
  obtain ⟨first, call, rest, s, t, split, visited⟩ := ready
  exact ⟨first, call, rest ++ more, s, t, by simp [split], visited⟩

theorem ErrorsEndTheirChunks.mono {frames : List Frame} {calls : List ReadCall}
    (each : ErrorsEndTheirChunks frames calls) (more : List ReadCall) :
    ErrorsEndTheirChunks frames (calls ++ more) := by
  intro before frame after here error
  obtain ⟨first, call, rest, split, place⟩ := each before frame after here error
  exact ⟨first, call, rest ++ more, by simp [split], place⟩

theorem effectsFrom_plainFrames (malloc : Malloc) (msg : NSQMsg) (index : ℕ)
    (frames : List Frame) :
    effectsFrom malloc msg index (plainFrames frames) = effectsFrom malloc msg index frames := by
  induction frames generalizing index with
  | nil => rfl
  | cons frame frames ih =>
      rw [plainFrames, List.filter_cons]
      cases frame with
      | response data fits => simp [Frame.IsError, ← ih, plainFrames]
      | message content fits => simp [Frame.IsError, ← ih, plainFrames]
      | error data fits =>
          simp [Frame.IsError, ← ih, plainFrames, Frame.effectsUnder, Frame.effects, Frame.messages]

/-! ## A call that meets an error frame -/

/-- Calls add at most the bytes they deliver to the input. -/
theorem run_input {malloc : Malloc} {s t : ReadState} {calls : List ReadCall}
    (run : Run (Readcb malloc) s calls t) :
    t.input.length ≤ s.input.length + (delivered calls).length := by
  induction calls generalizing s with
  | nil =>
      rw [run_nil] at run
      rw [run]
      exact Nat.le_add_right ..
  | cons call calls ih =>
      obtain ⟨next, one, more⟩ := run
      have here := ReadState.exits_input one
      have later := ih more
      rw [ReadState.receive_input, List.length_append] at here
      rw [delivered_cons, List.length_append]
      omega

theorem visits_input {malloc : Malloc} {s t : ReadState} {call : ReadCall}
    (visits : Visits malloc s call t) : t.input.length ≤ s.input.length + call.chunk.length := by
  rw [← List.length_append, ← ReadState.receive_input]
  rcases visits with passes | returns
  · exact ReadState.passes_input passes
  · exact ReadState.exits_input returns

section MeetsError

variable {malloc : Malloc} {s start t u : ReadState} {old : List PendingMessage}
  {frames done now after behind : List Frame} {frame : Frame} {view : Option (Frame × ℕ)}
  {taken rest calls : List ReadCall} {call : ReadCall}

variable (along : Along malloc start old frames taken s done view after)
  (bytes : delivered calls = encodeAll frames) (split : calls = taken ++ call :: rest)
  (here : partOf view ++ after = now ++ frame :: behind) (error : frame.IsError)
  (tail : u.input ++ delivered rest = encodeAll behind)
  (completes : ReadState.CompletesError malloc call.memory start old done now frame
    (s.receive call.chunk) t u)

include along here in
theorem error_place : frames = (done ++ now) ++ frame :: behind := by
  rw [along.split, here, List.append_assoc]

include along bytes split here tail in
/-- The call has the bytes up to the end of the error frame, and those after it. -/
theorem error_bytes :
    delivered (taken ++ [call]) = encodeAll (done ++ now ++ [frame]) ++ u.input := by
  have whole : delivered (taken ++ [call]) ++ delivered rest =
      (encodeAll (done ++ now ++ [frame]) ++ u.input) ++ delivered rest := by
    rw [List.append_assoc, tail, ← delivered_append, List.append_assoc, List.singleton_append,
      ← split, bytes, error_place along here]
    simp
  exact List.append_cancel_right whole

include along here in
/-- The end of the error frame was still to come. -/
theorem error_before :
    (delivered taken).length < (encodeAll (done ++ now ++ [frame])).length := by
  have place := along.length_delivered
  have large := frame.length_encode
  cases view with
  | none =>
      simp only [partOf, missing, encodeAll_append, encodeAll_cons, encodeAll_nil, List.append_nil,
        List.length_append, List.length_nil] at place ⊢
      omega
  | some part =>
      obtain ⟨other, k⟩ := part
      have short := List.length_pos_iff.mpr (ReadState.missing_ne_nil along.tracks)
      cases now with
      | nil =>
          obtain ⟨rfl, -⟩ := List.cons.inj here
          simp only [partOf, encodeAll_append, encodeAll_cons, encodeAll_nil, List.append_nil,
            List.length_append] at place ⊢
          omega
      | cons first now =>
          obtain ⟨rfl, -⟩ := List.cons.inj here
          simp only [partOf, encodeAll_append, encodeAll_cons, encodeAll_nil, List.append_nil,
            List.length_append] at place ⊢
          omega

include along here completes in
/-- The call opened the buffer for the error frame if and only if the frame started in its chunk. -/
theorem error_start :
    u.isFirst = true ↔ (delivered taken).length ≤ (encodeAll (done ++ now)).length := by
  have place := along.length_delivered
  rw [completes.first]
  rcases completes.origin with ⟨some_now, tracks⟩ | ⟨no_now, begins⟩
  · refine iff_of_true tracks.1 ?_
    cases view with
    | none =>
        simp only [partOf, missing, encodeAll_append, List.append_nil, List.length_append,
          List.length_nil] at place ⊢
        omega
    | some part =>
        cases now with
        | nil => exact absurd rfl some_now
        | cons first now =>
            obtain ⟨rfl, -⟩ := List.cons.inj here
            simp only [partOf, encodeAll_append, encodeAll_cons, encodeAll_nil, List.append_nil,
              List.length_append] at place ⊢
            omega
  · rw [begins, ReadState.receive_isFirst, no_now, List.append_nil]
    cases view with
    | none =>
        refine iff_of_true along.tracks.1 ?_
        simp only [partOf, missing, List.append_nil, List.length_nil] at place
        omega
    | some part =>
        obtain ⟨other, k⟩ := part
        have middle := along.tracks.1
        have within := along.tracks.2.1
        refine iff_of_false (by simp [middle]) ?_
        simp only [partOf, missing, encodeAll_append, encodeAll_cons, encodeAll_nil, List.append_nil,
          List.length_append, List.length_drop, Frame.length_payload, Frame.length_encode] at place
        omega

include error completes in
/-- The passes up to the error frame and over it. -/
theorem error_passes :
    Passes (ReadState.pass malloc call.memory) (s.receive call.chunk) (u.noteType 1) := by
  have again : t.pass malloc call.memory = .again (u.noteType 1) :=
    completes.round.trans (ReadState.dispatch_error completes.complete error)
  exact completes.passes.tail again

include along here error tail completes bytes split in
/-- When the error frame is whole and last, the delivery goes on behind it. -/
theorem error_next (first : u.isFirst = true) (empty : u.input = []) :
    ∃ next, Readcb malloc s call next ∧
      Along malloc start old frames (taken ++ [call]) next (done ++ now ++ [frame]) none behind := by
  obtain ⟨left, leaves, ready, nothing, same⟩ :=
    ReadState.error_recovers malloc call.memory completes.complete first empty
  have returns : Readcb malloc s call left :=
    (error_passes error completes).exits_iff.mpr ((exits_of_leave leaves).mpr rfl)
  refine ⟨left, returns, ?_, ?_, ready, nothing, ?_⟩
  · rw [error_place along here]
    simp [partOf]
  · rw [error_bytes along bytes split here tail, error_place along here, empty]
    simp [missing]
  · have processed := completes.processed.untouched same
    cases frame with
    | response data fits => exact absurd error id
    | message content fits => exact absurd error id
    | error data fits =>
        refine completes.processed.snoc ?_ ?_ same.dispatched same.settings
        · rw [same.log]
          exact (List.append_nil _).symm
        · intro messages holds
          rw [same.queue]
          simpa [Frame.effectsUnder, Frame.effects] using holds

include error completes in
/-- When more bytes follow the error frame, a state of the call that has read up to its end is the
one with the error frame, or has read on. -/
theorem error_visits (first : u.isFirst = true) (more : u.input ≠ []) {v : ReadState}
    (visits : Visits malloc s call v) (bound : v.input.length ≤ u.input.length) :
    v = u.noteType 1 ∨ v.input.length < u.input.length := by
  have longer := completes.longer
  rcases visits with reached | returns
  · rcases reached.total completes.passes with before | after
    · have kept := ReadState.passes_input before
      omega
    · rcases Relation.ReflTransGen.cases_head after with same | ⟨next, again, rest⟩
      · rw [← same] at bound
        omega
      · rw [completes.round, ReadState.dispatch_error completes.complete error] at again
        obtain rfl := Next.again.inj again
        exact ReadState.past_error (u := u.noteType 1) first more rest
  · exact .inr (ReadState.past_error_exit (u := u.noteType 1) first more
      ((error_passes error completes).exits_iff.mp returns))

include along here error tail completes bytes split in
/-- When more bytes follow the error frame, the parser is never ready at its end. -/
theorem error_derails (run : Run (Readcb malloc) start taken s) (first : u.isFirst = true)
    (more : u.input ≠ []) :
    ¬ LeavesReady malloc start calls (encodeAll (done ++ now ++ [frame])) := by
  intro ⟨first', call', rest', s', v, split', run', visits, _, l, consumed⟩
  have total := congrArg List.length consumed
  have here_total := congrArg List.length (error_bytes along bytes split here tail)
  have ahead := error_before along here
  rw [List.length_append] at total here_total
  rcases split_trichotomy (split.symm.trans split') with ⟨same_first, same_call, -⟩ |
    ⟨between, later, -⟩ | ⟨between, earlier, -⟩
  · -- the same call: it comes past the end of the error frame with `l` at the frame's size
    subst same_first same_call
    obtain rfl := Readcb.run_unique run' run
    rcases error_visits error completes first more visits (by omega) with same | shorter
    · have size := completes.complete.l
      have large := frame.four_le_size
      rw [same] at l
      change u.l = 0 at l
      omega
    · omega
  · -- a later call starts behind the end of the error frame
    rw [later] at run' total
    obtain ⟨middle, run_taken, next, one, run_between⟩ := run_append.mp run'
    obtain rfl := Readcb.run_unique run_taken run
    have behind_error := ReadState.past_error_exit (u := u.noteType 1) first more
      ((error_passes error completes).exits_iff.mp one)
    change next.input.length < u.input.length at behind_error
    have kept := run_input run_between
    have found := visits_input visits
    simp only [delivered_append, delivered_cons, delivered_nil, List.length_append,
      List.append_nil] at total here_total
    omega
  · -- an earlier call does not have the bytes
    simp only [earlier, delivered_append, delivered_cons, delivered_nil, List.length_append,
      List.append_nil] at total ahead
    omega

end MeetsError

/-! ## Errors that do no harm -/

/-- An error frame. -/
def badTopic : Frame := .error (ascii "E_BAD_TOPIC") (by decide)

section Survival

variable {malloc : Malloc} {s start : ReadState} {old : List PendingMessage} {frames : List Frame}
  {taken rest calls : List ReadCall} {call : ReadCall}

/-- Every state of a delivery that errors do not disturb is along it, and the errors so far ended
their chunks. -/
theorem errors_of_run (ready : start.Tracks none) (empty : start.input = [])
    (holds : start.queue.Holds old) (bytes : delivered calls = encodeAll frames)
    (clean : BoundariesOutsidePrefixes frames calls) {last : ReadState}
    (run : Run (Readcb malloc) start calls last)
    (leaves : EachError (fun before frame =>
      LeavesReady malloc start calls (encodeAll (before ++ [frame]))) frames) :
    ∃ done view after, Along malloc start old frames calls last done view after ∧
      ErrorsEndTheirChunks done calls := by
  have invariant : Run (Readcb malloc) start calls last ∧ ∃ done view after,
      Along malloc start old frames calls last done view after ∧ ErrorsEndTheirChunks done calls := by
    apply run.invariant_within (fun taken s => Run (Readcb malloc) start taken s ∧
      ∃ done view after, Along malloc start old frames taken s done view after ∧
        ErrorsEndTheirChunks done taken)
    · intro taken call rest s next split invariant one
      obtain ⟨run_taken, done, view, after, along, errors⟩ := invariant
      refine ⟨run_append.mpr ⟨s, run_taken, run_singleton.mpr one⟩, ?_⟩
      rcases along.next_call_cases bytes clean split with ⟨now, view', after', plain, -, keeps⟩ |
        ⟨now, frame, behind, t, u, here, plain, error, tail, completes⟩
      · exact ⟨_, _, _, keeps next one, (errors.mono [call]).append_plain plain⟩
      · cases first : u.isFirst with
        | false =>
            have stuck := ReadState.error_stuck malloc call.memory completes.complete error first
              (.ok next)
            exact absurd ((error_passes error completes).exits_iff.mp one) stuck
        | true =>
            by_cases last_bytes : u.input = []
            · obtain ⟨left, returns, reached⟩ :=
                error_next along bytes split here error tail completes first last_bytes
              obtain rfl := Readcb.unique returns one
              refine ⟨_, _, _, reached, ((errors.mono [call]).append_plain plain).snoc ?_⟩
              refine ⟨taken, call, [], rfl, (error_start along here completes).mp first, ?_⟩
              rw [error_bytes along bytes split here tail, last_bytes, List.append_nil]
            · exact absurd (leaves _ _ _ (error_place along here) error)
                (error_derails along bytes split here error tail completes run_taken first last_bytes)
    · exact ⟨rfl, [], none, frames, Along.initial ready empty holds, .nil⟩
  exact invariant.2

/-- When errors end their chunks, the call that completes one is the call it started in, and has
nothing behind it. -/
theorem first_and_last_of_endTheirChunks {t u : ReadState} {done now after behind : List Frame}
    {frame : Frame} {view : Option (Frame × ℕ)}
    (along : Along malloc start old frames taken s done view after)
    (bytes : delivered calls = encodeAll frames) (split : calls = taken ++ call :: rest)
    (here : partOf view ++ after = now ++ frame :: behind) (error : frame.IsError)
    (tail : u.input ++ delivered rest = encodeAll behind)
    (completes : ReadState.CompletesError malloc call.memory start old done now frame
      (s.receive call.chunk) t u) (each : ErrorsEndTheirChunks frames calls) :
    u.isFirst = true ∧ u.input = [] := by
  obtain ⟨first, call', rest', split', starts, ends⟩ :=
    each _ _ _ (error_place along here) error
  have ahead := error_before along here
  have whole := error_bytes along bytes split here tail
  have total := congrArg List.length whole
  have total' := congrArg List.length ends
  have large := frame.length_encode
  simp only [delivered_append, delivered_cons, delivered_nil, encodeAll_append, encodeAll_cons,
    encodeAll_nil, List.length_append, List.append_nil] at total total' ahead starts
  rcases split_trichotomy (split.symm.trans split') with ⟨same_first, same_call, -⟩ |
    ⟨between, later, -⟩ | ⟨between, earlier, -⟩
  · subst same_first same_call
    refine ⟨(error_start along here completes).mpr ?_, ?_⟩
    · simpa [encodeAll_append] using starts
    · exact List.append_cancel_left ((whole.symm.trans ends).trans (List.append_nil _).symm)
  · simp only [later, delivered_append, delivered_cons, List.length_append] at starts
    omega
  · simp only [earlier, delivered_append, delivered_cons, List.length_append] at ahead
    omega

/-- **When error frames do no harm.** Given that empty buffers read as type 0, exactly when every
error frame arrives whole in one chunk and ends it. -/
theorem survivesErrors_iff (ready : start.isFirst = true ∧ start.l = 0) (empty : start.input = [])
    (holds : start.queue.Holds old) (bytes : delivered calls = encodeAll frames)
    (clean : BoundariesOutsidePrefixes frames calls) (zero : DrainedZero calls) :
    SurvivesErrors malloc start frames calls ↔ ErrorsEndTheirChunks frames calls := by
  constructor
  · intro ⟨last, run, leaves, _⟩
    obtain ⟨done, view, after, along, errors⟩ :=
      errors_of_run ready empty holds bytes clean run leaves
    obtain ⟨-, rfl⟩ := along.done_of_bytes bytes
    exact errors
  · intro each
    have runs : ∃ last, Run (Readcb malloc) start calls last ∧
        Run (Readcb malloc) start calls last ∧ ∃ done view after,
          Along malloc start old frames calls last done view after ∧
          EachError (fun before frame =>
            LeavesReady malloc start calls (encodeAll (before ++ [frame]))) done := by
      apply Run.progress (fun taken s => Run (Readcb malloc) start taken s ∧ ∃ done view after,
        Along malloc start old frames taken s done view after ∧ EachError (fun before frame =>
          LeavesReady malloc start taken (encodeAll (before ++ [frame]))) done)
      · intro taken call rest s split invariant
        obtain ⟨run, done, view, after, along, leaves⟩ := invariant
        have leaves' := leaves.mono fun before frame ready => ready.mono [call]
        rcases along.next_call_cases bytes clean split with
          ⟨now, view', after', plain, returns, keeps⟩ |
          ⟨now, frame, behind, t, u, here, plain, error, tail, completes⟩
        · have found : ∃ j, readI32 (call.memory.drained j) = 0 :=
            ⟨0, zero call (by simp [split]) 0⟩
          obtain ⟨next, one⟩ := returns.mpr fun _ => found
          exact ⟨next, one, run_append.mpr ⟨s, run, run_singleton.mpr one⟩, _, _, _,
            keeps next one, leaves'.append_plain plain⟩
        · obtain ⟨first, last_bytes⟩ := first_and_last_of_endTheirChunks along bytes split here
            error tail completes each
          obtain ⟨next, one, reached⟩ :=
            error_next along bytes split here error tail completes first last_bytes
          refine ⟨next, one, run_append.mpr ⟨s, run, run_singleton.mpr one⟩, _, _, _, reached,
            (leaves'.append_plain plain).snoc ?_⟩
          refine ⟨taken, call, [], s, next, rfl, run, .inr one, reached.tracks.1, reached.tracks.2, ?_⟩
          rw [error_bytes along bytes split here tail, last_bytes, reached.empty]
      · exact ⟨rfl, [], none, frames, Along.initial ready empty holds, .nil⟩
    obtain ⟨last, run, -, done, view, after, along, leaves⟩ := runs
    obtain ⟨-, rfl⟩ := along.done_of_bytes bytes
    refine ⟨last, run, leaves, ?_⟩
    intro others bytes' clean' zero'
    have plain : ∀ frame ∈ plainFrames done, ¬ frame.IsError := by
      intro frame member
      simpa using (List.mem_filter.mp member).2
    obtain ⟨other, run', -, -, processed⟩ :=
      run_of_zero malloc ready empty holds plain bytes' clean' zero'
    have effects := effectsFrom_plainFrames malloc start.msg start.dispatched done
    refine ⟨other, run', ?_, ?_⟩
    · rw [along.processed.log, processed.log, effects]
    · intro messages queue
      have same := queue.unique processed.queue
      rw [same, effects]
      exact along.processed.queue

/-- An error in a chunk of its own is survived. -/
theorem survivesErrors_own_chunk :
    SurvivesErrors granted (.initial settings) [badTopic, heartbeat]
      [⟨badTopic.encode, zeroMemory⟩, ⟨heartbeat.encode, zeroMemory⟩] := by
  have ends : ErrorsEndTheirChunks ([] ++ [badTopic] ++ [heartbeat])
      [⟨badTopic.encode, zeroMemory⟩, ⟨heartbeat.encode, zeroMemory⟩] :=
    (EachError.nil.snoc ⟨[], _, _, rfl, Nat.le_refl _, by decide⟩).append_plain (by decide)
  have zero : DrainedZero [⟨badTopic.encode, zeroMemory⟩, ⟨heartbeat.encode, zeroMemory⟩] :=
    drainedZero_of_zeroMemory (by simp)
  exact (survivesErrors_iff ⟨rfl, rfl⟩ rfl MessageQueue.Holds.initial (by decide) (by decide)
    zero).mpr ends

/-- **An error frame cut in its body keeps `readcb` from returning.** -/
theorem not_survivesErrors_cut :
    delivered [⟨badTopic.encode.take 10, zeroMemory⟩, ⟨badTopic.encode.drop 10, zeroMemory⟩] =
      encodeAll [badTopic] ∧
    BoundariesOutsidePrefixes [badTopic]
      [⟨badTopic.encode.take 10, zeroMemory⟩, ⟨badTopic.encode.drop 10, zeroMemory⟩] ∧
    ¬ SurvivesErrors granted (.initial settings) [badTopic]
      [⟨badTopic.encode.take 10, zeroMemory⟩, ⟨badTopic.encode.drop 10, zeroMemory⟩] := by
  have bytes : delivered [⟨badTopic.encode.take 10, zeroMemory⟩,
      ⟨badTopic.encode.drop 10, zeroMemory⟩] = encodeAll [badTopic] := by decide
  have clean : BoundariesOutsidePrefixes [badTopic]
      [⟨badTopic.encode.take 10, zeroMemory⟩, ⟨badTopic.encode.drop 10, zeroMemory⟩] := by decide
  refine ⟨bytes, clean, ?_⟩
  intro ⟨last, run, leaves, _⟩
  obtain ⟨done, view, after, along, errors⟩ :=
    errors_of_run ⟨rfl, rfl⟩ rfl MessageQueue.Holds.initial bytes clean run leaves
  obtain ⟨-, rfl⟩ := along.done_of_bytes bytes
  obtain ⟨first, call, rest, split, starts, ends⟩ := errors [] badTopic [] rfl trivial
  cases first with
  | nil =>
      obtain ⟨rfl, -⟩ := List.cons.inj split
      exact absurd ends (by decide)
  | cons one first =>
      obtain ⟨rfl, -⟩ := List.cons.inj split
      rw [delivered_cons, List.length_append] at starts
      have arrived : (badTopic.encode.take 10).length = 10 := by decide
      simp only [encodeAll_nil, List.length_nil, arrived] at starts
      omega

end Survival

end PhpNsq
