import PhpNsq.Subscriber.CallOutcomes

/-!
# Delivery of frames to readcb

The bytes of a sequence of frames arrive in chunks, one call of `readcb` for each,
and no boundary between chunks falls strictly inside a size prefix.

`Along` is the invariant of such a delivery: some frames are done, the parser is ready or
in the middle of the next one, and the bytes that are missing are those of the rest
of that frame and of the frames after it. A call keeps it (`Along.next_call`). It returns unless it
ends with a frame and then comes across no buffer that starts with frame type 0.

The delivery reassembles the frames exactly when that never happens and `malloc`
gives the memory for every message (`reassembles_iff`). The loop goes round once more
after the last complete frame, and the frame type it decides on is then read from a
buffer that nobody wrote to.
-/

set_option autoImplicit false

namespace PhpNsq

open Foundations

/-! ## Deliveries -/

/-- No boundary between two chunks falls strictly inside a size prefix. -/
def BoundariesOutsidePrefixes (frames : List Frame) (calls : List ReadCall) : Prop :=
  ∀ first rest before frame after, calls = first ++ rest → frames = before ++ frame :: after →
    ¬ ((encodeAll before).length < (delivered first).length ∧
      (delivered first).length < (encodeAll before).length + 4)

/-- The definition as a check of every boundary against every frame. -/
theorem boundariesOutsidePrefixes_iff {frames : List Frame} {calls : List ReadCall} :
    BoundariesOutsidePrefixes frames calls ↔ ∀ i < calls.length + 1, ∀ j < frames.length,
      ¬ ((encodeAll (frames.take j)).length < (delivered (calls.take i)).length ∧
        (delivered (calls.take i)).length < (encodeAll (frames.take j)).length + 4) := by
  constructor
  · intro clean i _ j inside
    exact clean (calls.take i) (calls.drop i) (frames.take j) (frames[j]) (frames.drop (j + 1))
      (List.take_append_drop i calls).symm (by simp)
  · intro check first rest before frame after split place
    have at_call : first.length < calls.length + 1 := by
      rw [split, List.length_append]
      omega
    have here := check first.length at_call before.length (by simp [place])
    rwa [split, place, List.take_left, List.take_left] at here

instance (frames : List Frame) (calls : List ReadCall) :
    Decidable (BoundariesOutsidePrefixes frames calls) :=
  decidable_of_iff' _ boundariesOutsidePrefixes_iff

/-- These bytes are the encoding of the first few frames. -/
def EndsFrame (frames : List Frame) (bytes : Bytes) : Prop :=
  ∃ before after, frames = before ++ after ∧ bytes = encodeAll before

/-- Every buffer of size zero reads as type 0. -/
def DrainedZero (calls : List ReadCall) : Prop :=
  ∀ call ∈ calls, ∀ j, readI32 (call.memory.drained j) = 0

/-- The queue entries for the messages of a stream. -/
def pendingMessages (msg : NSQMsg) (frames : List Frame) : List PendingMessage :=
  frames.filterMap fun
    | .message content _ => some (content.pending msg)
    | _ => none

/-- What the parser keeps when a call returns: nothing, or a positive number of missing bytes of
the frame whose first bytes are in the buffer. -/
def AtReturn (frames : List Frame) (calls : List ReadCall) (s : ReadState) : Prop :=
  (s.isFirst = true ∧ s.l = 0) ∨
    s.isFirst = false ∧ ∃ before frame after, ∃ k : ℕ, frames = before ++ frame :: after ∧
      delivered calls = encodeAll before ++ (bigEndian 4 frame.size ++ frame.payload.take k) ∧
      s.l = k ∧ s.l < s.msg.size ∧ s.msg.size = frame.size ∧
      s.message.slice 0 k = frame.payload.take k

/-- **Reassembly**: every call returns, the queue gets an entry for each message in
order, a `NOP` is written for each heartbeat and nothing else, and the parser ends
ready for the next frame. -/
def Reassembles (malloc : Malloc) (start : ReadState) (old : List PendingMessage)
    (frames : List Frame) (calls : List ReadCall) : Prop :=
  ∃ last, Run (Readcb malloc) start calls last ∧
    last.queue.Holds (old ++ pendingMessages start.msg frames) ∧
    last.log = start.log ++ frames.flatMap (Frame.effects start.msg) ∧
    last.isFirst = true ∧ last.l = 0 ∧
    ∀ first rest s, calls = first ++ rest → Run (Readcb malloc) start first s →
      AtReturn frames first s

/-! ## The effects when memory is there -/

section Effects

variable {malloc : Malloc} {msg : NSQMsg} {index : ℕ}

theorem enqueuedIn_effects (frames : List Frame) :
    enqueuedIn (frames.flatMap (Frame.effects msg)) = pendingMessages msg frames := by
  induction frames with
  | nil => rfl
  | cons frame frames ih =>
      rw [List.flatMap_cons, enqueuedIn_append, ih]
      cases frame with
      | error data fits => rfl
      | message content fits => rfl
      | response data fits =>
          simp only [Frame.effects, pendingMessages, List.filterMap_cons]
          split
          · rfl
          · rfl

theorem Frame.length_effectsUnder_le (malloc : Malloc) (msg : NSQMsg) (index : ℕ) (frame : Frame) :
    (frame.effectsUnder malloc msg index).length ≤ (frame.effects msg).length := by
  cases frame with
  | response data fits => exact Nat.le_refl _
  | error data fits => exact Nat.le_refl _
  | message content fits =>
      simp only [Frame.effectsUnder, Frame.effects]
      split
      · exact Nat.le_refl _
      · exact Nat.zero_le _

theorem length_effectsFrom_le (malloc : Malloc) (msg : NSQMsg) (index : ℕ) (frames : List Frame) :
    (effectsFrom malloc msg index frames).length ≤
      (frames.flatMap (Frame.effects msg)).length := by
  induction frames generalizing index with
  | nil => exact Nat.le_refl _
  | cons frame frames ih =>
      have here := frame.length_effectsUnder_le malloc msg index
      have more := ih (index + frame.messages)
      simp only [effectsFrom_cons, List.flatMap_cons, List.length_append]
      omega

/-- **The effects are all there exactly when the memory for every message is granted.** -/
theorem effectsFrom_eq_iff (frames : List Frame) :
    effectsFrom malloc msg index frames = frames.flatMap (Frame.effects msg) ↔
      ∀ k < messageCount frames, (malloc (index + k)).all = true := by
  induction frames generalizing index with
  | nil => simp
  | cons frame frames ih =>
      rw [effectsFrom_cons, List.flatMap_cons, messageCount_cons]
      cases frame with
      | response data fits =>
          rw [Frame.effectsUnder.eq_2 _ _ _ _ (by simp), List.append_cancel_left_eq, ih]
          simp [Frame.messages]
      | error data fits =>
          rw [Frame.effectsUnder.eq_2 _ _ _ _ (by simp), List.append_cancel_left_eq, ih]
          simp [Frame.messages]
      | message content fits =>
          simp only [Frame.effectsUnder, Frame.effects, Frame.messages]
          cases granted : (malloc index).all with
          | true =>
              simp only [if_true, List.append_cancel_left_eq, ih]
              constructor
              · intro later k bound
                cases k with
                | zero => exact granted
                | succ k =>
                    rw [show index + (k + 1) = index + 1 + k by omega]
                    exact later k (by omega)
              · intro every k bound
                rw [show index + 1 + k = index + (k + 1) by omega]
                exact every (k + 1) (by omega)
          | false =>
              -- the entry of this message is missing, and nothing later makes up for it
              constructor
              · intro same
                have lengths := congrArg List.length same
                have shorter := length_effectsFrom_le malloc msg (index + 1) frames
                simp only [Bool.false_eq_true, if_false, List.nil_append, List.length_append,
                  List.length_cons, List.length_nil] at lengths
                omega
              · intro every
                have here := every 0 (by omega)
                rw [Nat.add_zero, granted] at here
                cases here

end Effects

/-! ## The invariant of a delivery -/

/-- After these calls, `done` is done and the rest is missing. -/
structure Along (malloc : Malloc) (start : ReadState) (old : List PendingMessage)
    (frames : List Frame) (taken : List ReadCall) (s : ReadState) (done : List Frame)
    (view : Option (Frame × ℕ)) (after : List Frame) : Prop where
  split : frames = done ++ (partOf view ++ after)
  bytes : delivered taken ++ (missing view ++ encodeAll after) = encodeAll frames
  tracks : s.Tracks view
  empty : s.input = []
  processed : ReadState.Processed malloc start old done s

namespace ReadState

variable {malloc : Malloc} {s start left : ReadState} {old : List PendingMessage}
  {frames done after : List Frame} {view : Option (Frame × ℕ)} {taken rest calls : List ReadCall}
  {call : ReadCall}

theorem length_missing (tracks : s.Tracks view) :
    (missing view).length ≤ (encodeAll (partOf view)).length := by
  cases view with
  | none => exact Nat.le_refl _
  | some part =>
      simp only [missing, partOf, encodeAll_cons, encodeAll_nil, List.append_nil,
        Frame.length_encode, List.length_drop, Frame.length_payload]
      omega

theorem missing_ne_nil {frame : Frame} {k : ℕ} (tracks : s.Tracks (some (frame, k))) :
    missing (some (frame, k)) ≠ [] := by
  have within := tracks.2.1
  intro nothing
  have lengths := congrArg List.length nothing
  simp only [missing, List.length_drop, Frame.length_payload, List.length_nil] at lengths
  omega

end ReadState

namespace Along

variable {malloc : Malloc} {s start left : ReadState} {old : List PendingMessage}
  {frames done after : List Frame} {view : Option (Frame × ℕ)} {taken rest calls : List ReadCall}
  {call : ReadCall}

theorem initial (ready : start.Tracks none) (empty : start.input = [])
    (holds : start.queue.Holds old) : Along malloc start old frames [] start [] none frames where
  split := rfl
  bytes := rfl
  tracks := ready
  empty := empty
  processed := ReadState.Processed.initial holds

/-- What has arrived is everything up to the bytes that are missing. -/
theorem length_delivered (along : Along malloc start old frames taken s done view after) :
    (delivered taken).length + (missing view).length =
      (encodeAll (done ++ partOf view)).length := by
  have lengths := congrArg List.length along.bytes
  simp only [along.split, encodeAll_append, List.length_append] at lengths ⊢
  omega

/-- The next call finds a beginning of what is missing. -/
theorem input (along : Along malloc start old frames taken s done view after)
    (bytes : delivered calls = encodeAll frames) (split : calls = taken ++ call :: rest) :
    call.chunk ++ delivered rest = missing view ++ encodeAll after := by
  have whole := along.bytes
  rw [← bytes, split, delivered_append, delivered_cons] at whole
  exact (List.append_cancel_left whole).symm

/-- The next chunk ends nowhere strictly inside a prefix. -/
theorem cutsNoPrefix (along : Along malloc start old frames taken s done view after)
    (clean : BoundariesOutsidePrefixes frames calls) (split : calls = taken ++ call :: rest) :
    CutsNoPrefix view after call.chunk := by
  intro before frame later here inside
  have place : frames = (done ++ partOf view ++ before) ++ frame :: later := by
    rw [along.split, here]
    simp
  apply clean (taken ++ [call]) rest _ frame later (by simpa using split) place
  have lengths := along.length_delivered
  simp only [delivered_append, delivered_cons, delivered_nil, List.append_nil, List.length_append,
    encodeAll_append] at lengths ⊢
  omega

/-- The next call starts from the place where the parser is, with the next chunk. -/
theorem receive (along : Along malloc start old frames taken s done view after)
    (chunk : Bytes) : (s.receive chunk).Tracks view ∧ (s.receive chunk).input = chunk ∧
      ReadState.Processed malloc start old done (s.receive chunk) := by
  have before := along.tracks
  refine ⟨?_, ?_, along.processed.untouched ⟨rfl, rfl, rfl, rfl⟩⟩
  · cases view with
    | none => exact before
    | some part => exact ⟨before.1, before.2.1, before.2.2.l, before.2.2.size, before.2.2.room,
        before.2.2.collected⟩
  · rw [ReadState.receive_input, along.empty, List.nil_append]

/-- **The outcome of the next call.** -/
theorem outcome (along : Along malloc start old frames taken s done view after)
    (bytes : delivered calls = encodeAll frames) (clean : BoundariesOutsidePrefixes frames calls)
    (split : calls = taken ++ call :: rest) :
    ReadState.CallOutcome malloc call.memory start old done (partOf view ++ after)
      (delivered rest) (s.receive call.chunk) := by
  obtain ⟨tracks, found, processed⟩ := along.receive call.chunk
  apply ReadState.callOutcome tracks
  · rw [found, along.input bytes split]
  · exact found.symm ▸ along.cutsNoPrefix clean split
  · exact processed

/-- What has arrived ends with a frame exactly when the parser is not in the middle of one. -/
theorem endsFrame_iff (along : Along malloc start old frames taken s done view after) :
    EndsFrame frames (delivered taken) ↔ view = none := by
  constructor
  · intro ⟨before, behind, split, bytes⟩
    cases view with
    | none => rfl
    | some part =>
        exfalso
        obtain ⟨frame, k⟩ := part
        have short := List.length_pos_iff.mpr (ReadState.missing_ne_nil along.tracks)
        have rest := ReadState.length_missing along.tracks
        have place := along.length_delivered
        rw [bytes] at place
        have frame_size := frame.length_encode
        simp only [partOf, missing, encodeAll_append, encodeAll_cons, encodeAll_nil, List.append_nil,
          List.length_append, List.length_drop, Frame.length_payload] at place rest short
        have cut : done ++ (frame :: after) = before ++ behind := along.split.symm.trans split
        rcases List.append_eq_append_iff.mp cut with ⟨more, here, tail⟩ | ⟨more, here, tail⟩
        · cases more with
          | nil =>
              rw [here, List.append_nil] at place
              omega
          | cons first more =>
              obtain ⟨rfl, -⟩ := List.cons.inj tail
              simp only [here, encodeAll_append, encodeAll_cons, List.length_append] at place
              omega
        · simp only [here, encodeAll_append, List.length_append] at place
          omega
  · intro ready
    refine ⟨done, after, by rw [along.split, ready]; rfl, ?_⟩
    have whole := along.bytes
    rw [along.split, ready] at whole
    simpa [missing, partOf, encodeAll_append] using whole

/-- What the parser keeps between two calls of a delivery. -/
theorem atReturn (along : Along malloc start old frames taken s done view after) :
    AtReturn frames taken s := by
  cases view with
  | none => exact .inl along.tracks
  | some part =>
      obtain ⟨frame, k⟩ := part
      obtain ⟨middle, within, collecting⟩ := along.tracks
      refine .inr ⟨middle, done, frame, after, k, along.split, ?_, collecting.l, ?_,
        collecting.size, collecting.collected⟩
      · have whole := along.bytes
        rw [along.split, partOf, encodeAll_append, List.singleton_append, encodeAll_cons,
          frame.encode_eq, ← List.take_append_drop k frame.payload] at whole
        have regrouped : delivered taken ++ (missing (some (frame, k)) ++ encodeAll after) =
            (encodeAll done ++ (bigEndian 4 frame.size ++ frame.payload.take k)) ++
              (missing (some (frame, k)) ++ encodeAll after) := by
          rw [whole]
          simp only [missing, List.append_assoc]
        exact List.append_cancel_right regrouped
      · rw [collecting.l, collecting.size]
        omega

/-- At the end of the delivery all frames are done. -/
theorem done_of_bytes (along : Along malloc start old frames calls s done view after)
    (bytes : delivered calls = encodeAll frames) : view = none ∧ done = frames := by
  have nothing : missing view ++ encodeAll after = [] := by
    have whole := along.bytes
    rw [bytes] at whole
    simpa using whole
  obtain ⟨arrived, none_after⟩ := List.append_eq_nil_iff.mp nothing
  have ready : view = none := by
    cases view with
    | none => rfl
    | some part => exact absurd arrived (ReadState.missing_ne_nil along.tracks)
  have last : after = [] := by
    cases after with
    | nil => rfl
    | cons frame after =>
        have lengths := congrArg List.length none_after
        simp at lengths
  refine ⟨ready, ?_⟩
  rw [along.split, ready, last]
  simp [partOf]

/-- A call that stops inside a frame is along the delivery. -/
theorem waiting (along : Along malloc start old frames taken s done view after)
    {now behind : List Frame} {frame : Frame} {k : ℕ} {t : ReadState} {later : Bytes}
    (here : partOf view ++ after = now ++ frame :: behind)
    (so_far : delivered (taken ++ [call]) ++ later = encodeAll frames)
    (tail : later = frame.payload.drop k ++ encodeAll behind)
    (inside : t.Tracks (some (frame, k))) (empty : t.input = [])
    (processed : ReadState.Processed malloc start old (done ++ now) t) :
    Along malloc start old frames (taken ++ [call]) t (done ++ now) (some (frame, k)) behind := by
  refine ⟨?_, by rw [← so_far, tail]; rfl, inside, empty, processed⟩
  rw [along.split, here, partOf]
  simp

/-- The next call either stops at an error frame, or it returns unless it ends with a frame
and finds no buffer that starts with type 0; and then what it leaves is along the delivery
again. -/
theorem next_call_cases (along : Along malloc start old frames taken s done view after)
    (bytes : delivered calls = encodeAll frames) (clean : BoundariesOutsidePrefixes frames calls)
    (split : calls = taken ++ call :: rest) :
    (∃ now view' after', (∀ frame ∈ now, ¬ frame.IsError) ∧
      ((∃ next, Readcb malloc s call next) ↔ (EndsFrame frames (delivered (taken ++ [call])) →
        ∃ j, readI32 (call.memory.drained j) = 0)) ∧
      ∀ next, Readcb malloc s call next →
        Along malloc start old frames (taken ++ [call]) next (done ++ now) view' after') ∨
    ∃ now frame behind t u, partOf view ++ after = now ++ frame :: behind ∧
      (∀ frame ∈ now, ¬ frame.IsError) ∧ frame.IsError ∧
      u.input ++ delivered rest = encodeAll behind ∧
      ReadState.CompletesError malloc call.memory start old done now frame (s.receive call.chunk)
        t u := by
  have so_far : delivered (taken ++ [call]) ++ delivered rest = encodeAll frames := by
    rw [← bytes, split]
    simp
  cases along.outcome bytes clean split with
  | exhausted now behind t here plain tail passes ready empty drained processed =>
      have place : frames = (done ++ now) ++ ([] ++ behind) := by
        rw [along.split, here]
        simp
      have reached : ∀ next, next.Tracks none → next.input = [] → ReadState.Untouched t next →
          Along malloc start old frames (taken ++ [call]) next (done ++ now) none behind := by
        intro next ready' empty' same
        exact ⟨place, by rw [← so_far, tail]; rfl, ready', empty', processed.untouched same⟩
      have ends : EndsFrame frames (delivered (taken ++ [call])) :=
        (reached t ready empty (.refl t)).endsFrame_iff.mpr rfl
      refine .inl ⟨now, none, behind, plain, ?_, ?_⟩
      · simp only [Readcb, passes.exits_iff, ReadState.exits_drained_iff ready empty, drained,
          ends, true_implies]
        exact exists_congr fun j => and_iff_right (Nat.zero_le j)
      · intro next returns
        obtain ⟨-, ready', empty', same⟩ :=
          ReadState.exits_drained ready empty (passes.exits_iff.mp returns)
        exact reached next ready' empty' same
  | waiting now behind frame k t here plain tail returns inside empty processed =>
      have reached := along.waiting here so_far tail inside empty processed
      have middle : ¬ EndsFrame frames (delivered (taken ++ [call])) := by
        intro ends
        cases reached.endsFrame_iff.mp ends
      refine .inl ⟨now, some (frame, k), behind, plain, ?_, ?_⟩
      · exact iff_of_true ⟨t, returns⟩ fun ends => absurd ends middle
      · intro next returns'
        obtain rfl := Readcb.unique returns returns'
        exact reached
  | error now behind frame t u here plain error tail completes =>
      exact .inr ⟨now, frame, behind, t, u, here, plain, error, tail, completes⟩

/-- **The next call**, when no frame is an error. -/
theorem next_call (along : Along malloc start old frames taken s done view after)
    (plain : ∀ frame ∈ frames, ¬ frame.IsError) (bytes : delivered calls = encodeAll frames)
    (clean : BoundariesOutsidePrefixes frames calls) (split : calls = taken ++ call :: rest) :
    ((∃ next, Readcb malloc s call next) ↔ (EndsFrame frames (delivered (taken ++ [call])) →
      ∃ j, readI32 (call.memory.drained j) = 0)) ∧
    ∀ next, Readcb malloc s call next → ∃ done' view' after',
      Along malloc start old frames (taken ++ [call]) next done' view' after' := by
  rcases along.next_call_cases bytes clean split with
    ⟨now, view', after', -, returns, keeps⟩ | ⟨now, frame, behind, t, u, here, -, error, -⟩
  · exact ⟨returns, fun next one => ⟨_, _, _, keeps next one⟩⟩
  · refine absurd error (plain frame ?_)
    rw [along.split, here]
    simp

end Along

/-! ## Reassembly -/

/-- A heartbeat frame. -/
def heartbeat : Frame := .response (ascii "_heartbeat_") heartbeat_fits

theorem length_id : (ascii "0123456789abcdef").length = 16 := by decide

/-- A message frame whose body is a word. -/
def greeting : Frame :=
  .message ⟨0, 1, ⟨ascii "0123456789abcdef", length_id⟩, ascii "hello"⟩ (by decide)

/-- The settings of a consumer. -/
def settings : NSQMsg := ⟨ascii "topic", ascii "channel", 0, 0, 1, 0, true⟩

/-- Every `malloc` succeeds. -/
def granted : Malloc := fun _ => ⟨true, true, true⟩

/-- Fresh memory that is zero. -/
def zeroMemory : Memory := ⟨fun _ _ => 0, fun _ _ => 0⟩

theorem drainedZero_of_zeroMemory {calls : List ReadCall}
    (zero : ∀ call ∈ calls, call.memory = zeroMemory) : DrainedZero calls := by
  have constant : readI32 (fun _ => 0) = 0 := by decide
  intro call member j
  rw [zero call member]
  exact constant

/-- Fresh memory that is not. -/
def dirtyMemory : Memory := ⟨fun _ _ => 1, fun _ _ => 1⟩

section Reassembly

variable {malloc : Malloc} {start : ReadState} {old : List PendingMessage} {frames : List Frame}
  {calls : List ReadCall}

/-- Every state of a delivery without error frames is along it. -/
theorem along_of_run (ready : start.Tracks none) (empty : start.input = [])
    (holds : start.queue.Holds old) (plain : ∀ frame ∈ frames, ¬ frame.IsError)
    (bytes : delivered calls = encodeAll frames) (clean : BoundariesOutsidePrefixes frames calls)
    {first rest : List ReadCall} {s : ReadState} (split : calls = first ++ rest)
    (run : Run (Readcb malloc) start first s) :
    ∃ done view after, Along malloc start old frames first s done view after := by
  apply run.invariant_within
    (fun taken s => ∃ done view after, Along malloc start old frames taken s done view after)
    ?_ ⟨_, _, _, Along.initial ready empty holds⟩
  intro taken call later state next here invariant one
  obtain ⟨done, view, after, along⟩ := invariant
  have place : calls = taken ++ call :: (later ++ rest) := by
    rw [split, here]
    simp
  exact (along.next_call plain bytes clean place).2 next one

/-- A delivery without error frames runs to its end when every call that ends with a frame
comes across a buffer that starts with type 0. -/
theorem run_of_types (malloc : Malloc) (ready : start.Tracks none) (empty : start.input = [])
    (holds : start.queue.Holds old) (plain : ∀ frame ∈ frames, ¬ frame.IsError)
    (bytes : delivered calls = encodeAll frames) (clean : BoundariesOutsidePrefixes frames calls)
    (types : ∀ first call rest, calls = first ++ call :: rest →
      EndsFrame frames (delivered (first ++ [call])) →
      ∃ j, readI32 (call.memory.drained j) = 0) :
    ∃ last, Run (Readcb malloc) start calls last ∧
      ∃ done view after, Along malloc start old frames calls last done view after := by
  apply Run.progress
    (fun taken s => ∃ done view after, Along malloc start old frames taken s done view after)
    ?_ ⟨_, _, _, Along.initial ready empty holds⟩
  intro taken call rest s split invariant
  obtain ⟨done, view, after, along⟩ := invariant
  obtain ⟨returns, keeps⟩ := along.next_call plain bytes clean split
  obtain ⟨next, one⟩ := returns.mpr (types taken call rest split)
  exact ⟨next, one, keeps next one⟩

/-- When empty buffers read as type 0, a delivery without error frames runs to its end and
processes all frames. -/
theorem run_of_zero (malloc : Malloc) (ready : start.Tracks none) (empty : start.input = [])
    (holds : start.queue.Holds old) (plain : ∀ frame ∈ frames, ¬ frame.IsError)
    (bytes : delivered calls = encodeAll frames) (clean : BoundariesOutsidePrefixes frames calls)
    (zero : DrainedZero calls) :
    ∃ last, Run (Readcb malloc) start calls last ∧ last.Tracks none ∧ last.input = [] ∧
      ReadState.Processed malloc start old frames last := by
  have types : ∀ first call rest, calls = first ++ call :: rest →
      EndsFrame frames (delivered (first ++ [call])) →
      ∃ j, readI32 (call.memory.drained j) = 0 := by
    intro first call rest split _
    exact ⟨0, zero call (by simp [split]) 0⟩
  obtain ⟨last, run, done, view, after, along⟩ :=
    run_of_types malloc ready empty holds plain bytes clean types
  obtain ⟨rfl, rfl⟩ := along.done_of_bytes bytes
  exact ⟨last, run, along.tracks, along.empty, along.processed⟩

/-- The end of all frames is not strictly inside a prefix. -/
theorem end_outside_prefixes {before after : List Frame} {frame : Frame}
    (split : frames = before ++ frame :: after) :
    ¬ ((encodeAll before).length < (encodeAll frames).length ∧
      (encodeAll frames).length < (encodeAll before).length + 4) := by
  have size := frame.length_encode
  simp only [split, encodeAll_append, encodeAll_cons, List.length_append]
  omega

/-- **When a delivery is reassembled.** Exactly when `malloc` grants the memory for every
message, and every call whose chunk ends with a frame comes across a fresh buffer whose
first four bytes are zero. -/
theorem reassembles_iff (ready : start.isFirst = true ∧ start.l = 0) (empty : start.input = [])
    (holds : start.queue.Holds old) (plain : ∀ frame ∈ frames, ¬ frame.IsError)
    (bytes : delivered calls = encodeAll frames)
    (clean : BoundariesOutsidePrefixes frames calls) :
    Reassembles malloc start old frames calls ↔
      (∀ k < messageCount frames, (malloc (start.dispatched + k)).all = true) ∧
      ∀ first call rest, calls = first ++ call :: rest →
        EndsFrame frames (delivered (first ++ [call])) →
        ∃ j, readI32 (call.memory.drained j) = 0 := by
  constructor
  · intro ⟨last, run, _, log, _, _, _⟩
    constructor
    · obtain ⟨done, view, after, along⟩ :=
        along_of_run ready empty holds plain bytes clean (List.append_nil calls).symm run
      obtain ⟨-, rfl⟩ := along.done_of_bytes bytes
      have effects := along.processed.log.symm.trans log
      exact (effectsFrom_eq_iff done).mp (List.append_cancel_left effects)
    · intro first call rest split ends
      rw [split] at run
      obtain ⟨before, run_first, next, one, -⟩ := run_append.mp run
      obtain ⟨done, view, after, along⟩ :=
        along_of_run ready empty holds plain bytes clean split run_first
      exact (along.next_call plain bytes clean split).1.mp ⟨next, one⟩ ends
  · intro ⟨granted, types⟩
    have runs := run_of_types malloc ready empty holds plain bytes clean types
    obtain ⟨last, run, done, view, after, along⟩ := runs
    obtain ⟨rfl, rfl⟩ := along.done_of_bytes bytes
    have effects : effectsFrom malloc start.msg start.dispatched done =
        done.flatMap (Frame.effects start.msg) := (effectsFrom_eq_iff done).mpr granted
    have queue := along.processed.queue
    have log := along.processed.log
    rw [effects, enqueuedIn_effects] at queue
    rw [effects] at log
    refine ⟨last, run, queue, log, along.tracks.1, along.tracks.2, ?_⟩
    intro first rest s split run_first
    obtain ⟨done', view', after', here⟩ :=
      along_of_run ready empty holds plain bytes clean split run_first
    exact here.atReturn

/-- A heartbeat and a message cut inside its body are reassembled when fresh memory is
zero. -/
theorem reassembles_cut_message :
    Reassembles granted (.initial settings) [] [heartbeat, greeting]
      [⟨heartbeat.encode ++ greeting.encode.take 36, zeroMemory⟩,
        ⟨greeting.encode.drop 36, zeroMemory⟩] :=
  (reassembles_iff ⟨rfl, rfl⟩ rfl MessageQueue.Holds.initial (by decide) (by decide)
    (by decide)).mpr ⟨fun _ _ => rfl, fun _ call _ split _ => ⟨0, by
      have member : call ∈ [(⟨heartbeat.encode ++ greeting.encode.take 36, zeroMemory⟩ : ReadCall),
          ⟨greeting.encode.drop 36, zeroMemory⟩] := by
        rw [split]
        simp
      rcases List.mem_cons.mp member with here | there
      · rw [here]
        decide
      · rw [List.mem_singleton.mp there]
        decide⟩⟩

/-- **A heartbeat alone, in one chunk, is enough to keep `readcb` from returning** when the
buffers that `emalloc` gives are never zero. -/
theorem not_reassembles_heartbeat :
    (∀ frame ∈ [heartbeat], ¬ frame.IsError) ∧
    delivered [⟨heartbeat.encode, dirtyMemory⟩] = encodeAll [heartbeat] ∧
    BoundariesOutsidePrefixes [heartbeat] [⟨heartbeat.encode, dirtyMemory⟩] ∧
    ¬ Reassembles granted (.initial settings) [] [heartbeat] [⟨heartbeat.encode, dirtyMemory⟩] := by
  have plain : ∀ frame ∈ [heartbeat], ¬ frame.IsError := by decide
  have bytes : delivered [⟨heartbeat.encode, dirtyMemory⟩] = encodeAll [heartbeat] := by decide
  have clean : BoundariesOutsidePrefixes [heartbeat] [⟨heartbeat.encode, dirtyMemory⟩] := by decide
  refine ⟨plain, bytes, clean, ?_⟩
  intro ⟨last, run, _⟩
  have along : Along granted (.initial settings) [] [heartbeat] [] (.initial settings) [] none
      [heartbeat] := Along.initial ⟨rfl, rfl⟩ rfl MessageQueue.Holds.initial
  have returns := (along.next_call plain bytes clean rfl).1.mp ⟨last, run_singleton.mp run⟩
  obtain ⟨j, zero⟩ := returns ⟨[heartbeat], [], rfl, bytes⟩
  have dirty : readI32 (fun _ => 1) ≠ 0 := by decide
  exact dirty zero

end Reassembly

end PhpNsq
