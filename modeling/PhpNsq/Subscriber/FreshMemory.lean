import PhpNsq.Subscriber.Delivery

/-!
# What readcb does in different memories

`emalloc` does not clear what it gives, so what a buffer holds before anything is read into it
depends on what the process did earlier. A delivery is compared with the same chunks in other
memory.

`SameBehaviour` says that every call returns in both memories and that after each of them the
two parsers are in the same state, with the same queue and the same writes.
`DecodesReceived` says that a frame type is only ever decoded from four bytes that were
received. When the last frame of a chunk is complete, the loop opens a buffer of size zero and
decodes a frame type there; so the second fails whenever a chunk ends with a frame, and the first as
soon as the memory does not happen to give type 0 (`memoryBlind_iff`).
-/

set_option autoImplicit false

namespace PhpNsq

open Foundations

/-! ## One place in the stream -/

namespace Along

variable {malloc malloc' : Malloc} {start start' s s' : ReadState} {old old' : List PendingMessage}
  {frames done done' after after' : List Frame} {view view' : Option (Frame × ℕ)}
  {taken taken' : List ReadCall}

/-- With as many bytes delivered, the frame that is in progress is no later one. -/
theorem no_more (here : Along malloc start old frames taken s done view after)
    (there : Along malloc' start' old' frames taken' s' done' view' after')
    (bytes : delivered taken = delivered taken') {more : List Frame}
    (longer : done' ++ partOf view' = (done ++ partOf view) ++ more) : more = [] := by
  have place := here.length_delivered
  have place' := there.length_delivered
  rw [longer, encodeAll_append, List.length_append, ← place, bytes] at place'
  -- so the bytes of `more` are among the missing ones
  by_contra some_more
  cases view' with
  | none =>
      obtain ⟨frame, rest, rfl⟩ := List.exists_cons_of_ne_nil some_more
      have size := frame.length_encode
      simp only [missing, List.length_nil, encodeAll_cons, List.length_append] at place'
      omega
  | some part =>
      obtain ⟨frame, k⟩ := part
      obtain ⟨rest, last, rfl⟩ := List.eq_nil_or_concat more |>.resolve_left some_more
      rw [List.concat_eq_append, ← List.append_assoc] at longer
      obtain ⟨-, ends⟩ := List.append_inj' longer rfl
      obtain rfl := List.singleton_inj.mp ends
      have size := frame.length_encode
      simp only [missing, List.length_drop, Frame.length_payload, List.concat_eq_append,
        encodeAll_append, encodeAll_cons, encodeAll_nil, List.append_nil,
        List.length_append] at place'
      omega

/-- **The bytes delivered determine the place in the stream.** -/
theorem same_place (here : Along malloc start old frames taken s done view after)
    (there : Along malloc' start' old' frames taken' s' done' view' after')
    (bytes : delivered taken = delivered taken') : done = done' ∧ view = view' := by
  have split : (done ++ partOf view) ++ after = (done' ++ partOf view') ++ after' := by
    rw [List.append_assoc, List.append_assoc, ← here.split, ← there.split]
  have parts : done ++ partOf view = done' ++ partOf view' := by
    rcases List.append_eq_append_iff.mp split with ⟨more, longer, -⟩ | ⟨more, longer, -⟩
    · rw [longer, here.no_more there bytes longer, List.append_nil]
    · rw [longer, there.no_more here bytes.symm longer, List.append_nil]
  have place := here.length_delivered
  rw [bytes, parts, ← there.length_delivered, Nat.add_left_cancel_iff] at place
  cases view with
  | none =>
      cases view' with
      | none => exact ⟨by simpa [partOf] using parts, rfl⟩
      | some part =>
          have nothing := List.length_eq_zero_iff.mp place.symm
          exact absurd nothing (ReadState.missing_ne_nil there.tracks)
  | some part =>
      cases view' with
      | none =>
          have nothing := List.length_eq_zero_iff.mp place
          exact absurd nothing (ReadState.missing_ne_nil here.tracks)
      | some part' =>
          obtain ⟨frame, k⟩ := part
          obtain ⟨frame', k'⟩ := part'
          obtain ⟨same, ends⟩ := List.append_inj' parts rfl
          obtain rfl := List.singleton_inj.mp ends
          have within := here.tracks.2.1
          have within' := there.tracks.2.1
          simp only [missing, List.length_drop, Frame.length_payload] at place
          obtain rfl : k = k' := by omega
          exact ⟨same, rfl⟩

end Along

/-! ## Two memories -/

/-- What of a parser's state does not come from `emalloc`: where it is, the bytes it has
collected, the queue, and what it has written. -/
structure SameState (s s' : ReadState) : Prop where
  isFirst : s.isFirst = s'.isFirst
  l : s.l = s'.l
  collected : s.isFirst = false →
    s.msg.size = s'.msg.size ∧ s.message.slice 0 s.l.toNat = s'.message.slice 0 s.l.toNat
  queue : ∀ messages, s.queue.Holds messages ↔ s'.queue.Holds messages
  log : s.log = s'.log
  settings : s.msg.settings = s'.msg.settings

/-- Two deliveries run side by side: every call returns, and to the same state. -/
def SameBehaviour (malloc : Malloc) (start : ReadState) (calls calls' : List ReadCall) : Prop :=
  ∀ n ≤ calls.length, ∃ s s', Run (Readcb malloc) start (calls.take n) s ∧
    Run (Readcb malloc) start (calls'.take n) s' ∧ SameState s s'

/-- The state behind the body read of a pass. -/
def ReadState.bodyRead (memory : Memory) (s : ReadState) : Except Fault ReadState :=
  if s.isFirst = true then
    match s.openBuffer memory with
    | .error fault => .error fault
    | .ok opened => opened.readBody
  else s.readBody

/-- With nothing to read it is the buffer of size zero. -/
theorem ReadState.bodyRead_drained {memory : Memory} {t : ReadState} (ready : t.Tracks none)
    (empty : t.input = []) : t.bodyRead memory = .ok (t.drain memory) := by
  have body := readBody_drain ready.2 empty memory
  simp only [bodyRead, if_pos ready.1, openBuffer_drained empty, body]

/-- A frame type is decoded only where its four bytes were received. -/
def DecodesReceived (malloc : Malloc) (start : ReadState) (calls : List ReadCall) : Prop :=
  ∀ first call rest s t read, calls = first ++ call :: rest → Run (Readcb malloc) start first s →
    Passes (ReadState.pass malloc call.memory) (s.receive call.chunk) t →
    t.bodyRead call.memory = .ok read → read.l = read.msg.size → 4 ≤ read.l

/-- **The consumer depends on received bytes only.** -/
structure MemoryBlind (malloc : Malloc) (start : ReadState) (calls calls' : List ReadCall) :
    Prop where
  same : SameBehaviour malloc start calls calls'
  received : DecodesReceived malloc start calls
  received' : DecodesReceived malloc start calls'

/-- No chunk ends with a frame. -/
def EndsInsideFrames (frames : List Frame) (calls : List ReadCall) : Prop :=
  ∀ first call rest, calls = first ++ call :: rest →
    ¬ EndsFrame frames (delivered (first ++ [call]))

/-- Every call whose chunk ends with a frame comes across a drained buffer of type 0. -/
def MeetsZeros (frames : List Frame) (calls : List ReadCall) : Prop :=
  ∀ first call rest, calls = first ++ call :: rest →
    EndsFrame frames (delivered (first ++ [call])) → ∃ j, readI32 (call.memory.drained j) = 0

/-! ## From pass to pass -/

/-- What is ahead of a pass: the missing bytes of a frame, and whole frames. -/
structure Ahead (malloc : Malloc) (start : ReadState) (old : List PendingMessage)
    (frames : List Frame) (later : Bytes) (t : ReadState) (done : List Frame)
    (view : Option (Frame × ℕ)) (after : List Frame) : Prop where
  split : frames = done ++ (partOf view ++ after)
  input : t.input ++ later = missing view ++ encodeAll after
  clean : CutsNoPrefix view after t.input
  tracks : t.Tracks view
  processed : ReadState.Processed malloc start old done t

namespace Ahead

variable {malloc : Malloc} {memory : Memory} {start t next read : ReadState}
  {old : List PendingMessage} {frames done after : List Frame} {view : Option (Frame × ℕ)}
  {later : Bytes}

/-- A body read does not touch the size. -/
theorem readBody_msg {c : ReadState} (body : c.readBody = .ok read) : read.msg = c.msg := by
  simp only [ReadState.readBody] at body
  split at body
  · cases body
  · rw [← Except.ok.inj body]

/-- Unless there is nothing to read, the pass works on the payload of a frame. -/
theorem payload (ahead : Ahead malloc start old frames later t done view after)
    (some_bytes : ¬ (view = none ∧ t.input = [])) (memory : Memory) :
    ∃ (c : ReadState) (frame : Frame) (k : ℕ) (behind : List Frame),
      t.pass malloc memory = c.collect malloc ∧ t.bodyRead memory = c.readBody ∧
      c.Collecting frame k ∧ k ≤ frame.size ∧ partOf view ++ after = frame :: behind ∧
      c.input ++ later = frame.payload.drop k ++ encodeAll behind ∧
      (∀ tail, c.input = frame.payload.drop k ++ tail → CutsNoPrefix none behind tail) ∧
      ReadState.Processed malloc start old done c := by
  cases view with
  | none =>
      have some_input : t.input ≠ [] := fun empty => some_bytes ⟨rfl, empty⟩
      cases after with
      | nil => exact absurd (List.append_eq_nil_iff.mp ahead.input).1 some_input
      | cons frame behind =>
          obtain ⟨rest, starts, bytes⟩ := ahead.clean.front some_input ahead.input
          obtain ⟨opened, open_ok, collecting, left, -, -, same⟩ :=
            ReadState.openBuffer_prefix memory ahead.tracks.2 starts
          have first := ahead.tracks.1
          refine ⟨opened, frame, 0, behind, ReadState.pass_of_openBuffer first open_ok, ?_,
            collecting, Nat.zero_le _, rfl, ?_, ?_, ahead.processed.untouched same⟩
          · simp only [ReadState.bodyRead, if_pos first, open_ok]
          · rw [left, List.drop_zero, bytes]
          · intro tail whole
            have remaining : t.input = frame.encode ++ tail := by
              rw [List.drop_zero, left] at whole
              rw [starts, whole, frame.encode_eq, List.append_assoc]
            exact (remaining ▸ ahead.clean).cons
  | some part =>
      obtain ⟨frame, k⟩ := part
      obtain ⟨middle, within, collecting⟩ := ahead.tracks
      refine ⟨t, frame, k, after, ReadState.pass_of_not_first middle, ?_, collecting,
        Nat.le_of_lt within, rfl, ahead.input, ?_, ahead.processed⟩
      · simp [ReadState.bodyRead, middle]
      · intro tail whole
        have clean : CutsNoPrefix (some (frame, k)) after (missing (some (frame, k)) ++ tail) :=
          whole ▸ ahead.clean
        exact clean.tail

/-- A pass with something to read decodes a frame type that was received. -/
theorem received (ahead : Ahead malloc start old frames later t done view after)
    (some_bytes : ¬ (view = none ∧ t.input = [])) (body : t.bodyRead memory = .ok read)
    (whole : read.l = read.msg.size) : 4 ≤ read.l := by
  obtain ⟨c, frame, k, behind, -, reads, collecting, -⟩ := ahead.payload some_bytes memory
  have size : read.msg.size = frame.size := by
    rw [readBody_msg (reads.symm.trans body), collecting.size]
  have four := frame.four_le_size
  omega

/-- **A pass that goes round again** leaves whole frames ahead. -/
theorem again (ahead : Ahead malloc start old frames later t done view after)
    (plain : ∀ frame ∈ frames, ¬ frame.IsError) (round : t.pass malloc memory = .again next) :
    ∃ done' view' after', Ahead malloc start old frames later next done' view' after' := by
  by_cases nothing : view = none ∧ t.input = []
  · obtain ⟨rfl, empty⟩ := nothing
    have drained := ReadState.pass_drained malloc memory ahead.tracks empty
    rw [round] at drained
    split at drained
    · cases drained
    · obtain rfl := Next.again.inj drained
      exact ⟨done, none, after, ahead.split, ahead.input, ahead.clean, ahead.tracks.drain _,
        ahead.processed.untouched (.drain t memory _)⟩
  · obtain ⟨c, frame, k, behind, body, -, collecting, within, here, input, clean, processed⟩ :=
      ahead.payload nothing memory
    have completes : ∀ rest, c.input = frame.payload.drop k ++ rest →
        rest ++ later = encodeAll behind →
        ∃ done' view' after', Ahead malloc start old frames later next done' view' after' := by
      intro rest whole tail
      obtain ⟨read, dispatches, collected, left, -, -, same⟩ :=
        ReadState.collect_whole malloc collecting within whole
      have member : frame ∈ frames := by
        rw [ahead.split, here]
        simp
      obtain ⟨next', again, ready, kept, -, more⟩ :=
        ReadState.dispatch_frame collected (plain frame member) (processed.untouched same)
      obtain rfl := Next.again.inj (round.symm.trans (body.trans (dispatches.trans again)))
      have found : next.input = rest := kept.trans left
      refine ⟨done ++ [frame], none, behind, ?_, ?_, ?_, ready, more⟩
      · rw [ahead.split, here, partOf, List.nil_append, List.append_assoc]
        rfl
      · rw [found, tail]
        rfl
      · rw [found]
        exact clean rest whole
    rcases List.append_eq_append_iff.mp input with ⟨more, piece, tail⟩ | ⟨rest, whole, tail⟩
    · by_cases complete : more = []
      · exact completes [] (by simp [piece, complete]) (by simp [tail, complete])
      · obtain ⟨left, leaves, -⟩ := ReadState.collect_partial malloc collecting piece complete
        cases round.symm.trans (body.trans leaves)
    · exact completes rest whole tail.symm

end Ahead

/-! ## The two parts -/

section Memories

variable {malloc : Malloc} {start s s' : ReadState} {old : List PendingMessage}
  {frames done after after' : List Frame} {view : Option (Frame × ℕ)}
  {calls calls' first rest : List ReadCall} {call : ReadCall} {later : Bytes}

/-- At one place in the stream the state is the same. -/
theorem Along.sameState {taken taken' : List ReadCall}
    (here : Along malloc start old frames taken s done view after)
    (there : Along malloc start old frames taken' s' done view after') : SameState s s' := by
  have queue := here.processed.queue
  have queue' := there.processed.queue
  have log := here.processed.log.trans there.processed.log.symm
  have settings := here.processed.settings.trans there.processed.settings.symm
  have holds : ∀ messages, s.queue.Holds messages ↔ s'.queue.Holds messages := by
    intro messages
    constructor
    · intro held
      rwa [held.unique queue]
    · intro held
      rwa [held.unique queue']
  have tracks := here.tracks
  have tracks' := there.tracks
  cases view with
  | none =>
      refine ⟨tracks.1.trans tracks'.1.symm, tracks.2.trans tracks'.2.symm, ?_, holds, log, settings⟩
      intro middle
      rw [tracks.1] at middle
      cases middle
  | some part =>
      obtain ⟨frame, k⟩ := part
      obtain ⟨middle, -, collecting⟩ := tracks
      obtain ⟨middle', -, collecting'⟩ := tracks'
      refine ⟨middle.trans middle'.symm, collecting.l.trans collecting'.l.symm, ?_, holds, log,
        settings⟩
      intro _
      refine ⟨collecting.size.trans collecting'.size.symm, ?_⟩
      rw [collecting.l, Int.toNat_natCast, collecting.collected, collecting'.collected]

/-- The rest of the stream in one more call. -/
def completed (calls : List ReadCall) (later : Bytes) : List ReadCall :=
  calls ++ [⟨later, zeroMemory⟩]

theorem delivered_completed (bytes : delivered calls ++ later = encodeAll frames) :
    delivered (completed calls later) = encodeAll frames := by
  rw [completed, delivered_append, ← bytes]
  simp

theorem BoundariesOutsidePrefixes.completed (clean : BoundariesOutsidePrefixes frames calls)
    (bytes : delivered calls ++ later = encodeAll frames) :
    BoundariesOutsidePrefixes frames (completed calls later) := by
  intro first rest before frame behind split place
  rcases List.eq_nil_or_concat rest with rfl | ⟨front, last, rfl⟩
  · rw [List.append_nil] at split
    rw [← split, delivered_completed bytes]
    exact end_outside_prefixes place
  · rw [List.concat_eq_append, ← List.append_assoc, PhpNsq.completed] at split
    exact clean first front before frame behind (List.append_inj' split rfl).1 place

theorem completed_split (split : calls = first ++ call :: rest) :
    completed calls later = first ++ call :: completed rest later := by
  simp [completed, split]

/-- What is delivered depends on the chunks only. -/
theorem delivered_take (same_chunks : calls.map ReadCall.chunk = calls'.map ReadCall.chunk)
    (n : ℕ) : delivered (calls.take n) = delivered (calls'.take n) := by
  rw [delivered, delivered, List.flatMap_def, List.flatMap_def, List.map_take, List.map_take,
    same_chunks]

theorem delivered_of_chunks (same_chunks : calls.map ReadCall.chunk = calls'.map ReadCall.chunk) :
    delivered calls = delivered calls' := by
  rw [delivered, delivered, List.flatMap_def, List.flatMap_def, same_chunks]

theorem BoundariesOutsidePrefixes.of_chunks (clean : BoundariesOutsidePrefixes frames calls)
    (same_chunks : calls.map ReadCall.chunk = calls'.map ReadCall.chunk) :
    BoundariesOutsidePrefixes frames calls' := by
  have lengths := congrArg List.length same_chunks
  rw [List.length_map, List.length_map] at lengths
  apply boundariesOutsidePrefixes_iff.mpr
  intro i bound j inside
  rw [← delivered_take same_chunks]
  exact boundariesOutsidePrefixes_iff.mp clean i (lengths ▸ bound) j inside

theorem take_upto (split : calls = first ++ call :: rest) :
    calls.take (first.length + 1) = first ++ [call] := by
  rw [split, List.append_cons, List.take_left' (by simp)]

theorem upto_le (split : calls = first ++ call :: rest) : first.length + 1 ≤ calls.length := by
  rw [split, List.length_append, List.length_cons]
  omega

theorem EndsInsideFrames.of_chunks (inside : EndsInsideFrames frames calls)
    (same_chunks : calls.map ReadCall.chunk = calls'.map ReadCall.chunk) :
    EndsInsideFrames frames calls' := by
  have lengths := congrArg List.length same_chunks
  rw [List.length_map, List.length_map] at lengths
  intro first call rest split
  have bound : first.length < calls.length := lengths ▸ upto_le split
  have taken := delivered_take same_chunks (first.length + 1)
  rw [take_upto split] at taken
  rw [← taken, List.take_succ_eq_append_getElem bound]
  apply inside _ _ (calls.drop (first.length + 1))
  rw [← List.drop_eq_getElem_cons bound, List.take_append_drop]

theorem EndsInsideFrames.meetsZeros (inside : EndsInsideFrames frames calls) :
    MeetsZeros frames calls :=
  fun first call rest split ends => absurd ends (inside first call rest split)

section Delivery

variable (ready : start.Tracks none) (empty : start.input = []) (holds : start.queue.Holds old)
  (plain : ∀ frame ∈ frames, ¬ frame.IsError) (bytes : delivered calls ++ later = encodeAll frames)
  (clean : BoundariesOutsidePrefixes frames calls)

include ready empty holds plain bytes clean

/-- Every state of the delivery is along the stream. -/
theorem along_of_part (split : calls = first ++ rest) (run : Run (Readcb malloc) start first s) :
    ∃ done view after, Along malloc start old frames first s done view after := by
  have whole : completed calls later = first ++ completed rest later := by
    simp [completed, split]
  exact along_of_run ready empty holds plain (delivered_completed bytes) (clean.completed bytes)
    whole run

/-- A call that returns has met a zero, if its chunk ends with a frame. -/
theorem zero_of_returns (split : calls = first ++ call :: rest)
    (run : Run (Readcb malloc) start (first ++ [call]) s)
    (ends : EndsFrame frames (delivered (first ++ [call]))) :
    ∃ j, readI32 (call.memory.drained j) = 0 := by
  obtain ⟨before, run_first, one⟩ := run_append.mp run
  obtain ⟨done, view, after, along⟩ :=
    along_of_part ready empty holds plain bytes clean split run_first
  have next := along.next_call plain (delivered_completed bytes) (clean.completed bytes)
    (completed_split split)
  exact next.1.mp ⟨s, run_singleton.mp one⟩ ends

/-- With the zeros met, every part of the delivery runs. -/
theorem run_of_meetsZeros (zeros : MeetsZeros frames calls) (n : ℕ) :
    ∃ s, Run (Readcb malloc) start (calls.take n) s := by
  have types : ∀ first call rest, completed calls later = first ++ call :: rest →
      EndsFrame frames (delivered (first ++ [call])) →
      ∃ j, readI32 (call.memory.drained j) = 0 := by
    intro first call rest split ends
    rcases List.eq_nil_or_concat rest with rfl | ⟨front, last, rfl⟩
    · obtain ⟨-, last⟩ := List.append_inj' split rfl
      rw [← List.singleton_inj.mp last]
      have constant : readI32 (fun _ => 0) = 0 := by decide
      exact ⟨0, constant⟩
    · rw [List.concat_eq_append, ← List.cons_append, ← List.append_assoc, completed] at split
      exact zeros first call front (List.append_inj' split rfl).1 ends
  obtain ⟨last, run, -⟩ := run_of_types malloc ready empty holds plain (delivered_completed bytes)
    (clean.completed bytes) types
  rw [completed, ← List.take_append_drop n calls, List.append_assoc] at run
  obtain ⟨s, run, -⟩ := run_append.mp run
  exact ⟨s, run⟩

/-- The two parsers do the same exactly when both meet their zeros. -/
theorem sameBehaviour_iff
    (same_chunks : calls.map ReadCall.chunk = calls'.map ReadCall.chunk) :
    SameBehaviour malloc start calls calls' ↔
      MeetsZeros frames calls ∧ MeetsZeros frames calls' := by
  have lengths := congrArg List.length same_chunks
  rw [List.length_map, List.length_map] at lengths
  have bytes' : delivered calls' ++ later = encodeAll frames :=
    delivered_of_chunks same_chunks ▸ bytes
  have clean' := clean.of_chunks same_chunks
  constructor
  · intro same
    constructor
    · intro first call rest split ends
      obtain ⟨s, -, run, -, -⟩ := same (first.length + 1) (upto_le split)
      rw [take_upto split] at run
      exact zero_of_returns ready empty holds plain bytes clean split run ends
    · intro first call rest split ends
      obtain ⟨-, s, -, run, -⟩ := same (first.length + 1) (lengths ▸ upto_le split)
      rw [take_upto split] at run
      exact zero_of_returns ready empty holds plain bytes' clean' split run ends
  · rintro ⟨zeros, zeros'⟩ n -
    obtain ⟨s, run⟩ := run_of_meetsZeros ready empty holds plain bytes clean zeros n
    obtain ⟨s', run'⟩ := run_of_meetsZeros ready empty holds plain bytes' clean' zeros' n
    obtain ⟨done, view, after, here⟩ := along_of_part ready empty holds plain bytes clean
      (List.take_append_drop n calls).symm run
    obtain ⟨done', view', after', there⟩ := along_of_part ready empty holds plain bytes' clean'
      (List.take_append_drop n calls').symm run'
    obtain ⟨rfl, rfl⟩ := here.same_place there (delivered_take same_chunks n)
    exact ⟨s, s', run, run', here.sameState there⟩

/-- A call that ends inside a frame decodes received types only. -/
theorem decodesReceived_of_endsInside (inside : EndsInsideFrames frames calls) :
    DecodesReceived malloc start calls := by
  intro first call rest s t read split run passes body whole
  obtain ⟨done, view, after, along⟩ :=
    along_of_part ready empty holds plain bytes clean split run
  have tail := along.input (delivered_completed bytes) (completed_split split)
  obtain ⟨tracks, found, processed⟩ := along.receive call.chunk
  have begin : Ahead malloc start old frames (delivered (completed rest later))
      (s.receive call.chunk) done view after := by
    refine ⟨along.split, by rw [found, tail], ?_, tracks, processed⟩
    rw [found]
    exact along.cutsNoPrefix (clean.completed bytes) (completed_split split)
  have reached : ∃ done view after,
      Ahead malloc start old frames (delivered (completed rest later)) t done view after := by
    have keep : ∀ state next, (∃ done view after,
        Ahead malloc start old frames (delivered (completed rest later)) state done view after) →
        state.pass malloc call.memory = .again next → ∃ done view after,
          Ahead malloc start old frames (delivered (completed rest later)) next done view after := by
      rintro state next ⟨done, view, after, ahead⟩ round
      exact ahead.again plain round
    exact Passes.invariant keep passes ⟨_, _, _, begin⟩
  obtain ⟨done', view', after', ahead⟩ := reached
  refine ahead.received ?_ body whole
  rintro ⟨rfl, nothing⟩
  refine inside first call rest split ⟨done', after', ahead.split, ?_⟩
  have behind := ahead.input
  rw [nothing, missing, List.nil_append, List.nil_append] at behind
  have stream := delivered_completed bytes
  have place : frames = done' ++ after' := ahead.split
  rw [completed_split split, List.append_cons, delivered_append, behind, place,
    encodeAll_append] at stream
  exact List.append_cancel_right stream

/-- A call whose chunk ends with a frame decodes a type that was not received. -/
theorem not_endsFrame_of_decodesReceived (received : DecodesReceived malloc start calls)
    (split : calls = first ++ call :: rest) (run : Run (Readcb malloc) start first s) :
    ¬ EndsFrame frames (delivered (first ++ [call])) := by
  intro ends
  obtain ⟨done, view, after, along⟩ :=
    along_of_part ready empty holds plain bytes clean split run
  have so_far := delivered_completed bytes
  rw [completed_split split, List.append_cons, delivered_append] at so_far
  cases along.outcome (delivered_completed bytes) (clean.completed bytes)
      (completed_split split) with
  | exhausted now behind t here _ tail passes ready' empty' drained processed =>
      -- the pass behind the last frame of the chunk
      have four := received first call rest s t _ split run passes
        (ReadState.bodyRead_drained ready' empty') ready'.2
      have none_there : (t.drain call.memory).l = 0 := ready'.2
      omega
  | waiting now behind frame k t here _ tail _ inside empty' processed =>
      have reached := along.waiting here so_far tail inside empty' processed
      cases reached.endsFrame_iff.mp ends
  | error now behind frame t u here _ error =>
      refine absurd error (plain frame ?_)
      rw [along.split, here]
      simp

/-- **The consumer depends on received bytes only** exactly when no chunk ends with a frame. What
it does, apart from the stray frame types that it decodes, is the same exactly when every chunk that
ends with a frame is followed by fresh memory of type 0, here and there. -/
theorem memoryBlind_iff (same_chunks : calls.map ReadCall.chunk = calls'.map ReadCall.chunk) :
    (MemoryBlind malloc start calls calls' ↔ EndsInsideFrames frames calls) ∧
      (SameBehaviour malloc start calls calls' ↔
        MeetsZeros frames calls ∧ MeetsZeros frames calls') := by
  have same_iff : SameBehaviour malloc start calls calls' ↔ _ :=
    sameBehaviour_iff ready empty holds plain bytes clean same_chunks
  refine ⟨⟨?_, ?_⟩, same_iff⟩
  · intro blind first call rest split
    obtain ⟨s, -, run, -, -⟩ := blind.same first.length (by simp [split])
    rw [split, List.take_left] at run
    exact not_endsFrame_of_decodesReceived ready empty holds plain bytes clean blind.received split
      run
  · intro inside
    have same_bytes := delivered_of_chunks same_chunks
    have inside' := inside.of_chunks same_chunks
    refine ⟨same_iff.mpr ⟨inside.meetsZeros, inside'.meetsZeros⟩, ?_, ?_⟩
    · exact decodesReceived_of_endsInside ready empty holds plain bytes clean inside
    · exact decodesReceived_of_endsInside ready empty holds plain (same_bytes ▸ bytes)
        (clean.of_chunks same_chunks) inside'

end Delivery

end Memories

/-- A message cut inside its body is collected alike in memory that is zero and in memory that
is not. -/
theorem memoryBlind_cut_message :
    MemoryBlind granted (.initial settings) [⟨greeting.encode.take 36, zeroMemory⟩]
      [⟨greeting.encode.take 36, dirtyMemory⟩] := by
  have plain : ∀ frame ∈ [greeting], ¬ frame.IsError := by decide
  have bytes : delivered [⟨greeting.encode.take 36, zeroMemory⟩] ++ greeting.encode.drop 36 =
      encodeAll [greeting] := by decide
  have clean : BoundariesOutsidePrefixes [greeting] [⟨greeting.encode.take 36, zeroMemory⟩] := by
    decide
  have inside : EndsInsideFrames [greeting] [⟨greeting.encode.take 36, zeroMemory⟩] := by
    rintro first call rest split ⟨before, after, frames, cut⟩
    have whole : delivered (first ++ [call]) = greeting.encode.take 36 := by
      cases first with
      | nil =>
          obtain ⟨rfl, -⟩ := List.cons.inj split
          exact List.append_nil _
      | cons other first => simp at split
    have lengths : (encodeAll before).length = 36 := by
      rw [← cut, whole]
      decide
    cases before with
    | nil => cases lengths
    | cons frame before =>
        obtain ⟨rfl, -⟩ := List.cons.inj frames
        have size : greeting.encode.length = 39 := by decide
        rw [encodeAll_cons, List.length_append] at lengths
        omega
  have blind : (MemoryBlind granted (.initial settings) [⟨greeting.encode.take 36, zeroMemory⟩]
      [⟨greeting.encode.take 36, dirtyMemory⟩] ↔ _) ∧ _ :=
    memoryBlind_iff ⟨rfl, rfl⟩ rfl MessageQueue.Holds.initial plain bytes clean rfl
  exact blind.1.mpr inside

/-- **A heartbeat in one chunk is not handled alike** in memory that is zero and in memory that is
not. -/
theorem not_memoryBlind_heartbeat :
    ¬ ∀ memory memory', MemoryBlind granted (.initial settings) [⟨heartbeat.encode, memory⟩]
      [⟨heartbeat.encode, memory'⟩] := by
  intro always
  obtain ⟨-, s, -, run, -⟩ := (always zeroMemory dirtyMemory).same 1 (Nat.le_refl _)
  have plain : ∀ frame ∈ [heartbeat], ¬ frame.IsError := by decide
  have bytes : delivered [⟨heartbeat.encode, dirtyMemory⟩] ++ [] = encodeAll [heartbeat] := by decide
  have clean : BoundariesOutsidePrefixes [heartbeat] [⟨heartbeat.encode, dirtyMemory⟩] := by decide
  have ends : EndsFrame [heartbeat] (delivered ([] ++ [⟨heartbeat.encode, dirtyMemory⟩])) :=
    ⟨[heartbeat], [], rfl, bytes⟩
  obtain ⟨j, zero⟩ := zero_of_returns ⟨rfl, rfl⟩ rfl MessageQueue.Holds.initial plain bytes clean
    rfl run ends
  have dirty : readI32 (fun _ => 1) ≠ 0 := by decide
  exact dirty zero

end PhpNsq
