import PhpNsq.Subscriber.FramePasses

/-!
# How far one call of readcb gets

The bytes that a call finds are a beginning of the bytes still to come, and they
end nowhere strictly inside a size prefix (`CutsNoPrefix`). The call then works through whole
frames until one of three things happens (`CallOutcome`): the input ends with a
frame, the input ends inside a payload, or an error frame is complete.

`callOutcome` is the induction over the frames still to come that shows it. After the
input has ended with a frame, the call returns exactly when it comes across a fresh
buffer that happens to start with frame type 0 (`exits_drained_iff`).
-/

set_option autoImplicit false

namespace PhpNsq

open Foundations

/-! ## What is still to come -/

/-- The frame that the parser is in the middle of. -/
def partOf : Option (Frame × ℕ) → List Frame
  | none => []
  | some (frame, _) => [frame]

/-- The bytes missing from the frame that the parser is in the middle of. -/
def missing : Option (Frame × ℕ) → Bytes
  | none => []
  | some (frame, k) => frame.payload.drop k

/-- An input that ends nowhere strictly inside a size prefix, when `view` is missing
its bytes and `frames` come after them. -/
def CutsNoPrefix (view : Option (Frame × ℕ)) (frames : List Frame) (input : Bytes) : Prop :=
  ∀ before frame after, frames = before ++ frame :: after →
    ¬ ((missing view).length + (encodeAll before).length < input.length ∧
      input.length < (missing view).length + (encodeAll before).length + 4)

/-- A cut after the missing bytes is a cut in what comes after them. -/
theorem CutsNoPrefix.tail {view : Option (Frame × ℕ)} {frames : List Frame} {rest : Bytes}
    (clean : CutsNoPrefix view frames (missing view ++ rest)) : CutsNoPrefix none frames rest := by
  intro before frame after split inside
  apply clean before frame after split
  simp only [missing, List.length_nil, List.length_append] at inside ⊢
  omega

/-- A cut after the first frame is a cut in what comes after it. -/
theorem CutsNoPrefix.cons {frame : Frame} {frames : List Frame} {rest : Bytes}
    (clean : CutsNoPrefix none (frame :: frames) (frame.encode ++ rest)) :
    CutsNoPrefix none frames rest := by
  intro before other after split inside
  apply clean (frame :: before) other after (by rw [split, List.cons_append])
  simp only [missing, List.length_nil, List.length_append, encodeAll_cons] at inside ⊢
  omega

/-- An input that is not empty starts with the size prefix of the next frame. -/
theorem CutsNoPrefix.front {frame : Frame} {frames : List Frame} {input later : Bytes}
    (clean : CutsNoPrefix none (frame :: frames) input) (some_input : input ≠ [])
    (bytes : input ++ later = encodeAll (frame :: frames)) :
    ∃ rest, input = bigEndian 4 frame.size ++ rest ∧
      rest ++ later = frame.payload ++ encodeAll frames := by
  have positive : 0 < input.length := List.length_pos_iff.mpr some_input
  have long : 4 ≤ input.length := by
    have uncut := clean [] frame frames rfl
    simp only [missing, encodeAll_nil, List.length_nil, Nat.zero_add, not_and, not_lt] at uncut
    exact uncut positive
  rw [encodeAll_cons, frame.encode_eq, List.append_assoc] at bytes
  have prefixes := congrArg (List.take 4) bytes
  rw [List.take_append_of_le_length long, List.take_left' (length_bigEndian ..)] at prefixes
  have tails := congrArg (List.drop 4) bytes
  rw [List.drop_append_of_le_length long, List.drop_left' (length_bigEndian ..)] at tails
  exact ⟨input.drop 4, by rw [← prefixes, List.take_append_drop], tails⟩

namespace ReadState

variable {malloc : Malloc} {memory : Memory} {s start : ReadState} {old : List PendingMessage}
  {done frames : List Frame} {later : Bytes}

/-- After the frames `now`, an error frame is complete in `u`. The pass that completed it
started in `t`, either ready or, as the first of the call, wherever the parser was. -/
structure CompletesError (malloc : Malloc) (memory : Memory) (start : ReadState)
    (old : List PendingMessage) (done now : List Frame) (frame : Frame) (s t u : ReadState) :
    Prop where
  passes : Passes (pass malloc memory) s t
  origin : now ≠ [] ∧ t.Tracks none ∨ now = [] ∧ t = s
  longer : u.input.length < t.input.length
  round : t.pass malloc memory = u.dispatch malloc
  complete : u.Collecting frame frame.size
  first : u.isFirst = t.isFirst
  processed : Processed malloc start old (done ++ now) u

/-- What becomes of a call that starts its passes in `s`, with `frames` to come after the
ones `done` and the bytes `later` to arrive after the call. -/
inductive CallOutcome (malloc : Malloc) (memory : Memory) (start : ReadState)
    (old : List PendingMessage) (done frames : List Frame) (later : Bytes) (s : ReadState) : Prop
  /-- The input ends with a frame, and the loop goes on. -/
  | exhausted (now after : List Frame) (t : ReadState) (split : frames = now ++ after)
      (plain : ∀ frame ∈ now, ¬ frame.IsError) (rest : later = encodeAll after)
      (passes : Passes (pass malloc memory) s t)
      (ready : t.Tracks none) (empty : t.input = []) (drained : t.drained = s.drained)
      (processed : Processed malloc start old (done ++ now) t)
  /-- The input ends inside a payload, and the call returns. -/
  | waiting (now after : List Frame) (frame : Frame) (k : ℕ) (t : ReadState)
      (split : frames = now ++ frame :: after) (plain : ∀ frame ∈ now, ¬ frame.IsError)
      (rest : later = frame.payload.drop k ++ encodeAll after)
      (returns : Exits (pass malloc memory) s (.ok t)) (inside : t.Tracks (some (frame, k)))
      (empty : t.input = []) (processed : Processed malloc start old (done ++ now) t)
  /-- An error frame is complete. -/
  | error (now after : List Frame) (frame : Frame) (t u : ReadState)
      (split : frames = now ++ frame :: after) (plain : ∀ frame ∈ now, ¬ frame.IsError)
      (error : frame.IsError) (rest : u.input ++ later = encodeAll after)
      (completes : CompletesError malloc memory start old done now frame s t u)

/-- A pass in front of an outcome that starts ready. -/
theorem CallOutcome.again {next : ReadState} {frame : Frame} (clear : ¬ frame.IsError)
    (round : s.pass malloc memory = .again next) (ready : next.Tracks none)
    (drained : next.drained = s.drained)
    (outcome : CallOutcome malloc memory start old (done ++ [frame]) frames later next) :
    CallOutcome malloc memory start old done (frame :: frames) later s := by
  have clear_cons : ∀ now : List Frame, (∀ other ∈ now, ¬ other.IsError) →
      ∀ other ∈ frame :: now, ¬ other.IsError := by
    intro now plain other member
    rcases List.mem_cons.mp member with rfl | later
    · exact clear
    · exact plain other later
  cases outcome with
  | exhausted now after t split plain rest passes ready' empty drained' processed =>
      refine .exhausted (frame :: now) after t (by rw [split, List.cons_append])
        (clear_cons now plain) rest (.head round passes) ready' empty (drained'.trans drained) ?_
      simpa using processed
  | waiting now after other k t split plain rest returns inside empty processed =>
      refine .waiting (frame :: now) after other k t (by rw [split, List.cons_append])
        (clear_cons now plain) rest ((exits_of_again round).mpr returns) inside empty ?_
      simpa using processed
  | error now after other t u split plain error rest completes =>
      refine .error (frame :: now) after other t u (by rw [split, List.cons_append])
        (clear_cons now plain) error rest { completes with
          passes := .head round completes.passes
          origin := .inl ⟨List.cons_ne_nil _ _, ?_⟩
          processed := by simpa using completes.processed }
      rcases completes.origin with ⟨-, tracks⟩ | ⟨-, same⟩
      · exact tracks
      · exact same ▸ ready

/-- A complete payload is dispatched; `go_on` is the outcome of the call after that. -/
theorem callOutcome_complete {c : ReadState} {frame : Frame} {k : ℕ} {rest : Bytes}
    (body : s.pass malloc memory = c.collect malloc) (collecting : c.Collecting frame k)
    (within : k ≤ frame.size) (whole : c.input = frame.payload.drop k ++ rest)
    (tail : rest ++ later = encodeAll frames) (longer : rest.length < s.input.length)
    (first : c.isFirst = s.isFirst) (drained : c.drained = s.drained)
    (processed : Processed malloc start old done c)
    (go_on : ∀ next : ReadState, next.Tracks none → next.input = rest →
      Processed malloc start old (done ++ [frame]) next →
      CallOutcome malloc memory start old (done ++ [frame]) frames later next) :
    CallOutcome malloc memory start old done (frame :: frames) later s := by
  obtain ⟨read, dispatches, collected, left, isFirst, drained', same⟩ :=
    collect_whole malloc collecting within whole
  have processed' := processed.untouched same
  by_cases error : frame.IsError
  · exact .error [] frames frame s read rfl (by simp) error (by rw [left, tail])
      { passes := .refl
        origin := .inr ⟨rfl, rfl⟩
        longer := by rwa [left]
        round := body.trans dispatches
        complete := collected
        first := isFirst.trans first
        processed := by simpa using processed' }
  · obtain ⟨next, again, ready, input, drained'', more⟩ :=
      dispatch_frame collected error processed'
    exact CallOutcome.again error (body.trans (dispatches.trans again)) ready
      (drained''.trans (drained'.trans drained)) (go_on next ready (input.trans left) more)

/-- A payload is completed, or the input runs out inside it. -/
theorem callOutcome_payload {c : ReadState} {frame : Frame} {k : ℕ}
    (body : s.pass malloc memory = c.collect malloc) (collecting : c.Collecting frame k)
    (within : k ≤ frame.size) (input : c.input ++ later = frame.payload.drop k ++ encodeAll frames)
    (longer : ∀ rest, c.input = frame.payload.drop k ++ rest → rest.length < s.input.length)
    (first : c.isFirst = s.isFirst) (drained : c.drained = s.drained)
    (processed : Processed malloc start old done c)
    (go_on : ∀ (next : ReadState) (rest : Bytes), c.input = frame.payload.drop k ++ rest →
      rest ++ later = encodeAll frames → next.Tracks none → next.input = rest →
      Processed malloc start old (done ++ [frame]) next →
      CallOutcome malloc memory start old (done ++ [frame]) frames later next) :
    CallOutcome malloc memory start old done (frame :: frames) later s := by
  rcases List.append_eq_append_iff.mp input with ⟨more, payload, tail⟩ | ⟨rest, whole, tail⟩
  · by_cases nothing : more = []
    · have whole : c.input = frame.payload.drop k ++ [] := by simp [payload, nothing]
      have tail' : [] ++ later = encodeAll frames := by simp [tail, nothing]
      exact callOutcome_complete body collecting within whole tail' (longer _ whole) first
        drained processed fun next => go_on next [] whole tail'
    · obtain ⟨left, leaves, inside, empty, same⟩ :=
        collect_partial malloc collecting payload nothing
      refine .waiting [] frames frame (k + c.input.length) left rfl (by simp) ?_
        ((exits_of_leave (body.trans leaves)).mpr rfl) inside empty ?_
      · rw [← List.drop_drop, payload, List.drop_left, tail]
      · simpa using processed.untouched same
  · exact callOutcome_complete body collecting within whole tail.symm (longer _ whole) first
      drained processed fun next => go_on next rest whole tail.symm

/-- The outcome of the passes from a state that is ready for a size prefix. -/
theorem callOutcome_ready (ready : s.Tracks none) (input : s.input ++ later = encodeAll frames)
    (clean : CutsNoPrefix none frames s.input) (processed : Processed malloc start old done s) :
    CallOutcome malloc memory start old done frames later s := by
  induction frames generalizing s done with
  | nil =>
      obtain ⟨empty, nothing⟩ := List.append_eq_nil_iff.mp input
      exact .exhausted [] [] s rfl (by simp) nothing .refl ready empty rfl (by simpa using processed)
  | cons frame frames ih =>
      by_cases empty : s.input = []
      · refine .exhausted [] (frame :: frames) s rfl (by simp) ?_ .refl ready empty rfl ?_
        · simpa [empty] using input
        · simpa using processed
      obtain ⟨rest, starts, payload⟩ := clean.front empty input
      obtain ⟨opened, body, collecting, left, first, drained, same⟩ :=
        pass_prefix malloc memory ready starts
      refine callOutcome_payload body collecting (Nat.zero_le _) ?_ ?_ (first.trans ready.1.symm)
        drained (processed.untouched same) ?_
      · rw [left, List.drop_zero, payload]
      · intro tail whole
        rw [starts, ← left, whole]
        simp only [List.length_append, length_bigEndian]
        omega
      · intro next tail whole tails ready' input' processed'
        have remaining : s.input = frame.encode ++ tail := by
          rw [List.drop_zero, left] at whole
          rw [starts, whole, frame.encode_eq, List.append_assoc]
        have clean' : CutsNoPrefix none frames tail := (remaining ▸ clean).cons
        exact ih ready' (by rw [input', tails]) (input' ▸ clean') processed'

/-- **The outcome of a call**, wherever the parser is when it starts. -/
theorem callOutcome {view : Option (Frame × ℕ)} (tracks : s.Tracks view)
    (input : s.input ++ later = missing view ++ encodeAll frames)
    (clean : CutsNoPrefix view frames s.input) (processed : Processed malloc start old done s) :
    CallOutcome malloc memory start old done (partOf view ++ frames) later s := by
  cases view with
  | none => exact callOutcome_ready tracks input clean processed
  | some part =>
      obtain ⟨frame, k⟩ := part
      obtain ⟨middle, within, collecting⟩ := tracks
      refine callOutcome_payload (pass_of_not_first middle) collecting (Nat.le_of_lt within) input
        ?_ rfl rfl processed ?_
      · intro tail whole
        rw [whole, List.length_append, List.length_drop, Frame.length_payload]
        omega
      intro next rest whole tails ready input' processed'
      have clean' : CutsNoPrefix (some (frame, k)) frames (missing (some (frame, k)) ++ rest) :=
        whole ▸ clean
      exact callOutcome_ready ready (by rw [input', tails]) (input' ▸ clean'.tail) processed'

/-! ## With nothing left to read -/

/-- A call that is left without input asks for buffers until one starts with frame type 0, and what
it leaves is ready again. -/
theorem exits_drained (ready : s.Tracks none) (empty : s.input = []) {left : ReadState}
    (exit : Exits (pass malloc memory) s (.ok left)) :
    (∃ j, s.drained ≤ j ∧ readI32 (memory.drained j) = 0) ∧
      left.Tracks none ∧ left.input = [] ∧ Untouched s left := by
  obtain ⟨fuel, exit⟩ := exit
  induction fuel generalizing s with
  | zero => cases exit
  | succ fuel ih =>
      rw [iterate, pass_drained malloc memory ready empty] at exit
      by_cases zero : readI32 (memory.drained s.drained) = 0
      · rw [if_pos zero] at exit
        obtain rfl := Except.ok.inj (Option.some.inj exit)
        exact ⟨⟨s.drained, Nat.le_refl _, zero⟩, ready.drain _, empty, Untouched.drain s memory _⟩
      · rw [if_neg zero] at exit
        obtain ⟨⟨j, bound, found⟩, ready', empty', same⟩ := ih (ready.drain _) (by exact empty) exit
        exact ⟨⟨j, Nat.le_of_succ_le bound, found⟩, ready', empty',
          (Untouched.drain s memory _).trans same⟩

theorem exits_of_drained_zero (ready : s.Tracks none) (empty : s.input = [])
    (zero : readI32 (memory.drained s.drained) = 0) :
    ∃ left, Exits (pass malloc memory) s (.ok left) := by
  have leaves := pass_drained malloc memory ready empty
  rw [if_pos zero] at leaves
  exact ⟨_, (exits_of_leave leaves).mpr rfl⟩

/-- **A call that is left without input returns if and only if one of the buffers it
still asks for starts with frame type 0.** -/
theorem exits_drained_iff (ready : s.Tracks none) (empty : s.input = []) :
    (∃ left, Exits (pass malloc memory) s (.ok left)) ↔
      ∃ j, s.drained ≤ j ∧ readI32 (memory.drained j) = 0 := by
  constructor
  · rintro ⟨left, exit⟩
    exact (exits_drained ready empty exit).1
  · rintro ⟨j, bound, found⟩
    induction distance : j - s.drained generalizing s with
    | zero =>
        have here : j = s.drained := by omega
        exact exits_of_drained_zero ready empty (here ▸ found)
    | succ gap ih =>
        by_cases zero : readI32 (memory.drained s.drained) = 0
        · exact exits_of_drained_zero ready empty zero
        · have later : s.drained + 1 ≤ j := by omega
          have closer : j - (s.drained + 1) = gap := by omega
          have round := pass_drained malloc memory ready empty
          rw [if_neg zero] at round
          obtain ⟨left, exit⟩ := ih (ready.drain _) (by exact empty) later closer
          exact ⟨left, (exits_of_again round).mpr exit⟩

end ReadState

end PhpNsq
