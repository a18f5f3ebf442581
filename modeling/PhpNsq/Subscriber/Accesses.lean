import PhpNsq.Subscriber.CutPrefixes
import PhpNsq.Subscriber.Mirroring

/-!
# What readcb does with an untrusted size

The size of a frame comes from the peer as 32 bits and is used as an `int`: `msg->size + 1`
bytes are asked for, `msg->size` of them cleared, `msg->size - l` read, and a message of
type 2 is taken apart at fixed offsets up to `msg->size - 30`. No length is checked.

`accesses` lists what one pass asks for and where it touches `message`, in the order of the source;
an access is `Safe` when its length is not negative and it stays inside the `msg->size` bytes of
the buffer. `safeDelivery_iff` says for which frames, and which deliveries of them, every access is
safe.
-/

set_option autoImplicit false

namespace PhpNsq

open Foundations

/-- What is done with a length or with the message buffer. -/
inductive Access where
  /-- `emalloc`, `malloc`, `memset`, `memcpy` or `bufferevent_read` with a length. -/
  | length (n : ℤ)
  /-- `count` bytes of `message` from `offset` on, when `msg->size` is `size`. -/
  | message (size offset count : ℤ)
  /-- `enqueue_message` with a body length, when `msg->size` is `size`. -/
  | enqueue (size bodyLen : ℤ)

/-- The length is not negative, the bytes are inside `[0, size)`, the message has its 30 bytes of
header and the body is the rest. -/
def Access.Safe : Access → Prop
  | .length n => 0 ≤ n
  | .message size offset count => 0 ≤ count ∧ (count = 0 ∨ 0 ≤ offset ∧ offset + count ≤ size)
  | .enqueue size bodyLen => 30 ≤ size ∧ bodyLen = size - 30

/-- `msg->size + 1` in an `int`. -/
def intSucc (n : ℤ) : ℤ := (n + 1).bmod (2 ^ 32)

namespace ReadState

variable (s : ReadState)

/-- The block under `if (is_first)`. -/
def openAccesses : List Access :=
  let size := readI32 (Cells.store (fun _ => 0) 0 (s.input.take (s.available 4)))
  [.length 4, .length 4, .length 4, .length (intSucc size), .length size, .message size 0 size]

/-- The body read. -/
def bodyAccesses : List Access :=
  let length := s.msg.size - s.l
  [.length length, .message s.msg.size s.l (s.available length)]

/-- The branch of frame type 2. -/
def messageAccesses (malloc : Malloc) : List Access :=
  let size := s.msg.size
  [.length 17, .message size 4 8, .message size 12 2, .length 16, .message size 14 16,
    .length (size - 30 + 1)] ++
  if size < 29 ∨ (malloc s.dispatched).body = false then []
  else [.length (size - 30 + 1), .length (size - 30), .message size 30 (size - 30),
    .enqueue size (size - 30)]

/-- From the frame type on. -/
def dispatchAccesses (malloc : Malloc) : List Access :=
  .message s.msg.size 0 4 :: if readI32 s.message = 2 then s.messageAccesses malloc else []

/-- From the body read on. -/
def collectAccesses (malloc : Malloc) : List Access :=
  s.bodyAccesses ++
    match s.readBody with
    | .error _ => []
    | .ok read => if read.l = read.msg.size then read.dispatchAccesses malloc else []

/-- The accesses of one pass, as far as it gets. -/
def accesses (malloc : Malloc) (memory : Memory) : List Access :=
  if s.isFirst = true then
    s.openAccesses ++
      match s.openBuffer memory with
      | .error _ => []
      | .ok opened => opened.collectAccesses malloc
  else s.collectAccesses malloc

end ReadState

/-- All of them are safe. -/
def AllSafe (accesses : List Access) : Prop := ∀ access ∈ accesses, access.Safe

/-- Every pass of a loop is safe that starts in this state. -/
def SafeFrom (malloc : Malloc) (memory : Memory) (s : ReadState) : Prop :=
  ∀ t, Passes (ReadState.pass malloc memory) s t → AllSafe (t.accesses malloc memory)

/-- Every pass of every call is safe. -/
def SafeDelivery (malloc : Malloc) (start : ReadState) (calls : List ReadCall) : Prop :=
  ∀ first call rest s, calls = first ++ call :: rest → Run (Readcb malloc) start first s →
    SafeFrom malloc call.memory (s.receive call.chunk)

/-- The type of a body: that of its first bytes. -/
def typeOf (body : Bytes) : ℤ := readI32 (Cells.store (fun _ => 0) 0 (body.take 4))

/-- The bits of a size as an `int`. -/
def asInt (bits : UInt32) : ℤ := (bits.toNat : ℤ).bmod (2 ^ 32)

/-- A frame with any size, and so many bytes of body as an `int` of this size says. -/
structure PeerFrame where
  bits : UInt32
  body : Bytes
  whole : 0 ≤ asInt bits → (body.length : ℤ) = asInt bits

namespace PeerFrame

variable (frame : PeerFrame)

def size : ℤ := asInt frame.bits

def frameType : ℤ := typeOf frame.body

def encode : Bytes := bigEndian 4 frame.bits.toNat ++ frame.body

end PeerFrame

/-- No boundary between two chunks falls strictly inside the first size prefix. -/
def PrefixUncut (calls : List ReadCall) : Prop :=
  ∀ first rest, calls = first ++ rest →
    ¬ (0 < (delivered first).length ∧ (delivered first).length < 4)

/-- The definition as a check of every boundary. -/
theorem prefixUncut_iff {calls : List ReadCall} :
    PrefixUncut calls ↔ ∀ i < calls.length + 1,
      ¬ (0 < (delivered (calls.take i)).length ∧ (delivered (calls.take i)).length < 4) := by
  constructor
  · intro uncut i _
    exact uncut (calls.take i) (calls.drop i) (List.take_append_drop i calls).symm
  · intro check first rest split
    have bound : first.length < calls.length + 1 := by
      rw [split, List.length_append]
      omega
    have here := check first.length bound
    rwa [split, List.take_left] at here

instance (calls : List ReadCall) : Decidable (PrefixUncut calls) :=
  decidable_of_iff' _ prefixUncut_iff

/-- Frames and deliveries that do no harm: the first call finds a prefix, its size is one that
can be allocated, and if the frame is completed then it has a type without a branch and is
not complete in the first chunk. -/
def PeerFrame.Harmless (frame : PeerFrame) (calls : List ReadCall) (later : Bytes) : Prop :=
  ∀ first rest, calls = first :: rest →
    first.chunk ≠ [] ∧ 0 ≤ frame.size ∧ frame.size < intMax ∧
      (later = [] → 4 ≤ frame.size ∧ frame.frameType ≠ 0 ∧ frame.frameType ≠ 2 ∧
        first.chunk.length < frame.encode.length)

theorem PeerFrame.harmless_nil {frame : PeerFrame} {later : Bytes} :
    frame.Harmless [] later := by
  intro first rest split
  cases split

theorem PeerFrame.harmless_cons {frame : PeerFrame} {call : ReadCall} {calls : List ReadCall}
    {later : Bytes} :
    frame.Harmless (call :: calls) later ↔
      call.chunk ≠ [] ∧ 0 ≤ frame.size ∧ frame.size < intMax ∧
        (later = [] → 4 ≤ frame.size ∧ frame.frameType ≠ 0 ∧ frame.frameType ≠ 2 ∧
          call.chunk.length < frame.encode.length) := by
  constructor
  · intro harmless
    exact harmless call calls rfl
  · rintro harmless first rest split
    obtain ⟨rfl, rfl⟩ := List.cons.inj split
    exact harmless

/-! ## Lists of accesses -/

@[simp] theorem allSafe_nil : AllSafe [] := List.forall_mem_nil _

@[simp] theorem allSafe_cons {access : Access} {accesses : List Access} :
    AllSafe (access :: accesses) ↔ access.Safe ∧ AllSafe accesses := List.forall_mem_cons

@[simp] theorem allSafe_append {first second : List Access} :
    AllSafe (first ++ second) ↔ AllSafe first ∧ AllSafe second := List.forall_mem_append

theorem Access.safe_zero : (Access.length 0).Safe := le_refl (0 : ℤ)

theorem Access.safe_nothing (size offset : ℤ) : (Access.message size offset 0).Safe :=
  ⟨le_refl _, .inl rfl⟩

/-- The frame type is inside a buffer of at least four bytes. -/
theorem Access.safe_frameType {size : ℤ} : (Access.message size 0 4).Safe ↔ 4 ≤ size := by
  simp [Safe]

/-! ## From pass to pass, and from call to call -/

section Loop

variable {malloc : Malloc} {memory : Memory} {s next : ReadState}

theorem safeFrom_of_leave {result : Except Fault ReadState}
    (leaves : s.pass malloc memory = .leave result) :
    SafeFrom malloc memory s ↔ AllSafe (s.accesses malloc memory) := by
  constructor
  · intro safe
    exact safe s .refl
  · intro safe t passes
    cases passes.cases_head with
    | inl same => exact same ▸ safe
    | inr more =>
        obtain ⟨_, round, -⟩ := more
        cases leaves.symm.trans round

theorem safeFrom_of_again (round : s.pass malloc memory = .again next) :
    SafeFrom malloc memory s ↔
      AllSafe (s.accesses malloc memory) ∧ SafeFrom malloc memory next := by
  constructor
  · intro safe
    exact ⟨safe s .refl, fun t passes => safe t (.head round passes)⟩
  · rintro ⟨here, later⟩ t passes
    cases passes.cases_head with
    | inl same => exact same ▸ here
    | inr more =>
        obtain ⟨other, round', passes⟩ := more
        obtain rfl := Next.again.inj (round.symm.trans round')
        exact later t passes

theorem safeDelivery_nil : SafeDelivery malloc s [] := by
  intro first call rest t split
  simp at split

theorem safeDelivery_cons {call : ReadCall} {calls : List ReadCall} :
    SafeDelivery malloc s (call :: calls) ↔ SafeFrom malloc call.memory (s.receive call.chunk) ∧
      ∀ next, Readcb malloc s call next → SafeDelivery malloc next calls := by
  constructor
  · intro safe
    refine ⟨safe [] call calls s rfl rfl, ?_⟩
    intro next returns first other rest t split run
    exact safe (call :: first) other rest t (by rw [split]; rfl) ⟨next, returns, run⟩
  · rintro ⟨here, later⟩ first other rest t split run
    cases first with
    | nil =>
        obtain ⟨rfl, rfl⟩ := List.cons.inj split
        obtain rfl := run_nil.mp run
        exact here
    | cons one first =>
        obtain ⟨rfl, rfl⟩ := List.cons.inj split
        obtain ⟨next, returns, run⟩ := run
        exact later next returns first other rest t rfl run

/-- A call whose only pass is safe leaves a delivery as safe as the rest of it. -/
theorem safeDelivery_of_leave {call : ReadCall} {calls : List ReadCall} {left : ReadState}
    (leaves : (s.receive call.chunk).pass malloc call.memory = .leave (.ok left))
    (safe : AllSafe ((s.receive call.chunk).accesses malloc call.memory)) :
    SafeDelivery malloc s (call :: calls) ↔ SafeDelivery malloc left calls := by
  rw [safeDelivery_cons, and_iff_right ((safeFrom_of_leave leaves).mpr safe)]
  constructor
  · intro rest
    exact rest left ((exits_of_leave leaves).mpr rfl)
  · intro rest next returns
    obtain rfl := Except.ok.inj ((exits_of_leave leaves).mp returns)
    exact rest

end Loop

/-! ## The body read -/

section Passes

variable {malloc : Malloc} {memory : Memory} {s c : ReadState} {body piece more : Bytes} {k : ℕ}

theorem ReadState.accesses_of_not_first (middle : s.isFirst = false) :
    s.accesses malloc memory = s.collectAccesses malloc := by
  simp [accesses, middle]

theorem ReadState.accesses_of_openBuffer {opened : ReadState} (first : s.isFirst = true)
    (open_ok : s.openBuffer memory = .ok opened) :
    s.accesses malloc memory = s.openAccesses ++ opened.collectAccesses malloc := by
  simp [accesses, first, open_ok]

theorem SafeFrom.openAccesses (safe : SafeFrom malloc memory s) (first : s.isFirst = true) :
    AllSafe s.openAccesses := by
  have here := safe s .refl
  rw [ReadState.accesses, if_pos first, allSafe_append] at here
  exact here.1

theorem ReadState.collectAccesses_of_readBody {read : ReadState} (body : c.readBody = .ok read) :
    c.collectAccesses malloc = c.bodyAccesses ++
      if read.l = read.msg.size then read.dispatchAccesses malloc else [] := by
  simp [collectAccesses, body]

/-- The read of a body stays inside the buffer. -/
theorem ReadState.Holding.bodyAccesses_safe (holding : c.Holding body k)
    (count : c.available (c.msg.size - c.l) = piece.length)
    (within : k + piece.length ≤ body.length) : AllSafe c.bodyAccesses := by
  rw [bodyAccesses, count, holding.size, holding.l]
  simp only [allSafe_cons, allSafe_nil, Access.Safe, and_true]
  omega

/-- A part of a body is read safely, and the call returns. -/
theorem ReadState.Holding.partial_body (holding : c.Holding body k)
    (payload : body.drop k = c.input ++ more) (some_more : more ≠ []) (within : k ≤ body.length)
    (malloc : Malloc) :
    AllSafe (c.collectAccesses malloc) ∧ ∃ left, c.collect malloc = .leave (.ok left) ∧
      left.isFirst = false ∧ left.Holding body (k + c.input.length) ∧
      k + c.input.length < body.length ∧ left.input = [] ∧ left.queue = c.queue := by
  have total := congrArg List.length payload
  have positive : 0 < more.length := List.length_pos_iff.mpr some_more
  rw [List.length_drop, List.length_append] at total
  obtain ⟨count, taken, reads, left⟩ :=
    readBody_holding holding (List.append_nil _).symm payload within (.inr rfl)
  have short : (c.takeBody c.input.length).l < (c.takeBody c.input.length).msg.size := by
    rw [reads.l, reads.size]
    omega
  constructor
  · rw [collectAccesses_of_readBody taken, if_neg (by omega), List.append_nil]
    exact holding.bodyAccesses_safe count (by omega)
  · refine ⟨{ c.takeBody c.input.length with isFirst := false }, ?_, rfl,
      ⟨reads.l, reads.size, reads.room, reads.collected⟩, by omega, left, rfl⟩
    rw [collect_of_readBody taken, if_pos short]

/-- The rest of a body is read safely, and a frame type is decoded. -/
theorem ReadState.Holding.whole_body (holding : c.Holding body k) (payload : body.drop k = c.input)
    (within : k ≤ body.length) (malloc : Malloc) :
    ∃ read : ReadState, c.collect malloc = read.dispatch malloc ∧ read.Holding body body.length ∧
      read.input = [] ∧ read.isFirst = c.isFirst ∧ read.queue = c.queue ∧
      (AllSafe (c.collectAccesses malloc) ↔ AllSafe (read.dispatchAccesses malloc)) := by
  have total := congrArg List.length payload
  rw [List.length_drop] at total
  have place : k + c.input.length = body.length := by omega
  obtain ⟨count, taken, reads, left⟩ := readBody_holding holding (List.append_nil _).symm
    (payload.trans (List.append_nil _).symm) within (.inr rfl)
  rw [place] at reads
  have whole : (c.takeBody c.input.length).l = (c.takeBody c.input.length).msg.size := by
    rw [reads.l, reads.size]
  refine ⟨c.takeBody c.input.length, ?_, reads, left, rfl, rfl, ?_⟩
  · rw [collect_of_readBody taken, if_neg (by omega), if_pos whole]
  · rw [collectAccesses_of_readBody taken, if_pos whole, allSafe_append]
    exact and_iff_right (holding.bodyAccesses_safe count (by omega))

/-! ## The frame type -/

theorem ReadState.Holding.readI32_message (holding : c.Holding body body.length)
    (four : 4 ≤ body.length) : readI32 c.message = typeOf body := by
  have length : (body.take 4).length = 4 := List.length_take_of_le four
  have stored := Cells.slice_store_self (fun _ => (0 : UInt8)) 0 (body.take 4)
  rw [length] at stored
  have front : c.message.slice 0 4 = body.take 4 := by
    obtain ⟨rest, long⟩ := Nat.exists_eq_add_of_le four
    have whole := holding.collected
    rw [List.take_length, long, Cells.slice_add] at whole
    rw [← whole, List.take_left' (Cells.length_slice ..)]
  rw [readI32_eq, typeOf, readI32_eq, front, stored]

/-- A buffer of size zero is too short for a frame type. -/
theorem not_safeFrom_drained (ready : s.Tracks none) (empty : s.input = []) :
    ¬ SafeFrom malloc memory s := by
  intro safe
  have here := safe s .refl
  have body := ReadState.readBody_drain ready.2 empty memory
  have whole : (s.drain memory).l = (s.drain memory).msg.size := ready.2
  rw [ReadState.accesses_of_openBuffer ready.1 (ReadState.openBuffer_drained empty),
    ReadState.collectAccesses_of_readBody body, if_pos whole, allSafe_append, allSafe_append] at here
  have decode := here.2.2 _ List.mem_cons_self
  simp [Access.Safe, ReadState.drain] at decode

/-- A second buffer that is opened over a complete body is read with a negative length. -/
theorem not_safeFrom_reopened (first : s.isFirst = true) (positive : 0 < s.l)
    (empty : s.input = []) (frameType : ℤ) : ¬ SafeFrom malloc memory (s.noteType frameType) := by
  intro safe
  have here := safe _ .refl
  have again : (s.noteType frameType).isFirst = true := first
  rw [ReadState.accesses_of_openBuffer again (ReadState.openBuffer_drained empty),
    ReadState.collectAccesses, allSafe_append, allSafe_append] at here
  have negative := here.2.1 _ List.mem_cons_self
  simp only [Access.Safe, ReadState.drain, ReadState.noteType_l] at negative
  omega

/-- A complete body of a type without a branch is read safely for ever, in a buffer that an earlier
call opened. -/
theorem safeFrom_of_holdsBody {message : Cells UInt8} (holds : s.HoldsBody message)
    (four : 4 ≤ s.msg.size) (response : readI32 message ≠ 0) (business : readI32 message ≠ 2)
    (frameType : ℤ) : SafeFrom malloc memory (s.noteType frameType) := by
  have keep : ∀ state next : ReadState, state.HoldsBody message ∧ 4 ≤ state.msg.size →
      state.pass malloc memory = .again next → next.HoldsBody message ∧ 4 ≤ next.msg.size := by
    rintro state next ⟨body, long⟩ round
    have round' := (body.pass response business malloc memory).2
    obtain rfl := Next.again.inj (round'.symm.trans round)
    exact ⟨body.noteType _, by rwa [ReadState.noteType_size]⟩
  intro t passes
  obtain ⟨body, long⟩ := Passes.invariant keep passes ⟨holds.noteType frameType, four⟩
  have whole := body.whole
  have length : t.msg.size - t.l = 0 := by rw [whole, Int.sub_self]
  have nothing : t.available 0 = 0 := by
    rw [ReadState.available, if_neg (lt_irrefl _)]
    exact Nat.zero_min _
  have other : readI32 t.message ≠ 2 := body.contents ▸ business
  rw [ReadState.accesses_of_not_first body.middle,
    ReadState.collectAccesses_of_readBody (body.pass response business malloc memory).1,
    if_pos whole, ReadState.bodyAccesses, ReadState.dispatchAccesses, if_neg other, length, nothing]
  simp only [allSafe_append, allSafe_cons, allSafe_nil, and_true, Nat.cast_zero]
  exact ⟨⟨Access.safe_zero, Access.safe_nothing _ _⟩, Access.safe_frameType.mpr long⟩

/-- After a response with a size the parser is ready again. -/
theorem dispatchOn_zero (some_size : c.msg.size ≠ 0) (malloc : Malloc) :
    ∃ next, c.dispatchOn malloc 0 = .again next ∧ next.Tracks none ∧ next.input = c.input := by
  simp only [ReadState.dispatchOn, if_true, ReadState.dispatchResponse, ne_eq, if_pos some_size]
  exact ⟨_, rfl, ⟨rfl, rfl⟩, rfl⟩

/-- A message of at least 30 bytes is taken apart, and the parser is ready again. -/
theorem dispatchMessage_again (long : 30 ≤ c.msg.size) (held : ∃ waiting, c.queue.Holds waiting)
    (malloc : Malloc) : ∃ next, c.dispatchMessage malloc = .again next ∧ next.Tracks none ∧
      next.input = c.input := by
  have enough : ¬ c.msg.size < 29 := by omega
  have longer : c.msg.size ≠ 29 := by omega
  cases granted : (malloc c.dispatched).body with
  | false =>
      refine ⟨{ c.restart with dispatched := c.dispatched + 1 }, ?_, ⟨rfl, rfl⟩, rfl⟩
      simp [ReadState.dispatchMessage, enough, granted]
  | true =>
      obtain ⟨queue, enqueued, -⟩ := MessageQueue.exists_enqueueMessage held
        (malloc c.dispatched).node (malloc c.dispatched).nodeBody (c.message.slice 14 16)
        (c.message.slice 30 (c.msg.size - 30).toNat) (c.msg.size - 30).toNat
        (ntoh64 (c.message.advance 4)).toInt64 (readI16 (c.message.advance 12)) c.msg.delayTime
        c.msg.autoFinish
      simp only [ReadState.dispatchMessage, if_neg enough, granted, if_neg longer, enqueued,
        Bool.true_eq_false, if_false]
      exact ⟨_, rfl, ⟨rfl, rfl⟩, rfl⟩

/-- **A complete body** is handled safely exactly when it has a type, which has no branch, and an
earlier call opened the buffer. -/
theorem safeFrom_complete (pass : s.pass malloc memory = c.dispatch malloc)
    (accesses : AllSafe (s.accesses malloc memory) ↔ AllSafe (c.dispatchAccesses malloc))
    (holding : c.Holding body body.length) (empty : c.input = [])
    (held : ∃ waiting, c.queue.Holds waiting) (first : c.isFirst = s.isFirst) :
    SafeFrom malloc memory s ↔
      4 ≤ body.length ∧ typeOf body ≠ 0 ∧ typeOf body ≠ 2 ∧ s.isFirst = false := by
  have whole : c.l = c.msg.size := holding.l.trans holding.size.symm
  by_cases four : 4 ≤ body.length
  · have size : 4 ≤ c.msg.size := by
      rw [holding.size]
      exact_mod_cast four
    have positive : 0 < c.l := by omega
    have decoded := holding.readI32_message four
    rw [ReadState.dispatch, decoded] at pass
    by_cases zero : typeOf body = 0
    · -- the pass behind it finds nothing to read
      refine iff_of_false ?_ fun safe => safe.2.1 zero
      have some_size : c.msg.size ≠ 0 := (lt_of_lt_of_le (by norm_num) size).ne'
      rw [zero] at pass
      obtain ⟨next, round, ready, left⟩ := dispatchOn_zero some_size malloc
      intro safe
      exact not_safeFrom_drained ready (left.trans empty)
        ((safeFrom_of_again (pass.trans round)).mp safe).2
    · by_cases two : typeOf body = 2
      · refine iff_of_false ?_ fun safe => safe.2.2.1 two
        intro safe
        have here := accesses.mp (safe s .refl)
        rw [ReadState.dispatchAccesses, decoded, if_pos two] at here
        have id := here (.message c.msg.size 14 16) (by simp [ReadState.messageAccesses])
        have long : 30 ≤ c.msg.size := by
          simp only [Access.Safe] at id
          omega
        have again : c.dispatchOn malloc (typeOf body) = (c.noteType 2).dispatchMessage malloc := by
          simp [two, ReadState.dispatchOn, ReadState.noteType]
        obtain ⟨next, round, ready, left⟩ :=
          dispatchMessage_again (c := c.noteType 2) long held malloc
        exact not_safeFrom_drained ready (left.trans empty)
          ((safeFrom_of_again (pass.trans (again.trans round))).mp safe).2
      · rw [ReadState.dispatchOn_other malloc positive.le zero two] at pass
        have decodes : AllSafe (c.dispatchAccesses malloc) := by
          rw [ReadState.dispatchAccesses, decoded, if_neg two, allSafe_cons]
          exact ⟨Access.safe_frameType.mpr size, allSafe_nil⟩
        rw [safeFrom_of_again pass, accesses, and_iff_right decodes]
        cases flag : s.isFirst with
        | true =>
            refine iff_of_false ?_ (by simp)
            exact not_safeFrom_reopened (first.trans flag) positive empty _
        | false =>
            refine iff_of_true ?_ ⟨four, zero, two, rfl⟩
            have complete : c.HoldsBody c.message := ⟨first.trans flag, whole, positive.le, rfl⟩
            rw [← decoded] at zero two
            exact safeFrom_of_holdsBody complete size zero two _
  · refine iff_of_false ?_ fun safe => four safe.1
    intro safe
    have size := Access.safe_frameType.mp (accesses.mp (safe s .refl) _ List.mem_cons_self)
    rw [holding.size] at size
    exact four (by exact_mod_cast size)

/-- A complete body of a type without a branch keeps the loop busy. -/
theorem not_exits_complete (pass : s.pass malloc memory = c.dispatch malloc)
    (holding : c.Holding body body.length) (first : c.isFirst = false) (four : 4 ≤ body.length)
    (zero : typeOf body ≠ 0) (two : typeOf body ≠ 2) (result : Except Fault ReadState) :
    ¬ Exits (ReadState.pass malloc memory) s result := by
  have whole : c.l = c.msg.size := holding.l.trans holding.size.symm
  have positive : 0 ≤ c.l := by
    rw [holding.l]
    exact Int.natCast_nonneg _
  have complete : c.HoldsBody c.message := ⟨first, whole, positive, rfl⟩
  rw [← holding.readI32_message four] at zero two
  exact ReadState.stuck_of_dispatch pass complete zero two result

end Passes

/-! ## Deliveries -/

section Deliveries

variable {malloc : Malloc} {start left : ReadState} {body later : Bytes} {k : ℕ}
  {calls : List ReadCall}

/-- In the middle of a body every delivery is safe, unless it completes a body that is not. -/
theorem safeDelivery_inside (middle : left.isFirst = false) (holding : left.Holding body k)
    (within : k < body.length) (empty : left.input = [])
    (held : ∃ waiting, left.queue.Holds waiting)
    (bytes : body.drop k = delivered calls ++ later) :
    SafeDelivery malloc left calls ↔
      (later = [] → 4 ≤ body.length ∧ typeOf body ≠ 0 ∧ typeOf body ≠ 2) := by
  induction calls generalizing left k with
  | nil =>
      refine iff_of_true safeDelivery_nil fun nothing => absurd nothing ?_
      intro nothing
      have lengths := congrArg List.length bytes
      rw [nothing, delivered_nil, List.append_nil, List.length_drop, List.length_nil] at lengths
      omega
  | cons call calls ih =>
      have input : (left.receive call.chunk).input = call.chunk := by
        rw [ReadState.receive_input, empty, List.nil_append]
      have starts : (left.receive call.chunk).Holding body k :=
        ⟨holding.l, holding.size, holding.room, holding.collected⟩
      have pass : (left.receive call.chunk).pass malloc call.memory = _ :=
        ReadState.pass_of_not_first middle
      have accesses : (left.receive call.chunk).accesses malloc call.memory = _ :=
        ReadState.accesses_of_not_first middle
      rw [delivered_cons, List.append_assoc] at bytes
      by_cases complete : delivered calls ++ later = []
      · rw [safeDelivery_cons]
        obtain ⟨-, nothing⟩ := List.append_eq_nil_iff.mp complete
        rw [complete, List.append_nil] at bytes
        obtain ⟨read, dispatches, reads, left', first, queue, safe⟩ :=
          starts.whole_body (bytes.trans input.symm) within.le malloc
        have iff := safeFrom_complete (pass.trans dispatches) (accesses ▸ safe) reads left'
          (queue ▸ held) first
        constructor
        · rintro ⟨here, -⟩ -
          obtain ⟨four, zero, two, -⟩ := iff.mp here
          exact ⟨four, zero, two⟩
        · intro types
          obtain ⟨four, zero, two⟩ := types nothing
          refine ⟨iff.mpr ⟨four, zero, two, middle⟩, ?_⟩
          intro next returns
          exact absurd returns (not_exits_complete (pass.trans dispatches) reads
            (first.trans middle) four zero two _)
      · obtain ⟨safe, left', leaves, middle', reads, within', empty', queue⟩ :=
          starts.partial_body (bytes.trans (by rw [input])) complete within.le malloc
        have tail : body.drop (k + call.chunk.length) = delivered calls ++ later := by
          rw [← List.drop_drop, bytes, List.drop_left]
        rw [input] at reads within'
        rw [safeDelivery_of_leave (pass.trans leaves) (accesses ▸ safe)]
        exact ih middle' reads within' empty' (queue ▸ held) tail

theorem prefixSize_peerFrame (frame : PeerFrame) (rest : Bytes) :
    ReadState.prefixSize (bigEndian 4 frame.bits.toNat ++ rest) = frame.size := by
  have bound : frame.bits.toNat < 256 ^ 4 := frame.bits.toNat_lt
  rw [ReadState.prefixSize_append (length_bigEndian ..), ofBigEndian_bigEndian_of_lt bound]
  rfl

/-- A chunk that does not cut the prefix begins with it. -/
theorem PrefixUncut.front {frame : PeerFrame} {call : ReadCall}
    (uncut : PrefixUncut (call :: calls)) (some_bytes : call.chunk ≠ [])
    (bytes : delivered (call :: calls) ++ later = frame.encode) :
    ∃ piece, call.chunk = bigEndian 4 frame.bits.toNat ++ piece ∧
      frame.body = piece ++ (delivered calls ++ later) := by
  have positive : 0 < call.chunk.length := List.length_pos_iff.mpr some_bytes
  have long : (bigEndian 4 frame.bits.toNat).length ≤ call.chunk.length := by
    have here := uncut [call] calls rfl
    rw [delivered_cons, delivered_nil, List.append_nil] at here
    rw [length_bigEndian]
    omega
  rw [delivered_cons, List.append_assoc, PeerFrame.encode] at bytes
  obtain ⟨piece, split⟩ := List.prefix_of_prefix_length_le (List.prefix_append _ frame.body)
    (bytes ▸ List.prefix_append _ _) long
  rw [← split, List.append_assoc, List.append_cancel_left_eq] at bytes
  exact ⟨piece, split.symm, bytes.symm⟩

/-- The requests that open a buffer are safe for a size that can be allocated. -/
theorem openAccesses_safe {s : ReadState} {bits : UInt32}
    (read : ReadState.prefixSize s.input = asInt bits) :
    AllSafe s.openAccesses ↔ 0 ≤ asInt bits ∧ asInt bits < intMax := by
  have lower : -2 ^ 31 ≤ asInt bits := Int.le_bmod (by norm_num)
  have upper : asInt bits < 2 ^ 31 := Int.bmod_lt (by norm_num)
  rw [ReadState.prefixSize] at read
  rw [ReadState.openAccesses, ReadState.take_available, read, intMax]
  generalize asInt bits = size at lower upper
  have succ : 0 ≤ size → (0 ≤ intSucc size ↔ size < 2 ^ 31 - 1) := by
    intro nonneg
    rw [intSucc]
    by_cases fits : size < 2 ^ 31 - 1
    · rw [Int.bmod_eq_of_le (by norm_num; omega) (by norm_num; omega)]
      omega
    · obtain rfl : size = 2 ^ 31 - 1 := by omega
      decide
  simp only [allSafe_cons, allSafe_nil, Access.Safe, and_true]
  constructor
  · rintro ⟨-, -, -, more, nonneg, -⟩
    exact ⟨nonneg, (succ nonneg).mp more⟩
  · rintro ⟨nonneg, fits⟩
    exact ⟨by norm_num, by norm_num, by norm_num, (succ nonneg).mpr fits, nonneg, nonneg,
      .inr ⟨le_refl _, by omega⟩⟩

/-- A prefix with the size of a body opens the buffer for it. -/
theorem openBuffer_holding {s : ReadState} (memory : Memory) (l : s.l = 0) {front piece : Bytes}
    (input : s.input = front ++ piece) (four : front.length = 4)
    (read : ReadState.prefixSize s.input = body.length) (fits : (body.length : ℤ) < intMax) :
    ∃ opened, s.openBuffer memory = .ok opened ∧ opened.Holding body 0 ∧
      opened.input = piece ∧ opened.isFirst = s.isFirst ∧ opened.queue = s.queue := by
  have some_input : s.input ≠ [] := by
    rw [input]
    exact List.append_ne_nil_of_left_ne_nil (List.ne_nil_of_length_eq_add_one four) _
  have fine : ¬ ((body.length : ℤ) < 0 ∨ (body.length : ℤ) = intMax) := by omega
  refine ⟨s.withPrefix memory body.length, ?_, ⟨l, rfl, rfl, by simp⟩, ?_, rfl, rfl⟩
  · rw [ReadState.openBuffer_withPrefix memory some_input read, if_neg fine]
  · simp only [ReadState.withPrefix, input]
    exact List.drop_left' four

/-- A frame that is complete in the first chunk is not handled safely: its dispatch is not, or the
call goes on without input. -/
theorem not_safeDelivery_whole {call : ReadCall} {opened : ReadState}
    (first : (start.receive call.chunk).isFirst = true)
    (held : ∃ waiting, (start.receive call.chunk).queue.Holds waiting)
    (size : AllSafe (start.receive call.chunk).openAccesses)
    (open_ok : (start.receive call.chunk).openBuffer call.memory = .ok opened)
    (holding : opened.Holding body 0) (still : opened.isFirst = (start.receive call.chunk).isFirst)
    (queue : opened.queue = (start.receive call.chunk).queue) (payload : body = opened.input) :
    ¬ SafeDelivery malloc start (call :: calls) := by
  have pass : (start.receive call.chunk).pass malloc call.memory = _ :=
    ReadState.pass_of_openBuffer first open_ok
  have accesses : (start.receive call.chunk).accesses malloc call.memory = _ :=
    ReadState.accesses_of_openBuffer first open_ok
  obtain ⟨got, dispatches, reads, empty, still', queue', safe⟩ :=
    holding.whole_body (by rw [List.drop_zero, payload]) (Nat.zero_le _) malloc
  have all : AllSafe ((start.receive call.chunk).accesses malloc call.memory) ↔
      AllSafe (got.dispatchAccesses malloc) := by
    rw [accesses, allSafe_append, and_iff_right size, safe]
  have iff := safeFrom_complete (pass.trans dispatches) all reads empty (queue' ▸ queue ▸ held)
    (still'.trans still)
  rw [safeDelivery_cons]
  rintro ⟨here, -⟩
  have middle := (iff.mp here).2.2.2
  cases first.symm.trans middle

/-- A frame whose buffer can be allocated is handled safely unless it is completed, and then also
if it has a type without a branch and is not complete in the first chunk. -/
theorem safeDelivery_opened {frame : PeerFrame} {call : ReadCall} {piece : Bytes}
    (begin : (start.receive call.chunk).Tracks none) (held : ∃ waiting, start.queue.Holds waiting)
    (found : (start.receive call.chunk).input = bigEndian 4 frame.bits.toNat ++ piece)
    (chunk : call.chunk = bigEndian 4 frame.bits.toNat ++ piece)
    (body : frame.body = piece ++ (delivered calls ++ later))
    (size : 0 ≤ frame.size ∧ frame.size < intMax) :
    SafeDelivery malloc start (call :: calls) ↔
      (later = [] → 4 ≤ frame.size ∧ frame.frameType ≠ 0 ∧ frame.frameType ≠ 2 ∧
        call.chunk.length < frame.encode.length) := by
  have first := begin.1
  have read : ReadState.prefixSize (start.receive call.chunk).input = frame.size :=
    found ▸ prefixSize_peerFrame frame piece
  have whole : frame.size = frame.body.length := (frame.whole size.1).symm
  obtain ⟨opened, open_ok, holding, left, first', queue⟩ :=
    openBuffer_holding call.memory begin.2 found (length_bigEndian ..) (read.trans whole)
      (whole ▸ size.2)
  have opens : AllSafe (start.receive call.chunk).openAccesses := (openAccesses_safe read).mpr size
  by_cases complete : delivered calls ++ later = []
  · obtain ⟨-, no_more⟩ := List.append_eq_nil_iff.mp complete
    rw [complete, List.append_nil] at body
    refine iff_of_false ?_ ?_
    · exact not_safeDelivery_whole first held opens open_ok holding first' queue
        (body.trans left.symm)
    · intro harmless
      have shorter := (harmless no_more).2.2.2
      rw [chunk, PeerFrame.encode, body] at shorter
      exact lt_irrefl _ shorter
  · have pass : (start.receive call.chunk).pass malloc call.memory = _ :=
      ReadState.pass_of_openBuffer first open_ok
    have accesses : (start.receive call.chunk).accesses malloc call.memory = _ :=
      ReadState.accesses_of_openBuffer first open_ok
    have payload : frame.body.drop 0 = opened.input ++ (delivered calls ++ later) := by
      rw [List.drop_zero, left, body]
    obtain ⟨safe, left', leaves, middle, reads, within, empty, queue'⟩ :=
      holding.partial_body payload complete (Nat.zero_le _) malloc
    have all : AllSafe ((start.receive call.chunk).accesses malloc call.memory) := by
      rw [accesses, allSafe_append]
      exact ⟨opens, safe⟩
    have tail : frame.body.drop (0 + opened.input.length) = delivered calls ++ later := by
      rw [← List.drop_drop, payload, List.drop_left]
    have shorter : call.chunk.length < frame.encode.length := by
      have more := List.length_pos_iff.mpr complete
      rw [chunk, PeerFrame.encode, body, List.length_append, List.length_append,
        List.length_append]
      omega
    rw [safeDelivery_of_leave (pass.trans leaves) all,
      safeDelivery_inside middle reads within empty (queue' ▸ queue ▸ held) tail, whole]
    constructor
    · intro types no_more
      obtain ⟨four, zero, two⟩ := types no_more
      exact ⟨Nat.ofNat_le_cast.mpr four, zero, two, shorter⟩
    · intro harmless no_more
      obtain ⟨four, zero, two, -⟩ := harmless no_more
      exact ⟨Nat.ofNat_le_cast.mp four, zero, two⟩

/-- **Which frames are handled safely.** Every allocation, fill, copy and read of a delivery has a
length that is not negative and stays inside the buffer, and only messages of at least 30 bytes are
enqueued, exactly for the frames and deliveries that are harmless. -/
theorem safeDelivery_iff (frame : PeerFrame) (ready : start.isFirst = true ∧ start.l = 0)
    (empty : start.input = []) (held : ∃ waiting, start.queue.Holds waiting)
    (bytes : delivered calls ++ later = frame.encode) (uncut : PrefixUncut calls) :
    SafeDelivery malloc start calls ↔ frame.Harmless calls later := by
  cases calls with
  | nil => exact iff_of_true safeDelivery_nil PeerFrame.harmless_nil
  | cons call calls =>
      have input : (start.receive call.chunk).input = call.chunk := by
        rw [ReadState.receive_input, empty, List.nil_append]
      have begin : (start.receive call.chunk).Tracks none := ready
      rw [PeerFrame.harmless_cons]
      by_cases nothing : call.chunk = []
      · rw [safeDelivery_cons]
        refine iff_of_false ?_ fun harmless => harmless.1 nothing
        rintro ⟨safe, -⟩
        exact not_safeFrom_drained begin (input.trans nothing) safe
      obtain ⟨piece, chunk, body⟩ := uncut.front nothing bytes
      have found := input.trans chunk
      by_cases size : 0 ≤ frame.size ∧ frame.size < intMax
      · rw [safeDelivery_opened begin held found chunk body size, and_iff_right nothing,
          and_iff_right size.1, and_iff_right size.2]
      · rw [safeDelivery_cons]
        refine iff_of_false ?_ fun harmless => size ⟨harmless.2.1, harmless.2.2.1⟩
        rintro ⟨safe, -⟩
        have read : ReadState.prefixSize (start.receive call.chunk).input = frame.size :=
          found ▸ prefixSize_peerFrame frame piece
        exact size ((openAccesses_safe read).mp (safe.openAccesses begin.1))

end Deliveries

/-- A frame of size 5 and type 3. -/
def strangeFrame : PeerFrame := ⟨5, [0, 0, 0, 3, 7], by decide⟩

/-- A frame without a branch, whose last byte comes in a chunk of its own. -/
theorem safeDelivery_strange :
    SafeDelivery granted (.initial settings)
      [⟨[0, 0, 0, 5, 0, 0, 0, 3], dirtyMemory⟩, ⟨[7], dirtyMemory⟩] := by
  have bytes : delivered [⟨[0, 0, 0, 5, 0, 0, 0, 3], dirtyMemory⟩, ⟨[7], dirtyMemory⟩] ++ [] =
      strangeFrame.encode := by decide
  have uncut : PrefixUncut [⟨[0, 0, 0, 5, 0, 0, 0, 3], dirtyMemory⟩, ⟨[7], dirtyMemory⟩] := by
    decide
  refine (safeDelivery_iff strangeFrame ⟨rfl, rfl⟩ rfl ⟨[], MessageQueue.Holds.initial⟩ bytes
    uncut).mpr (PeerFrame.harmless_cons.mpr ?_)
  exact ⟨by decide, by decide, by decide, fun _ => by decide⟩

/-- The prefix of a frame whose size is `-1`. -/
def negativeFrame : PeerFrame := ⟨0xFFFFFFFF, [], by decide⟩

/-- **A size of `-1`** makes the parser clear so many bytes. -/
theorem not_safeDelivery_negative :
    ¬ ∀ (frame : PeerFrame) (calls : List ReadCall), delivered calls = frame.encode →
      PrefixUncut calls → SafeDelivery granted (.initial settings) calls := by
  intro always
  have bytes : delivered [⟨negativeFrame.encode, zeroMemory⟩] = negativeFrame.encode := by decide
  have safe := (safeDelivery_cons.mp
    (always negativeFrame [⟨negativeFrame.encode, zeroMemory⟩] bytes (by decide))).1
  have input : ((ReadState.initial settings).receive negativeFrame.encode).input =
      bigEndian 4 negativeFrame.bits.toNat ++ [] := rfl
  have read : ReadState.prefixSize
      ((ReadState.initial settings).receive negativeFrame.encode).input =
        asInt negativeFrame.bits := by
    rw [input, prefixSize_peerFrame negativeFrame []]
    rfl
  have size := (openAccesses_safe read).mp (safe.openAccesses rfl)
  exact absurd size.1 (by decide)

end PhpNsq
