import PhpNsq.Subscriber.Delivery

/-!
# Size prefixes cut by a chunk boundary

`readcb` reads up to four bytes of a size prefix and does not look at how many it
got. When a boundary falls strictly inside the prefix, the bytes that have not
arrived count as zero, and when they arrive they are taken for the body.

The size that is read is then too small: the missing bytes `n % 256 ^ (4 - k)` are
left out of `n`. If nothing is left of `n`, the cut bytes are swallowed, and the
next size is read with the rest of the prefix shifted to the front. Otherwise a
body of the smaller size is waited for, and what is dispatched starts with the rest
of the prefix, where the frame type should be.

Each of the three places inside a prefix does harm, after any frames and in any frame:
some continuation of the stream ends in another state or with fewer effects than
with whole prefixes (`cutHarmless_iff`).
-/

set_option autoImplicit false

namespace PhpNsq

open Foundations

/-! ## Numbers read from bytes of another meaning -/

/-- A 32-bit number is read as itself or as a negative one. -/
theorem bmod_of_lt {n : ℕ} (bound : n < 2 ^ 32) :
    (n : ℤ).bmod (2 ^ 32) = n ∧ n < 2 ^ 31 ∨ (n : ℤ).bmod (2 ^ 32) < 0 := by
  rw [Int.bmod_def]
  split
  · left
    omega
  · right
    omega

/-- A number beyond a byte is read as none of the frame types. -/
theorem bmod_ne_of_ge {n : ℕ} (bound : n < 2 ^ 32) (large : 256 ≤ n) :
    (n : ℤ).bmod (2 ^ 32) ≠ 0 ∧ (n : ℤ).bmod (2 ^ 32) ≠ 2 := by
  rcases bmod_of_lt bound with ⟨same, -⟩ | negative
  · rw [same]
    omega
  · omega

namespace ReadState

variable {malloc : Malloc} {memory : Memory} {s t start last : ReadState}
  {old : List PendingMessage} {done frames : List Frame}

theorem prefixSize_eq (input : Bytes) :
    prefixSize input =
      ((ofBigEndian (input.take 4) * 256 ^ (4 - (input.take 4).length) : ℕ) : ℤ).bmod (2 ^ 32) := by
  rw [prefixSize, readI32_eq, Cells.slice_store_const 0 (List.length_take_le 4 input),
    ofBigEndian_append, ofBigEndian_replicate_zero, List.length_replicate, Nat.add_zero]

/-- Four whole bytes of a prefix. -/
theorem prefixSize_append {front : Bytes} (four : front.length = 4) (rest : Bytes) :
    prefixSize (front ++ rest) = (ofBigEndian front : ℤ).bmod (2 ^ 32) := by
  rw [prefixSize_eq, List.take_left' four, four, Nat.sub_self, Nat.pow_zero, Nat.mul_one]

/-! ## Passes over such sizes -/

/-- A size that is negative or larger than all that is there leaves the parser in the middle of a
frame, if the call returns at all. -/
theorem short_of_prefixSize (ready : s.Tracks none) (some_input : s.input ≠ []) {size : ℤ}
    (read : prefixSize s.input = size) (short : size < 0 ∨ (s.input.length : ℤ) < size)
    (exit : Exits (pass malloc memory) s (.ok last)) : last.isFirst = false := by
  have opened := openBuffer_withPrefix memory some_input read
  by_cases bad : size < 0 ∨ size = intMax
  · rw [if_pos bad] at opened
    have leaves : s.pass malloc memory = .leave (.error .badAllocation) := by
      simp only [pass, ready.1, if_true, opened]
    cases (exits_of_leave leaves).mp exit
  · rw [if_neg bad] at opened
    have large : (s.input.length : ℤ) < size := short.resolve_left fun negative => bad (.inl negative)
    have l : (s.withPrefix memory size).l = 0 := ready.2
    have count : (s.withPrefix memory size).available
        ((s.withPrefix memory size).msg.size - (s.withPrefix memory size).l) =
          (s.input.drop 4).length := by
      rw [l, available, if_neg (by simp only [withPrefix]; omega)]
      simp only [withPrefix, List.length_drop]
      omega
    have body : (s.withPrefix memory size).readBody =
        .ok ((s.withPrefix memory size).takeBody (s.input.drop 4).length) := by
      apply readBody_takeBody count
      · rw [l]
      · rw [l]
        simp only [withPrefix, List.length_drop]
        omega
    have missing : ((s.withPrefix memory size).takeBody (s.input.drop 4).length).l <
        ((s.withPrefix memory size).takeBody (s.input.drop 4).length).msg.size := by
      simp only [takeBody, l]
      simp only [withPrefix, List.length_drop]
      omega
    have opens : s.pass malloc memory = _ := pass_of_openBuffer ready.1 opened
    have leaves := opens.trans ((collect_of_readBody body).trans (if_pos missing))
    obtain rfl := Except.ok.inj ((exits_of_leave leaves).mp exit)
    rfl

/-- What has arrived of a prefix is read as 0: the frame type is taken from the fresh buffer, and
on type 0 the call returns with those bytes swallowed. -/
theorem pass_prefix_zero (malloc : Malloc) (ready : s.Tracks none) (some_input : s.input ≠ [])
    (read : prefixSize s.input = 0) (zero : readI32 (memory.opened s.opened) = 0) :
    ∃ left, s.pass malloc memory = .leave (.ok left) ∧ left.Tracks none ∧
      left.input = s.input.drop 4 ∧ Untouched s left := by
  obtain ⟨first, l⟩ := ready
  have fits : ¬ ((0 : ℤ) < 0 ∨ (0 : ℤ) = intMax) := by
    rw [intMax]
    omega
  have opened := openBuffer_withPrefix memory some_input read
  rw [if_neg fits] at opened
  have body : (s.withPrefix memory 0).readBody = .ok ((s.withPrefix memory 0).takeBody 0) := by
    apply readBody_takeBody
    · simp [available, withPrefix, l]
    · exact l.symm.le
    · simp [withPrefix, l]
  have whole : ((s.withPrefix memory 0).takeBody 0).l =
      ((s.withPrefix memory 0).takeBody 0).msg.size := by
    simp [takeBody, withPrefix, l]
  have contents : ((s.withPrefix memory 0).takeBody 0).message = memory.opened s.opened := by
    simp [takeBody, withPrefix]
  refine ⟨((s.withPrefix memory 0).takeBody 0).noteType 0, ?_, ⟨first, ?_⟩, ?_, ?_⟩
  · have empty := dispatchOn_empty (s := (s.withPrefix memory 0).takeBody 0) malloc first whole rfl 0
    rw [pass_of_openBuffer first opened, collect_of_readBody body, if_neg (by omega), if_pos whole,
      dispatch, contents, zero, empty, if_pos rfl]
  · simp [noteType, takeBody, withPrefix, l]
  · simp [noteType, takeBody, withPrefix]
  · exact ((Untouched.withPrefix s memory 0).trans (.takeBody _ 0)).trans (.noteType _ 0)

/-- What has arrived of a prefix is read as a positive size: the call returns and waits for a body
of this size. -/
theorem pass_prefix_waits (malloc : Malloc) (memory : Memory) (ready : s.Tracks none)
    (some_input : s.input ≠ []) (short : s.input.length ≤ 4) {m : ℕ}
    (read : prefixSize s.input = m) (positive : 0 < m) (bound : m < 2 ^ 31 - 1) :
    ∃ left, s.pass malloc memory = .leave (.ok left) ∧ left.isFirst = false ∧ left.l = 0 ∧
      left.msg.size = m ∧ left.room = m + 1 ∧ left.input = [] ∧ Untouched s left := by
  obtain ⟨first, l⟩ := ready
  have fits : ¬ ((m : ℤ) < 0 ∨ (m : ℤ) = intMax) := by
    rw [intMax]
    omega
  have opened := openBuffer_withPrefix memory some_input read
  rw [if_neg fits] at opened
  have empty : s.input.drop 4 = [] := List.drop_of_length_le short
  have body : (s.withPrefix memory m).readBody = .ok ((s.withPrefix memory m).takeBody 0) := by
    apply readBody_takeBody
    · simp [available, withPrefix, l, empty]
    · exact l.symm.le
    · simp only [withPrefix, l]
      omega
  have missing : ((s.withPrefix memory m).takeBody 0).l <
      ((s.withPrefix memory m).takeBody 0).msg.size := by
    simp only [takeBody, withPrefix, l]
    omega
  refine ⟨{ (s.withPrefix memory m).takeBody 0 with isFirst := false }, ?_, rfl, ?_, rfl, rfl, ?_, ?_⟩
  · rw [pass_of_openBuffer first opened, collect_of_readBody body, if_pos missing]
  · simp [takeBody, withPrefix, l]
  · simp [takeBody, withPrefix, empty]
  · exact (Untouched.withPrefix s memory m).trans ⟨rfl, rfl, rfl, rfl⟩

/-- The body that was waited for has arrived. -/
theorem pass_whole_body (malloc : Malloc) (memory : Memory) (middle : s.isFirst = false)
    (l : s.l = 0) {m : ℕ} (size : s.msg.size = m) (room : s.room = m + 1)
    (arrived : m ≤ s.input.length) :
    ∃ read : ReadState, s.pass malloc memory = read.dispatch malloc ∧ read.isFirst = false ∧
      read.l = m ∧
      read.msg.size = m ∧ read.message.slice 0 m = s.input.take m ∧
      read.input = s.input.drop m ∧ Untouched s read := by
  have body : s.readBody = .ok (s.takeBody m) := by
    apply readBody_takeBody
    · rw [l, size, available, if_neg (by omega)]
      omega
    · exact l.symm.le
    · rw [l, room]
      omega
  have whole : (s.takeBody m).l = (s.takeBody m).msg.size := by
    simp [takeBody, l, size]
  have length : (s.input.take m).length = m := List.length_take_of_le arrived
  refine ⟨s.takeBody m, ?_, middle, by simp [takeBody, l], size, ?_, rfl, .takeBody s m⟩
  · rw [pass_of_not_first middle, collect_of_readBody body, if_neg (by omega), if_pos whole]
  · have stored := Cells.slice_store_self s.message 0 (s.input.take m)
    rw [length] at stored
    simpa [takeBody, l] using stored

/-- A complete body that starts with type 0 has no effect unless its size is that of a heartbeat. -/
theorem dispatch_type_zero (malloc : Malloc) (zero : readI32 s.message = 0)
    (some_size : s.msg.size ≠ 0) (no_heartbeat : s.msg.size ≠ 15) :
    ∃ next, s.dispatch malloc = .again next ∧ next.Tracks none ∧ next.input = s.input ∧
      Untouched s next := by
  refine ⟨(s.noteType 0).restart, ?_, ⟨rfl, rfl⟩, rfl, ⟨rfl, rfl, rfl, s.msg.settings_update _ _⟩⟩
  rw [dispatch, zero]
  simp [dispatchOn, dispatchResponse, noteType, restart, some_size, no_heartbeat]

/-- Passes over whole frames. -/
theorem passes_frames (malloc : Malloc) (memory : Memory) {rest : Bytes}
    (plain : ∀ frame ∈ frames, ¬ frame.IsError) (ready : s.Tracks none)
    (input : s.input = encodeAll frames ++ rest) (processed : Processed malloc start old done s) :
    ∃ t, Passes (pass malloc memory) s t ∧ t.Tracks none ∧ t.input = rest ∧
      Processed malloc start old (done ++ frames) t := by
  induction frames generalizing s done with
  | nil => exact ⟨s, .refl, ready, input, by simpa using processed⟩
  | cons frame frames ih =>
      have starts : s.input =
          bigEndian 4 frame.size ++ (frame.payload ++ (encodeAll frames ++ rest)) := by
        rw [input, encodeAll_cons, frame.encode_eq]
        simp
      obtain ⟨opened, body, collecting, left, -, -, same⟩ := pass_prefix malloc memory ready starts
      obtain ⟨read, dispatches, collected, left', -, -, same'⟩ :=
        collect_whole malloc collecting (Nat.zero_le _) left
      obtain ⟨next, again, ready', input', -, processed'⟩ := dispatch_frame collected
        (plain frame (by simp)) (processed.untouched (same.trans same'))
      obtain ⟨t, passes, ready'', rest_input, processed''⟩ := ih
        (fun other member => plain other (by simp [member])) ready' (input'.trans left') processed'
      exact ⟨t, .head (body.trans (dispatches.trans again)) passes, ready'', rest_input,
        by simpa using processed''⟩

end ReadState

/-! ## The bytes around a cut -/

section Cut

variable {frame : Frame} {k : ℕ}

/-- What has arrived of a prefix stands for the size without its last bytes. -/
theorem prefixSize_take (frame : Frame) (within : k ≤ 4) :
    ReadState.prefixSize (frame.encode.take k) =
      (frame.size / 256 ^ (4 - k) * 256 ^ (4 - k) : ℕ) := by
  have bound := frame.size_lt
  have front : frame.encode.take k = (bigEndian 4 frame.size).take k := by
    rw [frame.encode_eq, List.take_append_of_le_length (by rw [length_bigEndian]; exact within)]
  have whole : (bigEndian 4 frame.size).take k = ((bigEndian 4 frame.size).take k).take 4 := by
    rw [List.take_take, Nat.min_eq_right within]
  have length : ((bigEndian 4 frame.size).take k).length = k := by
    rw [List.length_take, length_bigEndian]
    omega
  have small : frame.size / 256 ^ (4 - k) * 256 ^ (4 - k) ≤ frame.size := Nat.div_mul_le_self ..
  rw [front, ReadState.prefixSize_eq, ← whole, length, ofBigEndian_take,
    ofBigEndian_bigEndian_of_lt (by omega), length_bigEndian]
  exact Int.bmod_eq_of_le (by omega) (by omega)

/-- The four bytes after a cut, the rest of the prefix and the start of the frame type. -/
theorem bytes_after_cut (plain : ¬ frame.IsError) (positive : 0 < k) (within : k < 4)
    (rest : Bytes) : ∃ front behind, frame.encode.drop k ++ rest = front ++ behind ∧
      front.length = 4 ∧ ofBigEndian front = frame.size % 256 ^ (4 - k) * 256 ^ k := by
  have bound := frame.size_lt
  have type_start : ofBigEndian (frame.payload.take k) = 0 ∧ (frame.payload.take k).length = k := by
    have type_bytes : frame.payload.take k = (bigEndian 4 frame.raw.frameType.toNat).take k := by
      rw [Frame.payload, RawFrame.payload, List.take_append_of_le_length]
      rw [length_bigEndian]
      omega
    have small : frame.raw.frameType.toNat < 256 := by
      cases frame with
      | response data fits => exact (by decide : (0 : UInt32).toNat < 256)
      | error data fits => exact absurd trivial plain
      | message content fits => exact (by decide : (2 : UInt32).toNat < 256)
    have scale : 256 ^ 1 ≤ 256 ^ (4 - k) := Nat.pow_le_pow_right (by omega) (by omega)
    rw [type_bytes, ofBigEndian_take, ofBigEndian_bigEndian_of_lt (by omega), length_bigEndian,
      List.length_take, length_bigEndian]
    exact ⟨Nat.div_eq_of_lt (by omega), by omega⟩
  refine ⟨(bigEndian 4 frame.size).drop k ++ frame.payload.take k, frame.payload.drop k ++ rest,
    ?_, ?_, ?_⟩
  · rw [frame.encode_eq, List.drop_append_of_le_length (by rw [length_bigEndian]; omega)]
    simp only [List.append_assoc, List.append_cancel_left_eq]
    rw [← List.append_assoc, List.take_append_drop]
  · rw [List.length_append, List.length_drop, length_bigEndian, type_start.2]
    omega
  · rw [ofBigEndian_append, type_start.1, type_start.2, ofBigEndian_drop, length_bigEndian,
      ofBigEndian_bigEndian_of_lt (by omega), Nat.add_zero]

/-- What is left of a frame behind a cut and a body of the frame's size, with a heartbeat after it. -/
theorem bytes_after_body (frame : Frame) (within : k < 4) :
    ∃ front behind, (frame.encode.drop k ++ heartbeat.encode).drop frame.size = front ++ behind ∧
      front.length = 4 ∧ 256 ^ k ∣ ofBigEndian front ∧ behind.length = 19 - k := by
  have large := frame.four_le_size
  have swallowed : (frame.encode.drop k ++ heartbeat.encode).drop frame.size =
      frame.payload.drop (frame.size - (4 - k)) ++ heartbeat.encode := by
    have before : ((bigEndian 4 frame.size).drop k).length = 4 - k := by
      rw [List.length_drop, length_bigEndian]
    have behind : frame.encode.drop k = (bigEndian 4 frame.size).drop k ++ frame.payload := by
      rw [frame.encode_eq, List.drop_append_of_le_length (by rw [length_bigEndian]; omega)]
    rw [behind, List.append_assoc, List.drop_append, before, List.drop_of_length_le (by omega),
      List.nil_append, List.drop_append_of_le_length (by rw [frame.length_payload]; omega)]
  have zeros : ofBigEndian (heartbeat.encode.take k) = 0 := by
    have start : heartbeat.encode.take 3 = List.replicate 3 0 := by decide
    have part : heartbeat.encode.take k = List.replicate k 0 := by
      have inner := congrArg (List.take k) start
      rwa [List.take_take, List.take_replicate, Nat.min_eq_left (by omega)] at inner
    rw [part, ofBigEndian_replicate_zero]
  have size : heartbeat.encode.length = 19 := by decide
  refine ⟨frame.payload.drop (frame.size - (4 - k)) ++ heartbeat.encode.take k,
    heartbeat.encode.drop k, ?_, ?_, ?_, ?_⟩
  · rw [swallowed, List.append_assoc, List.take_append_drop]
  · rw [List.length_append, List.length_drop, frame.length_payload, List.length_take, size]
    omega
  · rw [ofBigEndian_append, zeros, List.length_take, size, Nat.min_eq_left (by omega), Nat.add_zero]
    exact Nat.dvd_mul_left ..
  · rw [List.length_drop, size]

end Cut

/-! ## The second call after a cut -/

namespace ReadState

variable {malloc : Malloc} {s start last : ReadState} {old : List PendingMessage}
  {done : List Frame} {frame : Frame} {k : ℕ}

/-- The cut bytes were zeros and are swallowed: the size is read with its bytes shifted. -/
theorem second_after_zero (ready : s.Tracks none) (plain : ¬ frame.IsError) (positive : 0 < k)
    (within : k < 4) (input : s.input = frame.encode.drop k ++ heartbeat.encode)
    (zero : frame.size / 256 ^ (4 - k) = 0)
    (exit : Exits (pass malloc zeroMemory) s (.ok last)) : last.isFirst = false := by
  obtain ⟨front, behind, starts, four, value⟩ :=
    bytes_after_cut plain positive within heartbeat.encode
  have large := frame.four_le_size
  have step : 256 ^ 1 ≤ 256 ^ k := Nat.pow_le_pow_right (by omega) positive
  have more : frame.size + 23 - k < frame.size * 256 ^ k :=
    Nat.lt_of_lt_of_le (by omega) (Nat.mul_le_mul_left _ step)
  have scale : 256 ^ (4 - k) * 256 ^ k = 2 ^ 32 := by
    rw [← Nat.pow_add, Nat.sub_add_cancel (by omega)]
    norm_num
  have low : frame.size % 256 ^ (4 - k) = frame.size :=
    Nat.mod_eq_of_lt ((Nat.div_eq_zero_iff_lt (by positivity)).mp zero)
  have below : frame.size < 256 ^ (4 - k) := (Nat.div_eq_zero_iff_lt (by positivity)).mp zero
  have bound : frame.size * 256 ^ k < 2 ^ 32 := by
    rw [← scale]
    exact Nat.mul_lt_mul_of_pos_right below (by positivity)
  have length : s.input.length = frame.size + 23 - k := by
    have size : heartbeat.encode.length = 19 := by decide
    rw [input, List.length_append, List.length_drop, frame.length_encode, size]
    omega
  have some_input : s.input ≠ [] := by
    intro empty
    rw [empty, List.length_nil] at length
    omega
  refine short_of_prefixSize ready some_input rfl ?_ exit
  rw [length, input, starts, prefixSize_append four, value, low]
  rcases bmod_of_lt bound with ⟨same, -⟩ | negative
  · right
    rw [same]
    exact Int.ofNat_lt.mpr more
  · exact .inl negative

/-- The rest of a frame whose size is all in the part that has arrived was taken for a body of type
0: the next size is read across the end of the frame. -/
theorem after_shifted_body (ready : s.Tracks none) (within : k < 4) (positive : 0 < k)
    (input : s.input = (frame.encode.drop k ++ heartbeat.encode).drop frame.size)
    (exit : Exits (pass malloc zeroMemory) s (.ok last)) :
    last.isFirst = false ∨ Untouched s last := by
  obtain ⟨front, behind, starts, four, divides, length⟩ := bytes_after_body frame within
  rw [starts] at input
  have some_input : s.input ≠ [] := by
    rw [input]
    exact List.append_ne_nil_of_left_ne_nil (List.ne_nil_of_length_eq_add_one four) _
  have total : s.input.length = 23 - k := by
    rw [input, List.length_append, four, length]
    omega
  have bound : ofBigEndian front < 2 ^ 32 := by
    have low := ofBigEndian_lt front
    rw [four] at low
    exact low
  have size := (congrArg prefixSize input).trans (prefixSize_append four behind)
  by_cases zero : ofBigEndian front = 0
  · right
    rw [zero] at size
    have zeros : readI32 (zeroMemory.opened s.opened) = 0 := by
      have constant : readI32 (fun _ => 0) = 0 := by decide
      exact constant
    obtain ⟨left, leaves, -, -, same⟩ := pass_prefix_zero malloc ready some_input size zeros
    obtain rfl := Except.ok.inj ((exits_of_leave leaves).mp exit)
    exact same
  · left
    have step : 256 ^ 1 ≤ 256 ^ k := Nat.pow_le_pow_right (by omega) positive
    have large : 256 ^ k ≤ ofBigEndian front := Nat.le_of_dvd (Nat.pos_of_ne_zero zero) divides
    have longer : s.input.length < ofBigEndian front := by omega
    refine short_of_prefixSize ready some_input size ?_ exit
    rcases bmod_of_lt bound with ⟨same, -⟩ | negative
    · right
      rw [same]
      exact Int.ofNat_lt.mpr longer
    · exact .inl negative

/-- Something is left of the size: a body of it is dispatched, which starts with the rest of the
prefix. -/
theorem second_after_rest (middle : s.isFirst = false) (l : s.l = 0)
    (size : s.msg.size = (frame.size / 256 ^ (4 - k) * 256 ^ (4 - k) : ℕ))
    (room : s.room = frame.size / 256 ^ (4 - k) * 256 ^ (4 - k) + 1) (plain : ¬ frame.IsError)
    (positive : 0 < k) (within : k < 4)
    (input : s.input = frame.encode.drop k ++ heartbeat.encode)
    (rest : frame.size / 256 ^ (4 - k) ≠ 0) (exit : Exits (pass malloc zeroMemory) s (.ok last)) :
    last.isFirst = false ∨ Untouched s last := by
  obtain ⟨front, behind, starts, four, value⟩ :=
    bytes_after_cut plain positive within heartbeat.encode
  have split := Nat.div_add_mod' frame.size (256 ^ (4 - k))
  have width : 256 ^ 1 ≤ 256 ^ (4 - k) := Nat.pow_le_pow_right (by omega) (by omega)
  have large : 256 ^ (4 - k) ≤ frame.size / 256 ^ (4 - k) * 256 ^ (4 - k) :=
    Nat.le_mul_of_pos_left _ (Nat.pos_of_ne_zero rest)
  have cut_low := Nat.mod_lt frame.size (show 0 < 256 ^ (4 - k) by positivity)
  have arrived : frame.size / 256 ^ (4 - k) * 256 ^ (4 - k) ≤ s.input.length := by
    rw [input, List.length_append, List.length_drop, frame.length_encode]
    omega
  generalize frame.size / 256 ^ (4 - k) * 256 ^ (4 - k) = m at *
  obtain ⟨read, body, first, l', size', collected, input', same⟩ :=
    pass_whole_body malloc zeroMemory middle l size room arrived
  have type : readI32 read.message = (ofBigEndian front : ℤ).bmod (2 ^ 32) := by
    have four_bytes : 0 + 4 ≤ m := by omega
    have inner : ((read.message.slice 0 m).drop 0).take 4 = read.message.slice (0 + 0) 4 :=
      Cells.take_drop_slice read.message four_bytes
    rw [List.drop_zero, collected, List.take_take, Nat.min_eq_left (by omega), input, starts,
      List.take_left' four] at inner
    rw [readI32_eq, ← inner]
  by_cases aligned : frame.size % 256 ^ (4 - k) = 0
  · -- the size has arrived completely, and zeros are found for the frame type
    rw [value, aligned, Nat.zero_mul] at type
    obtain ⟨next, again, ready, kept, same'⟩ :=
      dispatch_type_zero malloc type (by omega) (by omega)
    have all : m = frame.size := by omega
    have found : next.input = (frame.encode.drop k ++ heartbeat.encode).drop frame.size := by
      rw [kept, input', input, all]
    rcases after_shifted_body ready within positive found
      ((exits_of_again (body.trans again)).mp exit) with waits | same''
    · exact .inl waits
    · exact .inr ((same.trans same').trans same'')
  · exfalso
    have scale : 256 ^ (4 - k) * 256 ^ k = 2 ^ 32 := by
      rw [← Nat.pow_add, Nat.sub_add_cancel (by omega)]
      norm_num
    have step : 256 ^ 1 ≤ 256 ^ k := Nat.pow_le_pow_right (by omega) positive
    have bound : ofBigEndian front < 2 ^ 32 := by
      rw [value, ← scale]
      exact Nat.mul_lt_mul_of_pos_right cut_low (by positivity)
    have high : 256 ≤ ofBigEndian front := by
      rw [value]
      exact step.trans (Nat.le_mul_of_pos_left _ (Nat.pos_of_ne_zero aligned))
    have other : readI32 read.message ≠ 0 ∧ readI32 read.message ≠ 2 := by
      rw [type]
      exact bmod_ne_of_ge bound high
    have holds : read.HoldsBody read.message :=
      ⟨first, by rw [l', size'], by rw [l']; exact Int.natCast_nonneg m, rfl⟩
    exact stuck_of_dispatch body holds other.1 other.2 (.ok last) exit

end ReadState

/-! ## Harmless cuts -/

/-- A boundary between two chunks. -/
def BoundaryAt (calls : List ReadCall) (place : ℕ) : Prop :=
  ∃ first rest, calls = first ++ rest ∧ (delivered first).length = place

/-- No boundary but this one falls strictly inside a size prefix. -/
def OtherBoundariesOutsidePrefixes (frames : List Frame) (calls : List ReadCall) (place : ℕ) :
    Prop :=
  ∀ first rest before frame after, calls = first ++ rest → frames = before ++ frame :: after →
    (delivered first).length ≠ place →
    ¬ ((encodeAll before).length < (delivered first).length ∧
      (delivered first).length < (encodeAll before).length + 4)

/-- The calls return, and leave the effects, the queue and the parser state that any delivery of the
frames with whole prefixes leaves. -/
def SameAsWhole (malloc : Malloc) (start : ReadState) (frames : List Frame)
    (calls : List ReadCall) : Prop :=
  ∀ others other, delivered others = encodeAll frames → BoundariesOutsidePrefixes frames others →
    DrainedZero others → Run (Readcb malloc) start others other →
    ∃ last, Run (Readcb malloc) start calls last ∧ last.log = other.log ∧
      (∀ messages, other.queue.Holds messages → last.queue.Holds messages) ∧
      last.isFirst = other.isFirst ∧ last.l = other.l

/-- **A boundary `k` bytes into a frame is harmless**: however the stream goes on and is cut elsewhere
outside of size prefixes, the result is the same. -/
def CutHarmless (malloc : Malloc) (start : ReadState) (before : List Frame) (frame : Frame)
    (k : ℕ) : Prop :=
  ∀ after calls, (∀ other ∈ after, ¬ other.IsError) →
    delivered calls = encodeAll (before ++ frame :: after) → DrainedZero calls →
    BoundaryAt calls ((encodeAll before).length + k) →
    OtherBoundariesOutsidePrefixes (before ++ frame :: after) calls
      ((encodeAll before).length + k) →
    SameAsWhole malloc start (before ++ frame :: after) calls

section Harmless

variable {malloc : Malloc} {start last : ReadState} {old : List PendingMessage}
  {before : List Frame} {frame : Frame} {k : ℕ}

/-- A chunk that ends inside a prefix, and one with the rest and a heartbeat. -/
def cutCalls (before : List Frame) (frame : Frame) (k : ℕ) : List ReadCall :=
  [⟨encodeAll before ++ frame.encode.take k, zeroMemory⟩,
    ⟨frame.encode.drop k ++ heartbeat.encode, zeroMemory⟩]

theorem delivered_cutCalls :
    delivered (cutCalls before frame k) = encodeAll (before ++ [frame, heartbeat]) := by
  have joined := List.take_append_drop k frame.encode
  simp only [cutCalls, delivered_cons, delivered_nil, encodeAll_append, encodeAll_cons,
    encodeAll_nil, List.append_nil, List.append_assoc]
  rw [← List.append_assoc (frame.encode.take k), joined]

theorem drainedZero_cutCalls : DrainedZero (cutCalls before frame k) :=
  drainedZero_of_zeroMemory (by simp [cutCalls])

theorem length_first_cutCall (within : k ≤ frame.encode.length) :
    (delivered [⟨encodeAll before ++ frame.encode.take k, zeroMemory⟩]).length =
      (encodeAll before).length + k := by
  simp only [delivered_cons, delivered_nil, List.append_nil, List.length_append, List.length_take]
  omega

/-- The cut is the only boundary of those calls inside a prefix. -/
theorem otherBoundaries_cutCalls (within : k ≤ frame.encode.length) :
    OtherBoundariesOutsidePrefixes (before ++ [frame, heartbeat]) (cutCalls before frame k)
      ((encodeAll before).length + k) := by
  intro first rest early other late split place elsewhere
  rw [cutCalls] at split
  rcases first with - | ⟨one, - | ⟨two, first⟩⟩
  · simp
  · obtain ⟨rfl, -⟩ := List.cons.inj split
    exact absurd (length_first_cutCall within) elsewhere
  · obtain ⟨rfl, more⟩ := List.cons.inj split
    obtain ⟨rfl, nothing⟩ := List.cons.inj more
    obtain ⟨rfl, -⟩ := List.append_eq_nil_iff.mp nothing.symm
    have whole : delivered (cutCalls before frame k) = _ := delivered_cutCalls
    rw [cutCalls] at whole
    rw [whole]
    exact end_outside_prefixes place

/-- Those calls end in the middle of a frame or without the effects of the frame and the heartbeat. -/
theorem run_cutCalls (ready : start.Tracks none) (empty : start.input = [])
    (holds : start.queue.Holds old) (plain : ∀ other ∈ before, ¬ other.IsError)
    (clear : ¬ frame.IsError) (positive : 0 < k) (within : k < 4)
    (run : Run (Readcb malloc) start (cutCalls before frame k) last) :
    last.isFirst = false ∨
      last.log = start.log ++ effectsFrom malloc start.msg start.dispatched before := by
  obtain ⟨middle, one, last', two, done⟩ := run
  obtain rfl := run_nil.mp done
  have found : (start.receive (encodeAll before ++ frame.encode.take k)).input =
      encodeAll before ++ frame.encode.take k := by
    rw [ReadState.receive_input, empty, List.nil_append]
  have untouched : ReadState.Processed malloc start old []
      (start.receive (encodeAll before ++ frame.encode.take k)) :=
    (ReadState.Processed.initial holds).untouched ⟨rfl, rfl, rfl, rfl⟩
  obtain ⟨t, passes, ready', input, processed⟩ := ReadState.passes_frames malloc zeroMemory plain
    (show (start.receive (encodeAll before ++ frame.encode.take k)).Tracks none from ready) found
    untouched
  have exit := passes.exits_iff.mp one
  have some_input : t.input ≠ [] := by
    intro nothing
    have lengths := congrArg List.length (input.symm.trans nothing)
    rw [List.length_take, frame.length_encode, List.length_nil] at lengths
    omega
  have short : t.input.length ≤ 4 := by
    rw [input, List.length_take]
    omega
  have size := (congrArg ReadState.prefixSize input).trans
    (prefixSize_take frame (Nat.le_of_lt within))
  by_cases zero : frame.size / 256 ^ (4 - k) = 0
  · rw [zero, Nat.zero_mul] at size
    have zeros : readI32 (zeroMemory.opened t.opened) = 0 := by
      have constant : readI32 (fun _ => 0) = 0 := by decide
      exact constant
    obtain ⟨left, leaves, tracks, rest, -⟩ :=
      ReadState.pass_prefix_zero malloc ready' some_input size zeros
    obtain rfl := Except.ok.inj ((exits_of_leave leaves).mp exit)
    have input' : (middle.receive (frame.encode.drop k ++ heartbeat.encode)).input =
        frame.encode.drop k ++ heartbeat.encode := by
      rw [ReadState.receive_input, rest, List.drop_of_length_le short, List.nil_append]
    exact .inl (ReadState.second_after_zero
      (show (middle.receive (frame.encode.drop k ++ heartbeat.encode)).Tracks none from tracks)
      clear positive within input' zero two)
  · have bound := frame.size_lt
    have small := Nat.div_mul_le_self frame.size (256 ^ (4 - k))
    have large : 0 < frame.size / 256 ^ (4 - k) * 256 ^ (4 - k) :=
      Nat.mul_pos (Nat.pos_of_ne_zero zero) (by positivity)
    obtain ⟨left, leaves, first, l, size', room, rest, same⟩ :=
      ReadState.pass_prefix_waits malloc zeroMemory ready' some_input short size large (by omega)
    obtain rfl := Except.ok.inj ((exits_of_leave leaves).mp exit)
    have input' : (middle.receive (frame.encode.drop k ++ heartbeat.encode)).input =
        frame.encode.drop k ++ heartbeat.encode := by
      rw [ReadState.receive_input, rest, List.nil_append]
    rcases ReadState.second_after_rest
      (s := middle.receive (frame.encode.drop k ++ heartbeat.encode)) first l size' room clear
      positive within input' zero two with waits | same'
    · exact .inl waits
    · refine .inr (same'.log.trans (same.log.trans ?_))
      simpa using processed.log

/-- So they do not give what whole prefixes give. -/
theorem not_sameAsWhole_cutCalls (ready : start.Tracks none) (empty : start.input = [])
    (holds : start.queue.Holds old) (plain : ∀ other ∈ before, ¬ other.IsError)
    (clear : ¬ frame.IsError) (positive : 0 < k) (within : k < 4) :
    ¬ SameAsWhole malloc start (before ++ [frame, heartbeat]) (cutCalls before frame k) := by
  intro same
  have plain' : ∀ other ∈ before ++ [frame, heartbeat], ¬ other.IsError := by
    intro other member
    simp only [List.mem_append, List.mem_cons, List.not_mem_nil, or_false] at member
    rcases member with earlier | rfl | rfl
    · exact plain other earlier
    · exact clear
    · exact id
  have bytes : delivered [⟨encodeAll (before ++ [frame, heartbeat]), zeroMemory⟩] =
      encodeAll (before ++ [frame, heartbeat]) := by
    simp
  have clean : BoundariesOutsidePrefixes (before ++ [frame, heartbeat])
      [⟨encodeAll (before ++ [frame, heartbeat]), zeroMemory⟩] := by
    intro first rest early other late split place
    cases first with
    | nil => simp
    | cons call first =>
        obtain ⟨rfl, nothing⟩ := List.cons.inj split
        obtain ⟨rfl, -⟩ := List.append_eq_nil_iff.mp nothing.symm
        rw [bytes]
        exact end_outside_prefixes place
  have zero : DrainedZero [⟨encodeAll (before ++ [frame, heartbeat]), zeroMemory⟩] :=
    drainedZero_of_zeroMemory (by simp)
  obtain ⟨other, run', ready', -, processed⟩ :=
    run_of_zero malloc ready empty holds plain' bytes clean zero
  obtain ⟨last, run, log, -, first, -⟩ := same _ other bytes clean zero run'
  rcases run_cutCalls ready empty holds plain clear positive within run with waits | fewer
  · rw [waits, ready'.1] at first
    cases first
  · have effects := processed.log.symm.trans (log.symm.trans fewer)
    have lengths := congrArg List.length (List.append_cancel_left effects)
    have beat : heartbeat.effectsUnder malloc start.msg
        (start.dispatched + messageCount before + frame.messages) = [nop] := rfl
    simp only [effectsFrom_append, effectsFrom_cons, effectsFrom_nil, List.append_nil, beat,
      List.length_append, List.length_singleton] at lengths
    omega

/-- A boundary outside the prefix of the frame it falls into is outside all prefixes. -/
theorem cut_outside_prefixes {after early late : List Frame} {other : Frame}
    (outside : ¬ (0 < k ∧ k < 4)) (within : k ≤ frame.encode.length)
    (place : before ++ frame :: after = early ++ other :: late) :
    ¬ ((encodeAll early).length < (encodeAll before).length + k ∧
      (encodeAll before).length + k < (encodeAll early).length + 4) := by
  have size := frame.length_encode
  have other_size := other.length_encode
  rcases split_trichotomy place with ⟨rfl, -, -⟩ | ⟨between, rfl, -⟩ | ⟨between, rfl, -⟩
  · omega
  · simp only [encodeAll_append, encodeAll_cons, List.length_append]
    omega
  · simp only [encodeAll_append, encodeAll_cons, List.length_append]
    have large := other.four_le_size
    omega

/-- **Which cuts of a frame are harmless.** Exactly those that are not strictly inside its size
prefix. -/
theorem cutHarmless_iff (ready : start.isFirst = true ∧ start.l = 0) (empty : start.input = [])
    (holds : start.queue.Holds old) (plain : ∀ other ∈ before, ¬ other.IsError)
    (clear : ¬ frame.IsError) (within : k ≤ frame.encode.length) :
    CutHarmless malloc start before frame k ↔ ¬ (0 < k ∧ k < 4) := by
  constructor
  · intro harmless ⟨positive, inside⟩
    apply not_sameAsWhole_cutCalls ready empty holds plain clear positive inside
    apply harmless [heartbeat] (cutCalls before frame k) _ delivered_cutCalls drainedZero_cutCalls
      ⟨_, _, rfl, length_first_cutCall within⟩ (otherBoundaries_cutCalls within)
    intro other member
    rw [List.mem_singleton.mp member]
    exact id
  · intro outside after calls plain' bytes zero _ elsewhere others other bytes' clean' zero' run'
    have all_plain : ∀ other ∈ before ++ frame :: after, ¬ other.IsError := by
      intro other member
      rcases List.mem_append.mp member with earlier | here
      · exact plain other earlier
      · rcases List.mem_cons.mp here with rfl | later
        · exact clear
        · exact plain' other later
    have clean : BoundariesOutsidePrefixes (before ++ frame :: after) calls := by
      intro first rest early late_frame late split place
      by_cases here : (delivered first).length = (encodeAll before).length + k
      · rw [here]
        exact cut_outside_prefixes outside within place
      · exact elsewhere first rest early late_frame late split place here
    obtain ⟨last, run, tracks, -, processed⟩ :=
      run_of_zero malloc ready empty holds all_plain bytes clean zero
    obtain ⟨other', run'', tracks', -, processed'⟩ :=
      run_of_zero malloc ready empty holds all_plain bytes' clean' zero'
    obtain rfl := Readcb.run_unique run'' run'
    refine ⟨last, run, processed.log.trans processed'.log.symm, ?_,
      tracks.1.trans tracks'.1.symm, tracks.2.trans tracks'.2.symm⟩
    intro messages queue
    rw [queue.unique processed'.queue]
    exact processed.queue

/-- A cut two bytes into the prefix of a heartbeat is not harmless. -/
theorem not_cutHarmless_two : ¬ CutHarmless granted (.initial settings) [] heartbeat 2 := by
  intro harmless
  exact (cutHarmless_iff ⟨rfl, rfl⟩ rfl MessageQueue.Holds.initial (by simp) id (by decide)).mp
    harmless (by decide)

/-- **Two bytes of the prefix of a heartbeat, and later the rest, do not give the result of the
whole.** -/
theorem not_sameAsWhole_two :
    delivered (cutCalls [] heartbeat 2) = encodeAll [heartbeat, heartbeat] ∧
    ¬ SameAsWhole granted (.initial settings) [heartbeat, heartbeat] (cutCalls [] heartbeat 2) := by
  refine ⟨by decide, ?_⟩
  have differs : ¬ SameAsWhole granted (.initial settings) ([] ++ [heartbeat, heartbeat])
      (cutCalls [] heartbeat 2) :=
    not_sameAsWhole_cutCalls ⟨rfl, rfl⟩ rfl MessageQueue.Holds.initial (by simp) id (by decide)
      (by decide)
  exact differs

end Harmless

end PhpNsq
