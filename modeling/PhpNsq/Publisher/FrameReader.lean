import PhpNsq.Foundations.Iteration
import PhpNsq.Frames

/-!
# The frame readers of pub.c and common.c

`publish`, `deferredPublish` and `send_identify` read a reply from a non-blocking socket with
two loops around `read`: one for the size prefix and one for the body. A reader is at
one of these two calls (`Reader`), and what it does next depends on what the call
gives (`Reader.step`).

The three copies of the code differ in two places (`ReaderCode`): what a prefix read of
zero bytes means, and the condition under which the body is read on. In all of them the
result of a body read is added to `l` as it is, also when it is `-1`, and every body
read asks for the whole size again.

The contents of the buffer that `emalloc` gives are not part of the code; they are
cleared up to `msg_size`. A memory error ends the reader with a fault.
-/

set_option autoImplicit false

namespace PhpNsq

open Foundations

/-- What `read` gives: `-1`, or so many bytes (none at the end of the stream, or when none
were asked for). -/
inductive ReadAnswer where
  | notYet
  | got (data : Bytes)
  deriving DecidableEq

/-- The bytes of an answer. -/
def ReadAnswer.data : ReadAnswer → Bytes
  | .notYet => []
  | .got data => data

/-- Undefined behaviour of a reader. -/
inductive ReaderFault where
  /-- `emalloc` or `memset` with a negative size. -/
  | badAllocation
  /-- A write in front of the buffer or behind its end. -/
  | heapOverflow
  deriving DecidableEq

/-- Where the copies differ. -/
structure ReaderCode where
  /-- A prefix read of zero bytes is a lost connection, and not tried again. -/
  closes : Bool
  /-- The body is read on, given `l` and `msg_size`. -/
  goesOn : ℤ → ℤ → Bool

/-- `if (l < msg_size && l > 0)` in `publish`. -/
def publishReader : ReaderCode where
  closes := true
  goesOn := fun l msgSize => l < msgSize && l > 0

/-- The copy in `deferredPublish`. -/
def deferredPublishReader : ReaderCode where
  closes := true
  goesOn := fun l msgSize => l < msgSize && l > 0

/-- `if (size <= 0)` and `if (l < msg_size)` in `send_identify`. -/
def sendIdentifyReader : ReaderCode where
  closes := false
  goesOn := fun l msgSize => l < msgSize

/-- The call of `read` that a reader is at. -/
inductive Reader where
  | againRead
  | again (l : ℤ) (msgSize : ℤ) (message : Cells UInt8)

/-- How a reader ends. -/
inductive Reply where
  | closed
  | collected (l : ℤ) (msgSize : ℤ) (message : Cells UInt8)
  | fault (fault : ReaderFault)

namespace Reader

/-- The third argument of `read`. -/
def requested : Reader → ℤ
  | .againRead => 4
  | .again _ msgSize _ => msgSize

/-- The size that is read from the bytes of a prefix; the others are zero. -/
def sizeOf (data : Bytes) : ℤ := readI32 (Cells.store (fun _ => 0) 0 data)

/-- The buffer for a body, cleared up to its last byte. -/
def cleared (contents : Cells UInt8) (msgSize : ℤ) : Cells UInt8 :=
  contents.store 0 (List.replicate msgSize.toNat 0)

/-- Behind a body read. -/
def afterBody (code : ReaderCode) (l msgSize : ℤ) (message : Cells UInt8) : Next Reader Reply :=
  if code.goesOn l msgSize then .again (.again l msgSize message)
  else .leave (.collected l msgSize message)

/-- What a reader makes of an answer, given the contents of the buffer it may ask for. -/
def step (code : ReaderCode) (contents : Cells UInt8) : Reader → ReadAnswer → Next Reader Reply
  | .againRead, .notYet => .again .againRead
  | .againRead, .got [] => if code.closes then .leave .closed else .again .againRead
  | .againRead, .got (byte :: data) =>
      let msgSize := sizeOf (byte :: data)
      if msgSize < 0 ∨ msgSize = intMax then .leave (.fault .badAllocation)
      else .again (.again 0 msgSize (cleared contents msgSize))
  | .again l msgSize message, .notYet => afterBody code (l - 1) msgSize message
  | .again l msgSize message, .got data =>
      if data ≠ [] ∧ (l < 0 ∨ msgSize + 1 < l + data.length) then .leave (.fault .heapOverflow)
      else afterBody code (l + data.length) msgSize (message.store l.toNat data)

end Reader

/-! ## A frame that comes in one way -/

/-- The two conditions of the copies agree on a body that is read without a gap. -/
structure ReaderCode.ReadsOn (code : ReaderCode) : Prop where
  more : ∀ l msgSize : ℤ, 0 < l → l < msgSize → code.goesOn l msgSize = true
  enough : ∀ l msgSize : ℤ, msgSize ≤ l → code.goesOn l msgSize = false

theorem publishReader_readsOn : publishReader.ReadsOn where
  more := by
    intro l msgSize positive below
    simp [publishReader, positive, below]
  enough := by
    intro l msgSize complete
    simp [publishReader, complete.not_gt]

theorem deferredPublishReader_readsOn : deferredPublishReader.ReadsOn := publishReader_readsOn

theorem sendIdentifyReader_readsOn : sendIdentifyReader.ReadsOn where
  more := by
    intro l msgSize _ below
    simp [sendIdentifyReader, below]
  enough := by
    intro l msgSize complete
    simp [sendIdentifyReader, complete.not_gt]

namespace Reader

variable {code : ReaderCode} {contents message : Cells UInt8}

/-- A whole prefix gives the size. -/
theorem sizeOf_bigEndian {size : ℕ} (bound : size < 2 ^ 31) : sizeOf (bigEndian 4 size) = size := by
  have stored : (Cells.store (fun _ => (0 : UInt8)) 0 (bigEndian 4 size)).slice 0 4 =
      bigEndian 4 size := by
    have self := Cells.slice_store_self (fun _ => (0 : UInt8)) 0 (bigEndian 4 size)
    rwa [length_bigEndian] at self
  exact readI32_of_slice stored bound

/-- The first bytes of a prefix open the body, if a buffer can be asked for. -/
theorem step_data {data : Bytes} (some_data : data ≠ []) :
    step code contents .againRead (.got data) =
      if 0 ≤ sizeOf data ∧ sizeOf data ≠ intMax then
        .again (.again 0 (sizeOf data) (cleared contents (sizeOf data)))
      else .leave (.fault .badAllocation) := by
  obtain ⟨byte, more, rfl⟩ := List.exists_cons_of_ne_nil some_data
  rw [step]
  by_cases good : 0 ≤ sizeOf (byte :: more) ∧ sizeOf (byte :: more) ≠ intMax
  · rw [if_pos good, if_neg (not_or.mpr ⟨not_lt.mpr good.1, good.2⟩)]
  · rw [if_neg good, if_pos]
    by_contra neither
    rw [not_or, not_lt] at neither
    exact good neither

/-- A whole prefix opens the buffer of its frame. -/
theorem step_prefix (frame : RawFrame) :
    step code contents .againRead (.got (bigEndian 4 frame.size)) =
      .again (.again 0 frame.size (cleared contents frame.size)) := by
  have bound := frame.size_lt
  have size : sizeOf (bigEndian 4 frame.size) = frame.size := sizeOf_bigEndian (by omega)
  have fits : 0 ≤ (frame.size : ℤ) ∧ (frame.size : ℤ) ≠ intMax := by
    rw [intMax]
    omega
  have some_data : bigEndian 4 frame.size ≠ [] := List.cons_ne_nil _ _
  rw [step_data some_data, size, if_pos fits]

/-- A piece that does not complete the body is stored at its own offset. -/
theorem step_piece (reads : code.ReadsOn) {l size : ℕ} {piece : Bytes} (some_piece : piece ≠ [])
    (below : l + piece.length < size) :
    step code contents (.again l size message) (.got piece) =
      .again (.again (l + piece.length : ℕ) size (message.store l piece)) := by
  have positive : 0 < piece.length := List.length_pos_iff.mpr some_piece
  have fits : ¬ (piece ≠ [] ∧ ((l : ℤ) < 0 ∨ (size : ℤ) + 1 < l + piece.length)) := by
    omega
  have more := reads.more (l + piece.length : ℕ) size (by omega) (by omega)
  rw [step, if_neg fits, afterBody, Int.toNat_natCast, if_pos (by simpa using more), Nat.cast_add]

/-- The last piece completes it. -/
theorem step_last (reads : code.ReadsOn) {l size : ℕ} {piece : Bytes}
    (complete : l + piece.length = size) :
    step code contents (.again l size message) (.got piece) =
      .leave (.collected size size (message.store l piece)) := by
  have fits : ¬ (piece ≠ [] ∧ ((l : ℤ) < 0 ∨ (size : ℤ) + 1 < l + piece.length)) := by
    omega
  have sum : (l : ℤ) + piece.length = size := by omega
  rw [step, if_neg fits, afterBody, sum, Int.toNat_natCast, reads.enough size size (le_refl _)]
  rfl

end Reader

end PhpNsq
