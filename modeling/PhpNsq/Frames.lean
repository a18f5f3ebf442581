import PhpNsq.Common
import Mathlib.Data.Vector.Basic

/-!
# Frames of the nsqd protocol

What nsqd sends is a sequence of frames: a four-byte size, a four-byte frame type,
and the data, where the size counts the type and the data. This is the abstract side of
the parsers: `RawFrame` carries the bound on its size as a field, and `Frame` is
the frame a consumer is sent: a response, an error, or a message with its timestamp,
attempts, id and body.

A buffer that holds a frame's payload gives back its type and, for a message, its
fields (`readI32_payload`, `Message.slice_body`).
-/

set_option autoImplicit false

namespace PhpNsq

open Foundations

/-- A well-formed frame: type and data, whose size is a positive `int` with a
successor. -/
structure RawFrame where
  frameType : UInt32
  data : Bytes
  fits : data.length + 4 < 2 ^ 31 - 1

theorem heartbeat_fits : (ascii "_heartbeat_").length + 4 < 2 ^ 31 - 1 := by decide

theorem ok_fits : (ascii "OK").length + 4 < 2 ^ 31 - 1 := by decide

namespace RawFrame

variable (frame : RawFrame)

/-- The number in the size prefix. -/
def size : ℕ := frame.data.length + 4

/-- The bytes the size counts. -/
def payload : Bytes := bigEndian 4 frame.frameType.toNat ++ frame.data

/-- The frame on the wire. -/
def encode : Bytes := bigEndian 4 frame.size ++ frame.payload

@[simp] theorem length_payload : frame.payload.length = frame.size := by
  simp only [payload, size, List.length_append, length_bigEndian]
  omega

@[simp] theorem length_encode : frame.encode.length = frame.size + 4 := by
  simp only [encode, List.length_append, length_bigEndian, length_payload]
  omega

theorem size_lt : frame.size < 2 ^ 31 - 1 := frame.fits

theorem four_le_size : 4 ≤ frame.size := Nat.le_add_left ..

end RawFrame

/-- What a message frame carries. -/
structure Message where
  timestamp : Int64
  attempts : UInt16
  id : List.Vector UInt8 16
  body : Bytes

/-- The data of a message frame. -/
def Message.data (message : Message) : Bytes :=
  bigEndian 8 message.timestamp.toUInt64.toNat ++ bigEndian 2 message.attempts.toNat ++
    message.id.toList ++ message.body

theorem Message.length_data (message : Message) :
    message.data.length = message.body.length + 26 := by
  simp only [data, List.length_append, length_bigEndian, List.Vector.toList_length]
  omega

/-- A frame of type 0 (response), 1 (error) or 2 (message). -/
inductive Frame where
  | response (data : Bytes) (fits : data.length + 4 < 2 ^ 31 - 1)
  | error (data : Bytes) (fits : data.length + 4 < 2 ^ 31 - 1)
  | message (content : Message) (fits : content.body.length + 30 < 2 ^ 31 - 1)

namespace Frame

/-- The frame with its numeric type and its data. -/
def raw : Frame → RawFrame
  | .response data fits => ⟨0, data, fits⟩
  | .error data fits => ⟨1, data, fits⟩
  | .message content fits => ⟨2, content.data, by rw [content.length_data]; omega⟩

def size (frame : Frame) : ℕ := frame.raw.size

def payload (frame : Frame) : Bytes := frame.raw.payload

def encode (frame : Frame) : Bytes := frame.raw.encode

/-- An error frame. -/
def IsError : Frame → Prop
  | .error _ _ => True
  | _ => False

instance : DecidablePred IsError
  | .response _ _ => isFalse id
  | .error _ _ => isTrue trivial
  | .message _ _ => isFalse id

variable (frame : Frame)

@[simp] theorem length_payload : frame.payload.length = frame.size := frame.raw.length_payload

@[simp] theorem length_encode : frame.encode.length = frame.size + 4 := frame.raw.length_encode

theorem encode_eq : frame.encode = bigEndian 4 frame.size ++ frame.payload := rfl

theorem size_lt : frame.size < 2 ^ 31 - 1 := frame.raw.size_lt

theorem four_le_size : 4 ≤ frame.size := frame.raw.four_le_size

end Frame

/-- The wire bytes of a sequence of frames. -/
def encodeAll (frames : List Frame) : Bytes := frames.flatMap Frame.encode

@[simp] theorem encodeAll_nil : encodeAll [] = [] := rfl

@[simp] theorem encodeAll_cons (frame : Frame) (frames : List Frame) :
    encodeAll (frame :: frames) = frame.encode ++ encodeAll frames := rfl

@[simp] theorem encodeAll_append (first second : List Frame) :
    encodeAll (first ++ second) = encodeAll first ++ encodeAll second :=
  List.flatMap_append

/-! ## Reading a payload back -/

/-- A buffer that holds a payload starts with the frame type. -/
theorem readI32_payload {buffer : Cells UInt8} {frame : RawFrame}
    (holds : buffer.slice 0 frame.size = frame.payload) (bound : frame.frameType.toNat < 2 ^ 31) :
    readI32 buffer = frame.frameType.toNat := by
  have start : buffer.slice 0 4 = bigEndian 4 frame.frameType.toNat :=
    Cells.slice_of_append (holds.trans (List.nil_append _).symm) rfl (length_bigEndian ..)
  exact readI32_of_slice start bound

namespace Message

variable {buffer : Cells UInt8} {message : Message} {size : ℕ}

/-- The payload of a message, field by field. -/
theorem payload_eq (message : Message) (fits) :
    (Frame.message message fits).payload = bigEndian 4 2 ++
      (bigEndian 8 message.timestamp.toUInt64.toNat ++ (bigEndian 2 message.attempts.toNat ++
        (message.id.toList ++ message.body))) := by
  simp [Frame.payload, Frame.raw, RawFrame.payload, Message.data]

theorem size_eq (message : Message) (fits) :
    (Frame.message message fits).size = message.body.length + 30 := by
  simp only [Frame.size, Frame.raw, RawFrame.size, length_data]

variable (holds : buffer.slice 0 size = bigEndian 4 2 ++
  (bigEndian 8 message.timestamp.toUInt64.toNat ++ (bigEndian 2 message.attempts.toNat ++
    (message.id.toList ++ message.body))))

include holds

theorem ntoh64_timestamp : (ntoh64 (buffer.advance 4)).toInt64 = message.timestamp := by
  have field : buffer.slice 4 8 = bigEndian 8 message.timestamp.toUInt64.toNat :=
    Cells.slice_of_append holds (length_bigEndian ..) (length_bigEndian ..)
  have bound : message.timestamp.toUInt64.toNat < 256 ^ 8 := message.timestamp.toUInt64.toNat_lt
  rw [ntoh64_eq, Cells.slice_advance, Nat.add_zero, field, ofBigEndian_bigEndian_of_lt bound,
    UInt64.ofNat_toNat, Int64.toInt64_toUInt64]

theorem readI16_attempts : readI16 (buffer.advance 12) = message.attempts := by
  have regrouped : buffer.slice 0 size = (bigEndian 4 2 ++
      bigEndian 8 message.timestamp.toUInt64.toNat) ++ (bigEndian 2 message.attempts.toNat ++
        (message.id.toList ++ message.body)) := by
    rw [holds, List.append_assoc]
  have field : buffer.slice 12 2 = bigEndian 2 message.attempts.toNat :=
    Cells.slice_of_append regrouped (by simp) (length_bigEndian ..)
  have bound : message.attempts.toNat < 256 ^ 2 := message.attempts.toNat_lt
  rw [readI16_eq, Cells.slice_advance, Nat.add_zero, field, ofBigEndian_bigEndian_of_lt bound,
    UInt16.ofNat_toNat]

theorem slice_id : buffer.slice 14 16 = message.id.toList := by
  have regrouped : buffer.slice 0 size = (bigEndian 4 2 ++
      (bigEndian 8 message.timestamp.toUInt64.toNat ++ bigEndian 2 message.attempts.toNat)) ++
        (message.id.toList ++ message.body) := by
    simp only [holds, List.append_assoc]
  exact Cells.slice_of_append regrouped (by simp) (List.Vector.toList_length _)

theorem slice_body : buffer.slice 30 message.body.length = message.body := by
  have regrouped : buffer.slice 0 size = (bigEndian 4 2 ++
      (bigEndian 8 message.timestamp.toUInt64.toNat ++ (bigEndian 2 message.attempts.toNat ++
        message.id.toList))) ++ (message.body ++ []) := by
    simp only [holds, List.append_assoc, List.append_nil]
  exact Cells.slice_of_append regrouped (by simp) rfl

end Message

end PhpNsq
