import Mathlib.Data.List.Infix
import PhpNsq.Foundations.Assembly
import PhpNsq.Identify
import PhpNsq.Publisher.Commands

/-!
# The buffers of the encoders

`publish` and `deferredPublish` assemble their command on the stack, `send_identify` in 256 bytes
that are cleared first, and `lookup` of nsq_lookupd.c prints a URL into an allocation whose size
is that of two pointers and 128 bytes. None of them looks at a length before it writes.

The assemblies are the source's, store by store (`BufferCall.assembly`). What they leave is
the command where that fits (`publishCommand_eq`, `deferredPublishCommand_eq`,
`identifyCommand_eq_assembly`), and each stays inside its buffer exactly when its texts
leave room for the rest (`inside_iff`).
-/

set_option autoImplicit false

namespace PhpNsq

open Foundations

/-- `sizeof` of a `char *`. -/
def sizeofPointer : ℕ := 8

/-- `sizeof(host) + sizeof(topic) + 128`. -/
def urlBuffer : ℕ := sizeofPointer + sizeofPointer + 128

/-! ## The assemblies -/

section Assemblies

variable (memory : Cells UInt8)

/-- `buf` of `publish`. -/
def publishAssembly (topic msg : Bytes) : Assembly UInt8 :=
  Assembly.start memory
    |>.put (ascii "PUB ")
    |>.putString 0 (cString topic)
    |>.put (ascii "\n")
    |>.put (bigEndian 4 msg.length)
    |>.put msg

/-- `buf` of `deferredPublish`. -/
def deferredPublishAssembly (topic msg : Bytes) (deferTime : Int32) : Assembly UInt8 :=
  Assembly.start memory
    |>.put (ascii "DPUB ")
    |>.putString 0 (cString topic)
    |>.put (ascii " ")
    |>.putString 0 (decimal (longLong deferTime))
    |>.put (ascii "\n")
    |>.put (bigEndian 4 msg.length)
    |>.put msg

/-- `identify_command` of `send_identify`. -/
def identifyAssembly (json : Bytes) : Assembly UInt8 :=
  Assembly.start memory
    |>.fill 0 256
    |>.putString 0 (ascii "IDENTIFY\n")
    |>.put (bigEndian 4 json.length)
    |>.putString 0 (cString json)

/-- `strstr(host, "http://")`. -/
def HasScheme (host : Bytes) : Prop := ascii "http://" <:+: cString host

instance : DecidablePred HasScheme := fun host =>
  inferInstanceAs (Decidable (ascii "http://" <:+: cString host))

/-- The URL that `lookup` asks for. -/
def lookupUrl (host topic : Bytes) : Bytes :=
  if HasScheme host then cString host ++ ascii "/lookup?topic=" ++ cString topic
  else ascii "http://" ++ cString host ++ ascii "/lookup?topic=" ++ cString topic

/-- `url` of `lookup`. -/
def lookupAssembly (host topic : Bytes) : Assembly UInt8 :=
  (Assembly.start memory).putString 0 (lookupUrl host topic)

end Assemblies

/-- A call that assembles something. -/
inductive BufferCall where
  | publish (topic msg : Bytes)
  | deferredPublish (topic msg : Bytes) (delayTime : Int64)
  | sendIdentify (json : Bytes)
  | lookup (host topic : Bytes)

namespace BufferCall

def assembly (memory : Cells UInt8) : BufferCall → Assembly UInt8
  | .publish topic msg => publishAssembly memory topic msg
  | .deferredPublish topic msg delayTime =>
      deferredPublishAssembly memory topic msg delayTime.toInt32
  | .sendIdentify json => identifyAssembly memory json
  | .lookup host topic => lookupAssembly memory host topic

/-- The size of the buffer. -/
def capacity : BufferCall → ℕ
  | .publish _ _ => publishBuffer
  | .deferredPublish _ _ _ => publishBuffer
  | .sendIdentify _ => 256
  | .lookup _ _ => urlBuffer

/-- **Nothing is written behind the buffer.** -/
def Inside (call : BufferCall) : Prop := ∀ memory, (call.assembly memory).extent ≤ call.capacity

/-- The texts leave room for the rest. -/
def Room : BufferCall → Prop
  | .publish topic msg => (cString topic).length + msg.length ≤ 1048567
  | .deferredPublish topic msg delayTime =>
      (cString topic).length + (decimal (longLong delayTime.toInt32)).length + msg.length ≤ 1048565
  | .sendIdentify json => (cString json).length ≤ 242
  | .lookup host topic => (cString host).length + (cString topic).length ≤
      if HasScheme host then 129 else 122

end BufferCall

/-! ## How far they write -/

section Extents

variable (memory : Cells UInt8)

theorem extent_publishAssembly (topic msg : Bytes) :
    (publishAssembly memory topic msg).extent = 9 + (cString topic).length + msg.length := by
  have words : (ascii "PUB ").length = 4 ∧ (ascii "\n").length = 1 := ⟨rfl, rfl⟩
  simp only [publishAssembly, Assembly.put, Assembly.putString, Assembly.start, words,
    length_bigEndian]
  omega

theorem extent_deferredPublishAssembly (topic msg : Bytes) (deferTime : Int32) :
    (deferredPublishAssembly memory topic msg deferTime).extent =
      11 + (cString topic).length + (decimal (longLong deferTime)).length + msg.length := by
  have words : (ascii "DPUB ").length = 5 ∧ (ascii " ").length = 1 ∧ (ascii "\n").length = 1 :=
    ⟨rfl, rfl, rfl⟩
  simp only [deferredPublishAssembly, Assembly.put, Assembly.putString, Assembly.start, words,
    length_bigEndian]
  omega

theorem extent_identifyAssembly (json : Bytes) :
    (identifyAssembly memory json).extent = max 256 (14 + (cString json).length) := by
  have word : (ascii "IDENTIFY\n").length = 9 := rfl
  simp only [identifyAssembly, Assembly.put, Assembly.putString, Assembly.fill, Assembly.start,
    word, length_bigEndian]
  omega

theorem length_lookupUrl (host topic : Bytes) : (lookupUrl host topic).length =
    (if HasScheme host then 14 else 21) + (cString host).length + (cString topic).length := by
  have words : (ascii "http://").length = 7 ∧ (ascii "/lookup?topic=").length = 14 := ⟨rfl, rfl⟩
  rw [lookupUrl]
  split
  · simp only [List.length_append, words]
    omega
  · simp only [List.length_append, words]
    omega

theorem extent_lookupAssembly (host topic : Bytes) : (lookupAssembly memory host topic).extent =
    (if HasScheme host then 15 else 22) + (cString host).length + (cString topic).length := by
  simp only [lookupAssembly, Assembly.putString, Assembly.start, length_lookupUrl]
  split <;> omega

end Extents

/-! ## What they leave -/

section Contents

variable (memory : Cells UInt8)

theorem holds_publishAssembly (topic msg : Bytes) : (publishAssembly memory topic msg).Holds
    (ascii "PUB " ++ cString topic ++ ascii "\n" ++ bigEndian 4 msg.length ++ msg) :=
  Assembly.holds_put (Assembly.holds_put (Assembly.holds_put (Assembly.holds_putString
    (Assembly.holds_put (Assembly.holds_start memory)))))

/-- **`publish` sends what it assembled.** -/
theorem publishCommand_eq (topic msg : Bytes) : publishCommand topic msg =
    if (publishAssembly memory topic msg).extent ≤ publishBuffer then
      some ((publishAssembly memory topic msg).cells.slice 0
        (publishAssembly memory topic msg).offset) else none := by
  have holds := holds_publishAssembly memory topic msg
  rw [holds.offset, holds.slice, publishCommand, extent_publishAssembly]
  congr 1
  have words : (ascii "PUB ").length = 4 ∧ (ascii "\n").length = 1 := ⟨rfl, rfl⟩
  simp only [List.length_append, length_bigEndian, words, eq_iff_iff]
  omega

theorem holds_deferredPublishAssembly (topic msg : Bytes) (deferTime : Int32) :
    (deferredPublishAssembly memory topic msg deferTime).Holds
      (ascii "DPUB " ++ cString topic ++ ascii " " ++ decimal (longLong deferTime) ++ ascii "\n" ++
        bigEndian 4 msg.length ++ msg) :=
  Assembly.holds_put (Assembly.holds_put (Assembly.holds_put (Assembly.holds_putString
    (Assembly.holds_put (Assembly.holds_putString
      (Assembly.holds_put (Assembly.holds_start memory)))))))

/-- So does `deferredPublish`. -/
theorem deferredPublishCommand_eq (topic msg : Bytes) (deferTime : Int32) :
    deferredPublishCommand topic msg deferTime =
      if (deferredPublishAssembly memory topic msg deferTime).extent ≤ publishBuffer then
        some ((deferredPublishAssembly memory topic msg deferTime).cells.slice 0
          (deferredPublishAssembly memory topic msg deferTime).offset) else none := by
  have holds := holds_deferredPublishAssembly memory topic msg deferTime
  rw [holds.offset, holds.slice, deferredPublishCommand, extent_deferredPublishAssembly]
  congr 1
  have words : (ascii "DPUB ").length = 5 ∧ (ascii " ").length = 1 ∧ (ascii "\n").length = 1 :=
    ⟨rfl, rfl, rfl⟩
  simp only [List.length_append, length_bigEndian, words, eq_iff_iff]
  omega

theorem holds_identifyAssembly (json : Bytes) : (identifyAssembly memory json).Holds
    (ascii "IDENTIFY\n" ++ bigEndian 4 json.length ++ cString json) :=
  Assembly.holds_putString (Assembly.holds_put (Assembly.holds_putString
    (Assembly.holds_fill memory)))

/-- `send_identify` sends as many bytes as the JSON text has, from the buffer that was cleared. -/
theorem identifyCommand_eq_assembly (json : Bytes) : identifyCommand json =
    if (identifyAssembly memory json).extent ≤ 256 ∧ 9 + json.length + 4 ≤ 256 then
      some ((identifyAssembly memory json).cells.slice 0 (9 + json.length + 4)) else none := by
  have holds := holds_identifyAssembly memory json
  have clear : (identifyAssembly memory json).Clear 0 256 :=
    Assembly.clear_putString (Assembly.clear_put (Assembly.clear_putString
      (Assembly.clear_fill memory)))
  have word : (ascii "IDENTIFY\n").length = 9 := rfl
  have length : (ascii "IDENTIFY\n" ++ bigEndian 4 json.length ++ cString json).length =
      13 + (cString json).length := by
    simp only [List.length_append, length_bigEndian, word]
  rw [identifyCommand, extent_identifyAssembly, length]
  by_cases fits : 13 + (cString json).length + 1 ≤ 256 ∧ 9 + json.length + 4 ≤ 256
  · have whole := Assembly.slice_of_clear holds clear (by omega)
    have front : (((identifyAssembly memory json).cells.slice 0 256).drop 0).take
        (9 + json.length + 4) = (identifyAssembly memory json).cells.slice 0 (9 + json.length + 4) :=
      Cells.take_drop_slice _ (by omega)
    rw [List.drop_zero, whole, length] at front
    rw [if_pos fits, if_pos (by omega), front]
  · rw [if_neg fits, if_neg (by omega)]

end Contents

/-- **The encoders stay inside their buffers** exactly when their texts leave room. -/
theorem inside_iff (call : BufferCall) : call.Inside ↔ call.Room := by
  cases call with
  | publish topic msg =>
      simp only [BufferCall.Inside, BufferCall.assembly, extent_publishAssembly, forall_const,
        BufferCall.capacity, publishBuffer, BufferCall.Room]
      omega
  | deferredPublish topic msg delayTime =>
      simp only [BufferCall.Inside, BufferCall.assembly, extent_deferredPublishAssembly,
        forall_const, BufferCall.capacity, publishBuffer, BufferCall.Room]
      omega
  | sendIdentify json =>
      simp only [BufferCall.Inside, BufferCall.assembly, extent_identifyAssembly, forall_const,
        BufferCall.capacity, BufferCall.Room]
      omega
  | lookup host topic =>
      simp only [BufferCall.Inside, BufferCall.assembly, extent_lookupAssembly, forall_const,
        BufferCall.capacity, urlBuffer, sizeofPointer, BufferCall.Room]
      split <;> omega

/-- A message of one mebibyte overruns the stack buffer of `publish` by ten bytes. -/
theorem not_inside_mebibyte :
    ((BufferCall.publish (ascii "t") (List.replicate 1048576 109)).assembly fun _ => 0).extent =
        1048586 ∧
      ¬ (BufferCall.publish (ascii "t") (List.replicate 1048576 109)).Inside := by
  have topic : (cString (ascii "t")).length = 1 := rfl
  have extent : ((BufferCall.publish (ascii "t") (List.replicate 1048576 109)).assembly
      fun _ => 0).extent = 1048586 := by
    rw [BufferCall.assembly, extent_publishAssembly, topic, List.length_replicate]
  refine ⟨extent, fun inside => ?_⟩
  have bound := inside fun _ => 0
  rw [extent] at bound
  exact absurd bound (by decide)

end PhpNsq
