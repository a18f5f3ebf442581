import PhpNsq.Common

/-!
# The IDENTIFY command of common.c

`send_identify` builds its command in a buffer of 256 zero bytes: the command line, the
length of the JSON text, and the text, which `sprintf` copies up to its first NUL and
terminates. The length that is sent is computed from the length of the text.
-/

set_option autoImplicit false

namespace PhpNsq

open Foundations

/-- The bytes that `send_identify` sends for a configuration with this JSON text. -/
def identifyCommand (json : Bytes) : Option Bytes :=
  let written := ascii "IDENTIFY\n" ++ bigEndian 4 json.length ++ cString json
  let sent := 9 + json.length + 4
  if written.length + 1 ≤ 256 ∧ sent ≤ 256 then
    some ((written ++ List.replicate (256 - written.length) 0).take sent)
  else none

/-- A text without a NUL that fits goes out as it is. -/
theorem identifyCommand_eq {json : Bytes} (free : (0 : UInt8) ∉ json)
    (fits : json.length + 14 ≤ 256) :
    identifyCommand json = some (ascii "IDENTIFY\n" ++ bigEndian 4 json.length ++ json) := by
  have line : (ascii "IDENTIFY\n").length = 9 := rfl
  have written : (ascii "IDENTIFY\n" ++ bigEndian 4 json.length ++ json).length =
      9 + json.length + 4 := by
    simp only [List.length_append, length_bigEndian, line]
    omega
  simp only [identifyCommand, cString_of_notMem free]
  rw [if_pos (by omega), List.take_append_of_le_length (Nat.le_of_eq written.symm),
    List.take_of_length_le (Nat.le_of_eq written)]

end PhpNsq
