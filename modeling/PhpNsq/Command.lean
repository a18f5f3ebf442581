import PhpNsq.Common
import PhpNsq.Foundations.Decimal

/-!
# The command lines of command.c

Every function prints one line into a buffer of `MAX_BUF_SIZE` bytes. A line that
does not fit overruns the buffer and has no result. How the line then goes out (through
the output buffer, or past it for `nsq_touch`) is a matter of the caller.

The lines without a free text always fit (`nsqReady_eq`), and so does any line about
an id of at most sixteen bytes (`nsqFinish_eq`, `nsqTouch_eq`, `nsqRequeue_eq`).
-/

set_option autoImplicit false

namespace PhpNsq

open Foundations

def newLine : Bytes := ascii "\n"

def maxBufSize : ℕ := 128

def nsqSubscribe (topic channel : Bytes) : Option Bytes :=
  sprintf maxBufSize (ascii "SUB " ++ cString topic ++ ascii " " ++ cString channel ++ newLine)

def nsqReady (count : Int32) : Option Bytes :=
  sprintf maxBufSize (ascii "RDY " ++ decimal count.toInt ++ newLine)

def nsqFinish (id : Bytes) : Option Bytes :=
  sprintf maxBufSize (ascii "FIN " ++ cString id ++ newLine)

def nsqTouch (id : Bytes) : Option Bytes :=
  sprintf maxBufSize (ascii "TOUCH " ++ cString id ++ newLine)

def nsqNop : Option Bytes :=
  sprintf maxBufSize (ascii "NOP" ++ newLine)

def nsqRequeue (id : Bytes) (timeoutMs : Int32) : Option Bytes :=
  sprintf maxBufSize (ascii "REQ " ++ cString id ++ ascii " " ++ decimal timeoutMs.toInt ++ newLine)

/-- An `int` has at most ten digits and a sign. -/
theorem length_decimal_int32 (n : Int32) : (decimal n.toInt).length ≤ 11 := by
  have low := n.le_toInt
  have high := n.toInt_lt
  exact length_decimal_le (by norm_num) (by omega)

/-- `nsq_ready` always prints its line. -/
theorem nsqReady_eq (count : Int32) :
    nsqReady count = some (ascii "RDY " ++ decimal count.toInt ++ newLine) := by
  have digits := length_decimal_int32 count
  have word : (ascii "RDY ").length = 4 := rfl
  have line : newLine.length = 1 := rfl
  refine sprintf_eq_some.mpr ⟨?_, rfl⟩
  simp only [List.length_append, maxBufSize]
  omega

/-- So does `nsq_nop`. -/
theorem nsqNop_eq : nsqNop = some (ascii "NOP" ++ newLine) := rfl

section Ids

variable {id : Bytes}

/-- An id of sixteen bytes leaves room for the rest of the line. -/
theorem nsqFinish_eq (short : (cString id).length ≤ 16) :
    nsqFinish id = some (ascii "FIN " ++ cString id ++ newLine) := by
  have word : (ascii "FIN ").length = 4 := rfl
  have line : newLine.length = 1 := rfl
  refine sprintf_eq_some.mpr ⟨?_, rfl⟩
  simp only [List.length_append, maxBufSize]
  omega

theorem nsqTouch_eq (short : (cString id).length ≤ 16) :
    nsqTouch id = some (ascii "TOUCH " ++ cString id ++ newLine) := by
  have word : (ascii "TOUCH ").length = 6 := rfl
  have line : newLine.length = 1 := rfl
  refine sprintf_eq_some.mpr ⟨?_, rfl⟩
  simp only [List.length_append, maxBufSize]
  omega

theorem nsqRequeue_eq (short : (cString id).length ≤ 16) (timeoutMs : Int32) :
    nsqRequeue id timeoutMs = some (ascii "REQ " ++ cString id ++ ascii " " ++
      decimal timeoutMs.toInt ++ newLine) := by
  have digits := length_decimal_int32 timeoutMs
  have words : (ascii "REQ ").length = 4 ∧ (ascii " ").length = 1 := ⟨rfl, rfl⟩
  have line : newLine.length = 1 := rfl
  refine sprintf_eq_some.mpr ⟨?_, rfl⟩
  simp only [List.length_append, maxBufSize]
  omega

end Ids

end PhpNsq
