import PhpNsq.Common
import PhpNsq.Foundations.Decimal

/-!
# The commands of pub.c

`publish` and `deferredPublish` assemble their command in a buffer of one mebibyte on the
stack. A command that does not fit overruns it and has no result. The topic is a C
string, the message is counted and may contain anything.
-/

set_option autoImplicit false

namespace PhpNsq

open Foundations

/-- `sizeof(buf)`. -/
def publishBuffer : ℕ := 1024 * 1024

/-- `%lld` of an `int`: the upper half of the argument is zero. -/
def longLong (n : Int32) : ℤ := n.toUInt32.toNat

/-- The command that `publish` assembles. -/
def publishCommand (topic msg : Bytes) : Option Bytes :=
  let command := ascii "PUB " ++ cString topic ++ ascii "\n" ++ bigEndian 4 msg.length ++ msg
  if command.length ≤ publishBuffer then some command else none

/-- The command that `deferredPublish` assembles. -/
def deferredPublishCommand (topic msg : Bytes) (deferTime : Int32) : Option Bytes :=
  let command := ascii "DPUB " ++ cString topic ++ ascii " " ++ decimal (longLong deferTime) ++
    ascii "\n" ++ bigEndian 4 msg.length ++ msg
  if command.length ≤ publishBuffer then some command else none

/-- A delay that is not negative is printed as it is. -/
theorem longLong_of_nonneg {n : Int32} (nonneg : 0 ≤ n.toInt) : longLong n = n.toInt := by
  have le : 0 ≤ n := Int32.le_iff_toInt_le.mpr nonneg
  rw [longLong, Int32.toNat_toUInt32_of_le le]
  exact Int.toNat_of_nonneg nonneg

end PhpNsq
