import PhpNsq.Subscriber.Settlement

/-!
# The buffers of the subscriber's commands

Seven places print a command of the subscriber: five functions of command.c, into arrays of
`MAX_BUF_SIZE` bytes, and `process_business_message`, with bounds of 64 and 128.

Only the line of `nsq_subscribe` has two free texts. nsqd accepts names of up to 64 bytes
(`NsqdName`), and two long ones do not fit: all commands fit exactly when the two names have
121 bytes at most together (`commandsFit_iff`).
-/

set_option autoImplicit false

namespace PhpNsq

open Foundations

/-- The characters `[.a-zA-Z0-9_-]`. -/
def NameByte (byte : UInt8) : Prop :=
  byte ∈ ascii ".abcdefghijklmnopqrstuvwxyzABCDEFGHIJKLMNOPQRSTUVWXYZ0123456789_-"

instance : DecidablePred NameByte := fun byte =>
  inferInstanceAs (Decidable (byte ∈ ascii
    ".abcdefghijklmnopqrstuvwxyzABCDEFGHIJKLMNOPQRSTUVWXYZ0123456789_-"))

/-- A name of a topic or a channel that nsqd accepts. -/
def NsqdName (name : Bytes) : Prop :=
  name.length ≤ 64 ∧ ∃ base, base ≠ [] ∧ (∀ byte ∈ base, NameByte byte) ∧
    (name = base ∨ name = base ++ ascii "#ephemeral")

/-- **The commands fit** the arrays they are printed to, and the settlement is not cut. -/
structure CommandsFit (topic channel id : Bytes) (count timeoutMs : Int32) : Prop where
  subscribe : nsqSubscribe topic channel ≠ none
  ready : nsqReady count ≠ none
  finish : nsqFinish id ≠ none
  touch : nsqTouch id ≠ none
  requeue : nsqRequeue id timeoutMs ≠ none
  settlement : ∀ msg : PendingMessage, msg.messageId = id ++ [0] → msg.delayTime = timeoutMs →
    ∀ callbackSuccess,
      settlement msg callbackSuccess = settlementText (cString id) timeoutMs callbackSuccess

section Names

variable {topic channel id : Bytes}

theorem NsqdName.free {name : Bytes} (accepted : NsqdName name) : (0 : UInt8) ∉ name := by
  obtain ⟨-, base, -, bytes, rfl | rfl⟩ := accepted
  · exact fun member => absurd (bytes 0 member) (by decide)
  · intro member
    rcases List.mem_append.mp member with inside | suffix
    · exact absurd (bytes 0 inside) (by decide)
    · exact absurd suffix (by decide)

/-- Two names and the rest of the line. -/
theorem nsqSubscribe_ne_none_iff (first : NsqdName topic) (second : NsqdName channel) :
    nsqSubscribe topic channel ≠ none ↔ topic.length + channel.length ≤ 121 := by
  have words : (ascii "SUB ").length = 4 ∧ (ascii " ").length = 1 ∧ newLine.length = 1 :=
    ⟨rfl, rfl, rfl⟩
  rw [nsqSubscribe, cString_of_notMem first.free, cString_of_notMem second.free, sprintf]
  simp only [List.length_append, maxBufSize]
  split
  · next fits =>
      simp only [ne_eq, reduceCtorEq, not_false_eq_true, true_iff]
      omega
  · next long =>
      simp only [ne_eq, not_true_eq_false, false_iff]
      omega

/-- **The commands fit** exactly when the two names leave room for the line of `nsq_subscribe`. -/
theorem commandsFit_iff (first : NsqdName topic) (second : NsqdName channel)
    (sixteen : id.length = 16) (count timeoutMs : Int32) :
    CommandsFit topic channel id count timeoutMs ↔ topic.length + channel.length ≤ 121 := by
  have short : (cString id).length ≤ 16 := sixteen ▸ length_cString_le id
  constructor
  · exact fun fits => (nsqSubscribe_ne_none_iff first second).mp fits.subscribe
  · intro room
    constructor
    · exact (nsqSubscribe_ne_none_iff first second).mpr room
    · simp [nsqReady_eq]
    · simp [nsqFinish_eq short]
    · simp [nsqTouch_eq short]
    · simp [nsqRequeue_eq short]
    · rintro msg terminated rfl callbackSuccess
      have name : cString msg.messageId = cString id := by rw [terminated, cString_append_zero]
      rw [settlement_of_name (name ▸ short), name]

end Names

/-- A name of many letters. -/
theorem nsqdName_replicate (length : ℕ) (some_byte : length ≠ 0) (short : length ≤ 64) :
    NsqdName (List.replicate length 97) := by
  refine ⟨by simpa using short, _, by simpa using some_byte, ?_, .inl rfl⟩
  intro byte member
  rw [List.eq_of_mem_replicate member]
  decide

/-- The longest topic, and a channel of 57 bytes. -/
theorem commandsFit_longTopic : CommandsFit (List.replicate 64 97) (List.replicate 57 97)
    (ascii "0123456789abcdef") (-2147483648) (-2147483648) :=
  (commandsFit_iff (nsqdName_replicate 64 (by decide) le_rfl)
    (nsqdName_replicate 57 (by decide) (by decide)) (by decide) _ _).mpr (by simp)

/-- Two names of 64 bytes overrun the array by seven. -/
theorem not_commandsFit_longNames :
    NsqdName (List.replicate 64 97) ∧
      nsqSubscribe (List.replicate 64 97) (List.replicate 64 97) = none ∧
      ¬ CommandsFit (List.replicate 64 97) (List.replicate 64 97) (ascii "0123456789abcdef") 1 0 := by
  have name : NsqdName (List.replicate 64 97) := nsqdName_replicate 64 (by decide) le_rfl
  have overrun : ¬ nsqSubscribe (List.replicate 64 97) (List.replicate 64 97) ≠ none := by
    rw [nsqSubscribe_ne_none_iff name name]
    simp
  exact ⟨name, not_not.mp overrun, fun fits => overrun fits.subscribe⟩

end PhpNsq
