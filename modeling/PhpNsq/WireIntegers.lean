import PhpNsq.Nsq.Workers
import PhpNsq.Subscriber.CarriedIntegers

/-!
# The integers of PHP on the wire

Four integers of PHP get into a command: the delay of `deferredPublish`, the time of `requeue`, and
the settings `rdy` and `retry_delay_time` of `subscribe`. Each is passed on as an `int`, and no
call is refused for it. A delay of `deferredPublish` is printed with `%lld`, as an unsigned number.

So an integer arrives unchanged exactly when it fits (`IntegerPath.Fits`,
`integer_reaches_iff`). Any other one is replaced by the number it leaves modulo `2 ^ 32`.
-/

set_option autoImplicit false

namespace PhpNsq

open Foundations

/-- The decimal number between two texts of a command denotes the integer. -/
def Denotes (head tail : Bytes) (v : Int64) (bytes : Bytes) : Prop :=
  ∃ text, bytes = head ++ text ++ tail ∧ readDecimal text = some v.toInt

/-- Where an integer is given. -/
inductive IntegerPath where
  | deferredPublish
  | requeue
  | rdy
  | retryDelayTime

/-- **The integer reaches the wire unchanged**: in every command that comes of it, its number
is there. For the settings these are the commands of the extension in all runs of a consumer, on
all connections. -/
def IntegerPath.Reaches (v : Int64) : IntegerPath → Prop
  | .deferredPublish => ∀ (self : Nsq) (topic msg : Bytes) (rand : ℕ) (re sock : ℤ)
      (request : Request) (bytes : Bytes),
      .publish sock request ∈ (self.deferredPublish topic msg v rand re).effects →
      request.command = some bytes →
      Denotes (ascii "DPUB " ++ cString topic ++ ascii " ")
        (ascii "\n" ++ bigEndian 4 msg.length ++ msg) v bytes
  | .requeue => ∀ (messageId : Bytes) (effect : Effect),
      (UserAction.requeue messageId v).effect = some effect →
      ∃ bytes, effect = .buffered .user bytes ∧
        Denotes (ascii "REQ " ++ cString messageId ++ ascii " ") newLine v bytes
  | .rdy => ∀ (config : SubscribeConfig) (topic channel : Bytes) (callback : ℕ)
      (producer : Producer) (malloc : Malloc) (nsqConfig : Option Bytes)
      (events : List ConsumerEvent) (last : Consumer), config.rdy = some v →
      Run (Consumes malloc nsqConfig)
        (.initial (config.nsqArg topic channel callback producer).msg) events last →
      ∀ connection ∈ last.connections, ∀ bytes,
        .buffered .extension bytes ∈ connection.log → ascii "RDY " <+: bytes →
        Denotes (ascii "RDY ") newLine v bytes
  | .retryDelayTime => ∀ (config : SubscribeConfig) (topic channel : Bytes) (callback : ℕ)
      (producer : Producer) (malloc : Malloc) (nsqConfig : Option Bytes)
      (events : List ConsumerEvent) (last : Consumer), config.retryDelayTime = some v →
      Run (Consumes malloc nsqConfig)
        (.initial (config.nsqArg topic channel callback producer).msg) events last →
      ∀ connection ∈ last.connections, ∀ bytes,
        .buffered .extension bytes ∈ connection.log → ascii "REQ " <+: bytes →
        ∃ id, Denotes (ascii "REQ " ++ id ++ ascii " ") newLine v bytes

/-- The range of an `int`, and for `%lld` that of an unsigned one. -/
def IntegerPath.Fits (v : Int64) : IntegerPath → Prop
  | .deferredPublish => 0 ≤ v.toInt ∧ v.toInt < 2 ^ 32
  | _ => -2 ^ 31 ≤ v.toInt ∧ v.toInt < 2 ^ 31

/-! ## Conversion and printing -/

section Conversion

variable {v : Int64} {head tail : Bytes}

/-- As an `int` an integer is the same when it fits. -/
theorem toInt_toInt32_iff : v.toInt32.toInt = v.toInt ↔ -2 ^ 31 ≤ v.toInt ∧ v.toInt < 2 ^ 31 := by
  rw [Int64.toInt_toInt32]
  constructor
  · intro same
    have low : -(((2 ^ 32 : ℕ) : ℤ) / 2) ≤ v.toInt.bmod (2 ^ 32) := Int.le_bmod (by norm_num)
    have high : v.toInt.bmod (2 ^ 32) < (((2 ^ 32 : ℕ) : ℤ) + 1) / 2 := Int.bmod_lt (by norm_num)
    omega
  · rintro ⟨low, high⟩
    exact Int.bmod_eq_of_le (by omega) (by omega)

/-- What `%lld` prints of the `int`. -/
theorem longLong_toInt32 : longLong v.toInt32 = v.toInt % 2 ^ 32 := by
  have bits : v.toInt32.toInt = (longLong v.toInt32).bmod (2 ^ 32) :=
    BitVec.toInt_eq_toNat_bmod _
  have low : 0 ≤ longLong v.toInt32 := Int.natCast_nonneg _
  have high : longLong v.toInt32 < 2 ^ 32 := by
    have bound := v.toInt32.toUInt32.toNat_lt
    rw [longLong]
    omega
  rw [Int64.toInt_toInt32] at bits
  have same := congrArg (· % (((2 ^ 32 : ℕ) : ℤ))) bits
  simp only [Int.bmod_emod] at same
  omega

theorem longLong_toInt32_iff :
    longLong v.toInt32 = v.toInt ↔ 0 ≤ v.toInt ∧ v.toInt < 2 ^ 32 := by
  rw [longLong_toInt32]
  omega

/-- `%lld` prints at most ten digits of an `int`. -/
theorem length_decimal_longLong (n : Int32) : (decimal (longLong n)).length ≤ 11 := by
  have bound := n.toUInt32.toNat_lt
  refine length_decimal_le (by norm_num) ?_
  rw [longLong]
  omega

/-- A number that is printed between two texts. -/
theorem denotes_decimal {n : ℤ} : Denotes head tail v (head ++ decimal n ++ tail) ↔ n = v.toInt := by
  constructor
  · rintro ⟨text, same, read⟩
    obtain rfl : decimal n = text := List.append_cancel_left (List.append_cancel_right same)
    exact Option.some.inj ((readDecimal_decimal n).symm.trans read)
  · rintro rfl
    exact ⟨_, rfl, readDecimal_decimal _⟩

/-- No number has a blank. -/
theorem blank_not_mem_of_readDecimal {text : Bytes} {n : ℤ} (read : readDecimal text = some n) :
    (32 : UInt8) ∉ text := fun member =>
  (readDecimal_bytes read member).elim (by decide) (by decide)

/-- What stands behind the last separator. -/
theorem eq_of_last {first second behind other : Bytes} {separator : UInt8}
    (same : first ++ separator :: behind = second ++ separator :: other)
    (free : separator ∉ behind) (free' : separator ∉ other) : behind = other := by
  rcases List.append_eq_append_iff.mp same with ⟨more, -, rest⟩ | ⟨more, -, rest⟩
  · cases more with
    | nil => exact (List.cons.inj rest).2
    | cons byte more =>
        rw [(List.cons.inj rest).2] at free
        exact absurd (List.mem_append_right _ (List.mem_cons_self ..)) free
  · cases more with
    | nil => exact (List.cons.inj rest).2.symm
    | cons byte more =>
        rw [(List.cons.inj rest).2] at free'
        exact absurd (List.mem_append_right _ (List.mem_cons_self ..)) free'

/-- The number of a `REQ`, whatever the id is. -/
theorem exists_denotes_requeue {n : ℤ} {id : Bytes} :
    (∃ other, Denotes (ascii "REQ " ++ other ++ ascii " ") newLine v
      (ascii "REQ " ++ id ++ ascii " " ++ decimal n ++ newLine)) ↔ n = v.toInt := by
  constructor
  · rintro ⟨other, text, same, read⟩
    have lines : (ascii "REQ " ++ id) ++ 32 :: decimal n = (ascii "REQ " ++ other) ++ 32 :: text := by
      simpa [ascii] using List.append_cancel_right same
    obtain rfl : decimal n = text := eq_of_last lines
      (blank_not_mem_of_readDecimal (readDecimal_decimal n)) (blank_not_mem_of_readDecimal read)
    exact Option.some.inj ((readDecimal_decimal n).symm.trans read)
  · rintro rfl
    exact ⟨id, denotes_decimal.mpr rfl⟩

end Conversion

/-! ## deferredPublish and requeue -/

section Calls

variable {v : Int64}

/-- What is published is the call's request. -/
theorem Nsq.mem_publishing {self : Nsq} {request published : Request} {rand : ℕ} {re sock : ℤ}
    (member : .publish sock published ∈ (self.publishing request rand re).effects) :
    published = request := by
  rw [Nsq.publishing] at member
  split at member
  · cases member
  · next fds connections =>
      by_cases empty : fds.length = 0
      · simp only [if_pos empty, List.mem_singleton, throwException] at member
        cases member
      · simp only [if_neg empty, List.nil_append] at member
        split at member
        · cases member
        · exact (NsqEffect.publish.inj (List.mem_singleton.mp member)).2

/-- The number of a `DPUB`. -/
theorem reaches_deferredPublish_iff :
    IntegerPath.deferredPublish.Reaches v ↔ IntegerPath.deferredPublish.Fits v := by
  constructor
  · intro reaches
    have bytes : (Request.deferredPublish (ascii "t") [] v.toInt32).command = some
        (ascii "DPUB " ++ cString (ascii "t") ++ ascii " " ++ decimal (longLong v.toInt32) ++
          (ascii "\n" ++ bigEndian 4 0 ++ [])) := by
      have digits := length_decimal_longLong v.toInt32
      rw [Request.command, deferredPublishCommand, if_pos]
      · simp [List.append_assoc]
      · have words : (ascii "DPUB ").length = 5 ∧ (cString (ascii "t")).length = 1 ∧
            (ascii " ").length = 1 ∧ (ascii "\n").length = 1 := ⟨rfl, rfl, rfl, rfl⟩
        simp only [List.length_append, length_bigEndian, List.length_nil, publishBuffer]
        omega
    have denotes := reaches ⟨some [(0, 6)], none, none⟩ (ascii "t") [] 0 1 6 _ _
      (List.mem_singleton_self _) bytes
    exact longLong_toInt32_iff.mp (denotes_decimal.mp denotes)
  · intro fits self topic msg rand re sock request bytes published built
    obtain rfl := Nsq.mem_publishing published
    rw [Request.command, deferredPublishCommand, Option.ite_none_right_eq_some] at built
    obtain rfl := Option.some.inj built.2
    have number : Denotes (ascii "DPUB " ++ cString topic ++ ascii " ")
        (ascii "\n" ++ bigEndian 4 msg.length ++ msg) v (ascii "DPUB " ++ cString topic ++ ascii " " ++
          decimal (longLong v.toInt32) ++ (ascii "\n" ++ bigEndian 4 msg.length ++ msg)) :=
      denotes_decimal.mpr (longLong_toInt32_iff.mpr fits)
    simpa [List.append_assoc] using number

/-- The number of a `REQ` of the callback. -/
theorem reaches_requeue_iff : IntegerPath.requeue.Reaches v ↔ IntegerPath.requeue.Fits v := by
  constructor
  · intro reaches
    obtain ⟨bytes, same, denotes⟩ := reaches [] _
      (congrArg (Option.map (Effect.buffered .user)) (nsqRequeue_eq (Nat.zero_le _) v.toInt32))
    obtain rfl := (Effect.buffered.inj same).2
    exact toInt_toInt32_iff.mp (denotes_decimal.mp denotes)
  · intro fits messageId effect wrote
    obtain ⟨line, printed, rfl⟩ := Option.map_eq_some_iff.mp wrote
    obtain ⟨-, rfl⟩ := sprintf_eq_some.mp printed
    exact ⟨_, rfl, denotes_decimal.mpr (toInt_toInt32_iff.mpr fits)⟩

end Calls

/-! ## rdy and retry_delay_time -/

section Settings

variable {v : Int64} {config : NSQMsg}

/-- Settings with short names, and any numbers. -/
def shortNames (rdy delayTime : Int32) : NSQMsg :=
  ⟨ascii "t", ascii "c", 0, 0, rdy, delayTime, true⟩

theorem opening_shortNames (rdy delayTime : Int32) : opening none (shortNames rdy delayTime) =
    some ([ascii "  V2"],
      [ascii "SUB t c\n", ascii "RDY " ++ decimal rdy.toInt ++ newLine]) := by
  have subscribe : nsqSubscribe (shortNames rdy delayTime).topic (shortNames rdy delayTime).channel =
      some (ascii "SUB t c\n") := rfl
  have ready : nsqReady (shortNames rdy delayTime).rdy = _ := nsqReady_eq rdy
  simp only [opening, subscribe, ready]
  rfl

/-- A connection that comes up gets the count. -/
theorem exists_ready (rdy : Int32) :
    ∃ last, Run (Consumes granted none) (.initial (shortNames rdy 0)) [.connected] last ∧
      ∃ connection ∈ last.connections,
        .buffered .extension (ascii "RDY " ++ decimal rdy.toInt ++ newLine) ∈ connection.log := by
  obtain ⟨up, -⟩ := (Consumer.Idle.initial _).opened (opening_shortNames rdy 0)
  exact ⟨_, ⟨_, up, rfl⟩, _, List.mem_append_right _ (List.mem_singleton_self _),
    List.mem_append_right _ (List.mem_cons_of_mem _ (List.mem_singleton_self _))⟩

/-- A tick that has no callback to call. -/
theorem Consumer.Idle.tick_notCalled {link : Link} {waiting : List PendingMessage} {c : Consumer}
    {first : PendingMessage} (idle : Idle config link (first :: waiting) c) (alive : link ≠ .freed)
    (auto : first.autoFinish = true) :
    ∃ last, c.tick .notCalled = some last ∧
      .buffered .extension (settlement first false) ∈ last.connection.log := by
  obtain ⟨queue, -, processed⟩ :=
    idle.holds.processMessageQueue c.read.msg.rdy .notCalled c.exception
  have requeued : processBusinessMessage .notCalled c.exception first = some
      ([.called first.object, .buffered .extension (settlement first false)], c.exception) := by
    simp [processBusinessMessage, CallbackRun.actions, CallbackRun.success, CallbackRun.exception,
      auto]
  rw [requeued, Option.map_some] at processed
  rw [Consumer.tick, processed]
  refine ⟨_, if_neg fun freed => alive (idle.link.symm.trans freed.1), ?_⟩
  exact List.mem_append_right _ (List.mem_cons_of_mem _ (List.mem_cons_self ..))

/-- A message arrives, and there is no callback to call. -/
def refusedEvents : List ConsumerEvent :=
  [.connected, .received ⟨encodeAll [greeting], zeroMemory⟩, .tick .notCalled]

theorem exists_requeue (delayTime : Int32) :
    ∃ last, Run (Consumes granted none) (.initial (shortNames 1 delayTime)) refusedEvents last ∧
      ∃ connection ∈ last.connections, ∃ id, .buffered .extension
        (ascii "REQ " ++ id ++ ascii " " ++ decimal delayTime.toInt ++ newLine) ∈
          connection.log := by
  obtain ⟨up, idle⟩ := (Consumer.Idle.initial _).opened (opening_shortNames 1 delayTime)
  obtain ⟨read, returns, idle⟩ := idle.received [greeting] (by decide)
  have waiting : Consumer.Idle (shortNames 1 delayTime) .up
      [pendingMessage (ascii "0123456789abcdef") (ascii "hello") 5 0 1 delayTime true] _ := idle
  obtain ⟨last, ticks, written⟩ := waiting.tick_notCalled (by decide) rfl
  rw [settlement_eq rfl (by decide) (by decide)] at written
  exact ⟨last, ⟨_, up, _, ⟨rfl, read, returns, rfl⟩, last, ticks, rfl⟩, _,
    List.mem_append_right _ (List.mem_singleton_self _), _, written⟩

/-- The number of the `RDY` commands. -/
theorem reaches_rdy_iff : IntegerPath.rdy.Reaches v ↔ IntegerPath.rdy.Fits v := by
  constructor
  · intro reaches
    obtain ⟨last, run, connection, member, written⟩ := exists_ready v.toInt32
    have denotes := reaches ⟨none, none, some v, none, none, none⟩ (ascii "t") (ascii "c") 0
      ⟨[], []⟩ granted none [.connected] last rfl run connection member _ written (by simp)
    exact toInt_toInt32_iff.mp (denotes_decimal.mp denotes)
  · intro fits settings topic channel callback producer malloc nsqConfig events last given run
      connection member bytes written named
    have carries := carried run connection member _ written
    rw [carries.1 named]
    refine denotes_decimal.mpr ?_
    have count : (settings.nsqArg topic channel callback producer).msg.rdy = v.toInt32 := by
      simp [SubscribeConfig.nsqArg, given]
    rw [count, toInt_toInt32_iff.mpr fits]

/-- The number of the `REQ` commands of the extension. -/
theorem reaches_retryDelayTime_iff :
    IntegerPath.retryDelayTime.Reaches v ↔ IntegerPath.retryDelayTime.Fits v := by
  constructor
  · intro reaches
    obtain ⟨last, run, connection, member, id, written⟩ := exists_requeue v.toInt32
    have denotes := reaches ⟨none, none, none, some v, none, none⟩ (ascii "t") (ascii "c") 0
      ⟨[], []⟩ granted none refusedEvents last rfl run connection member _ written (by simp)
    exact toInt_toInt32_iff.mp (exists_denotes_requeue.mp denotes)
  · intro fits settings topic channel callback producer malloc nsqConfig events last given run
      connection member bytes written named
    have carries := carried run connection member _ written
    obtain ⟨id, rfl⟩ := carries.2 named
    refine exists_denotes_requeue.mpr ?_
    have delay : (settings.nsqArg topic channel callback producer).msg.delayTime = v.toInt32 := by
      simp [SubscribeConfig.nsqArg, given]
    rw [delay, toInt_toInt32_iff.mpr fits]

end Settings

/-- **Integers on the wire**: an integer arrives unchanged exactly when it fits. -/
theorem integer_reaches_iff (path : IntegerPath) (v : Int64) : path.Reaches v ↔ path.Fits v := by
  cases path with
  | deferredPublish => exact reaches_deferredPublish_iff
  | requeue => exact reaches_requeue_iff
  | rdy => exact reaches_rdy_iff
  | retryDelayTime => exact reaches_retryDelayTime_iff

/-- A delay of `-1` goes out as `4294967295`. -/
theorem not_reaches_negativeDelay :
    (Request.deferredPublish (ascii "t") (ascii "m") (-1 : Int64).toInt32).command =
        some (ascii "DPUB t 4294967295\n" ++ [0, 0, 0, 1] ++ ascii "m") ∧
      ¬ IntegerPath.deferredPublish.Reaches (-1) := by
  refine ⟨by decide, fun reaches => ?_⟩
  exact absurd (reaches_deferredPublish_iff.mp reaches).1 (by decide)

end PhpNsq
