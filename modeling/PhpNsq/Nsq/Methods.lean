import PhpNsq.Publisher.ConnectNsqd
import PhpNsq.Subscriber.Readcb

/-!
# The methods of Nsq of nsq.c

`connectNsqd`, `closeNsqdConnection`, `publish`, `deferredPublish`, and `subscribe` up to the
workers. A call does things and leaves the object behind; it returns, or runs into a fault
(`Ending`). `throw_exception` is one of the things it does: the call goes on behind it.

A method that works on the array in `nsqd_connection_fds` takes it without looking at the type of
the property, so NULL is dereferenced.
-/

set_option autoImplicit false

namespace PhpNsq

open Foundations

/-- What a call can run into. -/
inductive ObjectFault where
  | nullDereference
  | missingEntry
  | remainderByZero
  deriving DecidableEq

/-- How a call ends. -/
inductive Ending where
  /-- With the value, if there is one. -/
  | returned (value : Option Bool)
  | faulted (fault : ObjectFault)
  /-- `subscribe` waits for the lookup. -/
  | waiting
  /-- `subscribe` has come to its workers. -/
  | starting
  deriving DecidableEq

/-- What a call did, the object that it leaves, and how it ended. -/
structure CallResult where
  effects : List NsqEffect
  obj : Nsq
  ending : Ending

/-! ## connectNsqd -/

/-- The locals of the fill loop. `connectConfigArr` is an index in the array `entries`. -/
structure Filling where
  entries : ℤ → Option NsqdConnectConfig
  connectConfigArr : ℤ
  j : ℕ

/-- One pass of the fill loop. -/
def Filling.add (count : ℕ) (s : Filling) (address : NsqdConnectConfig) : Filling where
  entries := Function.update s.entries s.connectConfigArr (some address)
  connectConfigArr := if s.j + 1 < count then s.connectConfigArr + 1 else s.connectConfigArr
  j := s.j + 1

/-- The fill loop. -/
def fill (addresses : List NsqdConnectConfig) : Filling :=
  addresses.foldl (Filling.add addresses.length) ⟨fun _ => none, 0, 0⟩

/-- One pass of the release loop, on what was freed and the pointer. -/
def releasePass (count : ℕ) (s : List NsqEffect × ℤ) (h : ℕ) : List NsqEffect × ℤ :=
  (s.1 ++ [.freeConfig s.2], if (h : ℤ) < count - 1 then s.2 - 1 else s.2)

/-- The release loop, and the release of the array. -/
def release (connectConfigArr : ℤ) (count : ℕ) : List NsqEffect :=
  let (effects, connectConfigArr) :=
    (List.range count).foldl (releasePass count) ([], connectConfigArr)
  effects ++ [.freeConfigs connectConfigArr]

/-- The beginning of the fill loop, as far as the array goes. -/
theorem fill_prefix {count : ℕ} (taken : List NsqdConnectConfig) (within : taken.length ≤ count) :
    ∃ entries : ℤ → Option NsqdConnectConfig, (∀ k : ℕ, entries k = taken[k]?) ∧
      taken.foldl (Filling.add count) ⟨fun _ => none, 0, 0⟩ =
        ⟨entries, (min taken.length (count - 1) : ℕ), taken.length⟩ := by
  induction taken using List.reverseRecOn with
  | nil => exact ⟨fun _ => none, fun k => rfl, rfl⟩
  | append_singleton taken address ih =>
      rw [List.length_append, List.length_singleton] at within
      obtain ⟨entries, hold, filled⟩ := ih (by omega)
      have place : min taken.length (count - 1) = taken.length := by omega
      rw [place] at filled
      refine ⟨Function.update entries taken.length (some address), ?_, ?_⟩
      · intro k
        by_cases here : k = taken.length
        · rw [here, Function.update_self, List.getElem?_concat_length]
        · have apart : (k : ℤ) ≠ taken.length := by omega
          rw [Function.update_of_ne apart, hold, List.getElem?_append]
          split
          · rfl
          · next behind =>
              rw [List.getElem?_eq_none (by omega), List.getElem?_eq_none]
              rw [List.length_singleton]
              omega
      · rw [List.foldl_append, filled, List.length_append, List.length_singleton, List.foldl_cons,
          List.foldl_nil, Filling.add]
        congr 1
        split
        · next more =>
            change taken.length + 1 < count at more
            rw [min_eq_left (by omega)]
            rfl
        · next last =>
            change ¬ taken.length + 1 < count at last
            have full : min (taken.length + 1) (count - 1) = taken.length := by omega
            rw [full]

/-- **The fill loop**: the addresses in order, and the pointer on the last entry. -/
theorem fill_eq (addresses : List NsqdConnectConfig) :
    (∀ k : ℕ, (fill addresses).entries k = addresses[k]?) ∧
      (fill addresses).connectConfigArr = ((addresses.length - 1 : ℕ) : ℤ) := by
  obtain ⟨entries, hold, filled⟩ := fill_prefix addresses le_rfl
  rw [fill, filled]
  exact ⟨hold, congrArg Nat.cast (min_eq_right (Nat.sub_le ..))⟩

/-- The beginning of the release loop: entry by entry downwards. -/
theorem release_passes {count passes : ℕ} (within : passes ≤ count) (connectConfigArr : ℤ) :
    (List.range passes).foldl (releasePass count) ([], connectConfigArr) =
      ((List.range passes).map fun h : ℕ => .freeConfig (connectConfigArr - h),
        connectConfigArr - (min passes (count - 1) : ℕ)) := by
  induction passes with
  | zero => simp
  | succ passes ih =>
      have place : min passes (count - 1) = passes := by omega
      rw [List.range_succ, List.foldl_append, ih (by omega), place, List.foldl_cons,
        List.foldl_nil, releasePass, List.map_append]
      refine Prod.ext rfl ?_
      -- the pointer behind the pass
      change (if (passes : ℤ) < count - 1 then connectConfigArr - passes - 1
        else connectConfigArr - passes) = _
      split
      · omega
      · omega

/-- **The release loop** frees the entries downwards, and then the array from where the pointer
stands. -/
theorem release_eq (connectConfigArr : ℤ) (count : ℕ) :
    release connectConfigArr count =
      ((List.range count).map fun h : ℕ => .freeConfig (connectConfigArr - h)) ++
        [.freeConfigs (connectConfigArr - (count - 1 : ℕ))] := by
  rw [release, release_passes le_rfl, min_eq_right (Nat.sub_le ..)]

/-- What holds of freeing holds of all that the release loop does. -/
theorem forall_mem_release {holds : NsqEffect → Prop} (entry : ∀ index, holds (.freeConfig index))
    (array : ∀ index, holds (.freeConfigs index)) (connectConfigArr : ℤ) (count : ℕ) :
    ∀ effect ∈ release connectConfigArr count, holds effect := by
  rw [release_eq]
  exact List.forall_mem_append.mpr
    ⟨List.forall_mem_map.mpr fun _ _ => entry _, List.forall_mem_singleton.mpr (array _)⟩

/-- Releasing opens nothing and closes nothing. -/
theorem release_quiet (connectConfigArr : ℤ) (count : ℕ) :
    ∀ effect ∈ release connectConfigArr count, effect.Quiet :=
  forall_mem_release (fun _ => trivial) (fun _ => trivial) connectConfigArr count

namespace Nsq

variable (self : Nsq)

/-- `Nsq::connectNsqd`, for the memory that `sock_arr` is allocated in and the answers of the
kernel. -/
def connectNsqd (addresses : List NsqdConnectConfig) (memory : Cells ℤ) (answers : List Attempt) :
    Option CallResult :=
  let count := addresses.length
  let filled := fill addresses
  (PhpNsq.connectNsqd self filled.entries filled.connectConfigArr count memory answers).map
    fun (effects, sockArr, obj) =>
      { effects := effects ++ release filled.connectConfigArr count
        obj := obj
        ending := .returned (some ((List.range count).all fun i => decide (0 < sockArr i))) }

/-! ## closeNsqdConnection -/

/-- `Nsq::closeNsqdConnection`, given which descriptors `close` succeeds for. -/
def closeNsqdConnection (closes : ℤ → Bool) : CallResult :=
  match self.nsqdConnectionFds with
  | none => ⟨[], self, .faulted .nullDereference⟩
  | some connectionFds =>
      let count := connectionFds.length
      let closed := (connectionFds.map Prod.snd).filter fun val => decide (0 < val)
      { effects := (if count = 0 then [throwException .noConnection] else []) ++
          closed.map .close
        obj := { self with nsqdConnectionFds := none }
        ending := .returned (some (closed.all closes)) }

/-! ## publish and deferredPublish -/

/-- What `publish` and `deferredPublish` have in common, for the value of `rand` and the value
that the function of pub.c returns. -/
def publishing (request : Request) (rand : ℕ) (re : ℤ) : CallResult :=
  match self.nsqdConnectionFds with
  | none => ⟨[], self, .faulted .nullDereference⟩
  | some val =>
      let count := val.length
      let thrown := if count = 0 then [throwException .unableToPublishMessage] else []
      if count = 0 then ⟨thrown, self, .faulted .remainderByZero⟩
      else
        match val.lookup (rand % count) with
        | none => ⟨thrown, self, .faulted .missingEntry⟩
        | some sock => ⟨thrown ++ [.publish sock request], self, .returned (some (decide (re > 0)))⟩

/-- `Nsq::publish`. -/
def publish (topic msg : Bytes) (rand : ℕ) (re : ℤ) : CallResult :=
  self.publishing (.publish topic msg) rand re

/-- `Nsq::deferredPublish`. The delay is passed on as an `int`. -/
def deferredPublish (topic msg : Bytes) (delayTime : Int64) (rand : ℕ) (re : ℤ) : CallResult :=
  self.publishing (.deferredPublish topic msg delayTime.toInt32) rand re

end Nsq

/-! ## subscribe -/

/-- The keys of the array that `subscribe` is given. `auto_finish` is there when it is a Boolean. -/
structure SubscribeConfig where
  topic : Option Bytes
  channel : Option Bytes
  rdy : Option Int64
  retryDelayTime : Option Int64
  connectNum : Option Int64
  autoFinish : Option Bool

/-- A producer in the answer of the lookup. -/
structure Producer where
  broadcastAddress : Bytes
  tcpPort : Bytes
  deriving DecidableEq

/-- The answer of the lookup. -/
inductive LookupAnswer where
  /-- The empty string. -/
  | empty
  /-- A text that is not the JSON text of an array. -/
  | malformed
  | noProducers
  | producers (list : List Producer)

/-- The loop at `lookup`, for the answers of the lookup one after the other. The spawn loop takes
the string of the channel in every pass. -/
def subscribeLookup (self : Nsq) (address topic : Bytes) (config : SubscribeConfig) :
    List LookupAnswer → CallResult
  | [] => ⟨[.lookup address topic], self, .waiting⟩
  | .empty :: _ =>
      ⟨[.lookup address topic, throwException .lookupdServerNotAvailable], self, .returned none⟩
  | .malformed :: _ => ⟨[.lookup address topic], self, .faulted .nullDereference⟩
  | .noProducers :: _ =>
      ⟨[.lookup address topic, throwException .topicNotExists], self, .returned none⟩
  | .producers [] :: answers =>
      let again := subscribeLookup self address topic config answers
      { again with effects := .lookup address topic :: .sleep 10 :: again.effects }
  | .producers (_ :: _) :: _ =>
      if 0 < config.connectNum.getD 1 ∧ config.channel = none then
        ⟨[.lookup address topic], self, .faulted .nullDereference⟩
      else ⟨[.lookup address topic], self, .starting⟩

/-- `Nsq::subscribe` up to its workers, with the address of the lookup. -/
def Nsq.subscribe (self : Nsq) (address : Bytes) (config : SubscribeConfig)
    (answers : List LookupAnswer) : CallResult :=
  match config.topic with
  | none => ⟨[throwException .topicKeyRequired], self, .returned none⟩
  | some topic =>
      let rest := subscribeLookup self address topic config answers
      { rest with
        effects := (if config.channel.isNone then [throwException .channelKeyRequired] else []) ++
          rest.effects }

end PhpNsq
