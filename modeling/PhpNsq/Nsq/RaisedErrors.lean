import PhpNsq.Nsq.Connections

/-!
# What a raised error stops

`throw_exception` records an exception and comes back, so a method has to return behind it.
`subscribe` does when the topic is missing, and nowhere else: behind the other checks a method
goes on with the value that it has just found missing. NULL is not even checked.

A call on an object without connections, or with a configuration that lacks a key, therefore raises
its exception and does nothing else exactly when it is `subscribe` without a topic
(`onlyRaises_iff`).
-/

set_option autoImplicit false

namespace PhpNsq

open Foundations

/-- A call of a method that checks what it needs. -/
inductive CheckedCall where
  | closeNsqdConnection (closes : ℤ → Bool)
  | publish (topic msg : Bytes) (rand : ℕ) (re : ℤ)
  | deferredPublish (topic msg : Bytes) (delayTime : Int64) (rand : ℕ) (re : ℤ)
  | subscribe (address : Bytes) (config : SubscribeConfig) (answers : List LookupAnswer)

namespace CheckedCall

/-- The call. -/
def result (self : Nsq) : CheckedCall → CallResult
  | .closeNsqdConnection closes => self.closeNsqdConnection closes
  | .publish topic msg rand re => self.publish topic msg rand re
  | .deferredPublish topic msg delayTime rand re =>
      self.deferredPublish topic msg delayTime rand re
  | .subscribe address config answers => self.subscribe address config answers

/-- What the call needs is missing: the connections, or a key of the configuration. -/
def Lacks (self : Nsq) : CheckedCall → Prop
  | .subscribe _ config _ => config.topic = none ∨ config.channel = none
  | _ => self.nsqdConnectionFds = none ∨ self.nsqdConnectionFds = some []

/-- `subscribe` without a topic. -/
def LacksTopic : CheckedCall → Prop
  | .subscribe _ config _ => config.topic = none
  | _ => False

end CheckedCall

/-- **An exception and nothing else**: the call returns, and leaves the object as it was. -/
structure CallResult.OnlyRaises (result : CallResult) (before : Nsq) : Prop where
  raises : ∃ code, result.effects = [throwException code]
  returns : ∃ value, result.ending = .returned value
  unchanged : result.obj = before

/-- `subscribe` asks the lookup before anything else. -/
theorem subscribeLookup_effects (self : Nsq) (address topic : Bytes) (config : SubscribeConfig)
    (answers : List LookupAnswer) :
    ∃ more, (subscribeLookup self address topic config answers).effects =
      .lookup address topic :: more := by
  cases answers with
  | nil => exact ⟨[], rfl⟩
  | cons answer answers =>
      cases answer with
      | empty => exact ⟨_, rfl⟩
      | malformed => exact ⟨[], rfl⟩
      | noProducers => exact ⟨_, rfl⟩
      | producers list =>
          cases list with
          | nil => exact ⟨_, rfl⟩
          | cons first others =>
              rw [subscribeLookup]
              split
              · exact ⟨[], rfl⟩
              · exact ⟨[], rfl⟩

section Methods

variable {self : Nsq}

/-- **Publishing without connections is a fault**: NULL is dereferenced, and an empty array
divides by its count. -/
theorem Nsq.publishing_faults (request : Request) (rand : ℕ) (re : ℤ)
    (lacks : self.nsqdConnectionFds = none ∨ self.nsqdConnectionFds = some []) :
    ∃ fault, (self.publishing request rand re).ending = .faulted fault := by
  rcases lacks with null | empty
  · exact ⟨.nullDereference, by rw [Nsq.publishing, null]⟩
  · exact ⟨.remainderByZero, by rw [Nsq.publishing, empty]; rfl⟩

/-- **Closing without connections** is a fault, or replaces the empty array by NULL. -/
theorem Nsq.closeNsqdConnection_lacks (closes : ℤ → Bool)
    (lacks : self.nsqdConnectionFds = none ∨ self.nsqdConnectionFds = some []) :
    (∃ fault, (self.closeNsqdConnection closes).ending = .faulted fault) ∨
      (self.closeNsqdConnection closes).obj ≠ self := by
  rcases lacks with null | empty
  · exact .inl ⟨.nullDereference, by rw [Nsq.closeNsqdConnection, null]⟩
  · right
    intro same
    have closed : (self.closeNsqdConnection closes).obj.nsqdConnectionFds = none := by
      rw [Nsq.closeNsqdConnection, empty]
    rw [same, empty] at closed
    cases closed

/-- Without a topic `subscribe` raises its exception and returns. -/
theorem Nsq.subscribe_of_topic_none {config : SubscribeConfig} (address : Bytes)
    (answers : List LookupAnswer) (missing : config.topic = none) :
    (self.subscribe address config answers).OnlyRaises self := by
  rw [Nsq.subscribe, missing]
  exact ⟨⟨_, rfl⟩, ⟨_, rfl⟩, rfl⟩

/-- **Without a channel it asks the lookup all the same.** -/
theorem Nsq.subscribe_of_channel_none {config : SubscribeConfig} {topic : Bytes}
    (given : config.topic = some topic) (missing : config.channel = none) (address : Bytes)
    (answers : List LookupAnswer) :
    ∃ more, (self.subscribe address config answers).effects =
      throwException .channelKeyRequired :: .lookup address topic :: more := by
  obtain ⟨more, asked⟩ := subscribeLookup_effects self address topic config answers
  refine ⟨more, ?_⟩
  rw [Nsq.subscribe, given, missing]
  exact congrArg (throwException .channelKeyRequired :: ·) asked

end Methods

/-- A fault is no return. -/
theorem CallResult.OnlyRaises.not_faulted {result : CallResult} {self : Nsq}
    (only : result.OnlyRaises self) : ¬ ∃ fault, result.ending = .faulted fault := by
  rintro ⟨fault, faulted⟩
  obtain ⟨value, returned⟩ := only.returns
  rw [faulted] at returned
  cases returned

/-- **Only `subscribe` without a topic stops behind its exception.** -/
theorem onlyRaises_iff {self : Nsq} {call : CheckedCall} (lacks : call.Lacks self) :
    (call.result self).OnlyRaises self ↔ call.LacksTopic := by
  cases call with
  | closeNsqdConnection closes =>
      refine iff_of_false ?_ not_false
      intro only
      rcases Nsq.closeNsqdConnection_lacks closes lacks with faulted | changed
      · exact only.not_faulted faulted
      · exact changed only.unchanged
  | publish topic msg rand re =>
      refine iff_of_false ?_ not_false
      exact fun only => only.not_faulted (Nsq.publishing_faults _ rand re lacks)
  | deferredPublish topic msg delayTime rand re =>
      refine iff_of_false ?_ not_false
      exact fun only => only.not_faulted (Nsq.publishing_faults _ rand re lacks)
  | subscribe address config answers =>
      constructor
      · intro only
        cases topic : config.topic with
        | none => exact topic
        | some name =>
            have missing : config.channel = none := by
              rcases lacks with absent | absent
              · rw [topic] at absent
                cases absent
              · exact absent
            obtain ⟨more, effects⟩ : ∃ more, (self.subscribe address config answers).effects =
                throwException .channelKeyRequired :: .lookup address name :: more :=
              Nsq.subscribe_of_channel_none topic missing address answers
            obtain ⟨code, one⟩ := only.raises
            have asked := (List.cons.inj (effects.symm.trans one)).2
            cases asked
      · exact fun missing => Nsq.subscribe_of_topic_none address answers missing

/-- A configuration with a channel, and without a topic. -/
def topicless : SubscribeConfig := ⟨none, some (ascii "c"), none, none, none, none⟩

theorem onlyRaises_topicless :
    (CheckedCall.result newProcess.obj
      (.subscribe (ascii "127.0.0.1:4161") topicless [])).OnlyRaises newProcess.obj :=
  have lacks : (CheckedCall.subscribe (ascii "127.0.0.1:4161") topicless []).Lacks
      newProcess.obj := .inl rfl
  (onlyRaises_iff lacks).mpr rfl

/-- **On an empty array `publish` raises its exception and divides by zero.** -/
theorem not_onlyRaises_publish :
    ∃ result, newProcess.obj.connectNsqd [] (fun _ => 0) [] = some result ∧
      CheckedCall.Lacks result.obj (.publish (ascii "t") (ascii "m") 0 1) ∧
      ¬ (CheckedCall.result result.obj (.publish (ascii "t") (ascii "m") 0 1)).OnlyRaises
        result.obj := by
  refine ⟨_, rfl, .inr rfl, ?_⟩
  intro only
  obtain ⟨value, returned⟩ := only.returns
  cases returned

end PhpNsq
