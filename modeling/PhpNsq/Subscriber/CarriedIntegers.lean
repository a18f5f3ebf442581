import PhpNsq.Subscriber.Sessions

/-!
# The integers of the settings in a consumer's commands

A consumer is started with a count and a delay. The count stays in the settings, and the delay
is copied into every queue entry and from there into the `REQ` behind a failed callback.

In every run all entries have the delay of the settings, and every `RDY` and `REQ` that
the extension writes on any connection has the numbers of the settings (`carried`). Nothing is
asked of the run: connections may be lost at any time, and ids may contain a NUL.
-/

set_option autoImplicit false

namespace PhpNsq

open Foundations

/-- The `RDY` and `REQ` of the extension have the numbers of the settings. -/
def Effect.Carries (config : NSQMsg) : Effect → Prop
  | .buffered .extension bytes =>
      (ascii "RDY " <+: bytes → bytes = ascii "RDY " ++ decimal config.rdy.toInt ++ newLine) ∧
      (ascii "REQ " <+: bytes →
        ∃ id, bytes = ascii "REQ " ++ id ++ ascii " " ++ decimal config.delayTime.toInt ++ newLine)
  | _ => True

/-! ## The commands -/

section Commands

variable {config : NSQMsg}

/-- A command with another name. -/
theorem carries_of_ne {bytes : Bytes} (ready : ¬ ascii "RDY " <+: bytes)
    (requeue : ¬ ascii "REQ " <+: bytes) : Effect.Carries config (.buffered .extension bytes) :=
  ⟨fun named => absurd named ready, fun named => absurd named requeue⟩

theorem carries_nop : nop.Carries config := carries_of_ne (by decide) (by decide)

theorem carries_subscribe (text : Bytes) :
    Effect.Carries config (.buffered .extension (ascii "SUB " ++ text)) :=
  carries_of_ne (by simp [ascii]) (by simp [ascii])

theorem carries_ready {rdy : Int32} (same : rdy = config.rdy) : (ready rdy).Carries config := by
  subst same
  exact ⟨fun _ => rfl, fun named => absurd named (by simp [ascii])⟩

/-- The settlement of an entry with the delay of the settings. -/
theorem carries_settlement {msg : PendingMessage} (terminated : msg.Terminated)
    (delay : msg.delayTime = config.delayTime) (callbackSuccess : Bool) :
    Effect.Carries config (.buffered .extension (settlement msg callbackSuccess)) := by
  have short : (cString msg.messageId).length ≤ 16 := by
    rw [terminated.1, cString_append_zero]
    exact (length_cString_le _).trans terminated.2
  rw [settlement_of_name short, delay]
  cases callbackSuccess with
  | true => exact carries_of_ne (by simp [settlementText, ascii]) (by simp [settlementText, ascii])
  | false =>
      refine ⟨fun named => absurd named (by simp [settlementText, ascii]), fun _ => ?_⟩
      exact ⟨cString msg.messageId, rfl⟩

/-- What the callback writes is its own. -/
theorem Effect.ByUser.carries {effect : Effect} (byUser : effect.ByUser) : effect.Carries config := by
  cases effect with
  | buffered origin bytes =>
      cases origin with
      | user => trivial
      | extension => exact byUser.elim
  | direct origin bytes => trivial
  | enqueued msg => trivial
  | called object => trivial

end Commands

/-! ## Reading -/

/-- The settings are those of the consumer, and so are the delays of the entries and the numbers of
the commands. -/
structure ReadState.Carries (config : NSQMsg) (s : ReadState) : Prop where
  settings : s.msg.settings = config.settings
  waiting : ∃ waiting, s.queue.Holds waiting ∧
    ∀ msg ∈ waiting, msg.delayTime = config.delayTime ∧ msg.Terminated
  log : ∀ effect ∈ s.log, effect.Carries config

namespace ReadState.Carries

variable {config : NSQMsg} {s t : ReadState}

/-- **A pass keeps the numbers.** -/
theorem moves (carries : s.Carries config) (moves : Moves s t) : t.Carries config := by
  obtain ⟨waiting, holds, entries⟩ := carries.waiting
  cases moves with
  | nothing settings log queue =>
      exact ⟨settings.trans carries.settings, ⟨waiting, queue ▸ holds, entries⟩, log ▸ carries.log⟩
  | answered settings log queue =>
      refine ⟨settings.trans carries.settings, ⟨waiting, queue ▸ holds, entries⟩, ?_⟩
      rw [log]
      exact List.forall_mem_append.mpr
        ⟨carries.log, List.forall_mem_singleton.mpr carries_nop⟩
  | enqueued messageId body bodyLen timestamp attempts whole settings log enqueued =>
      have delay : s.msg.delayTime = config.delayTime :=
        NSQMsg.delayTime_of_settings carries.settings
      obtain ⟨queue', again, longer⟩ := holds.enqueueMessage messageId body bodyLen timestamp
        attempts s.msg.delayTime s.msg.autoFinish
      obtain rfl := Option.some.inj (again.symm.trans enqueued)
      refine ⟨settings.trans carries.settings, ⟨_, longer, ?_⟩, ?_⟩
      · exact List.forall_mem_append.mpr ⟨entries, List.forall_mem_singleton.mpr
          ⟨delay, terminated_pendingMessage _ _ _ _ _ _ _ whole⟩⟩
      · rw [log]
        exact List.forall_mem_append.mpr ⟨carries.log, List.forall_mem_singleton.mpr trivial⟩

/-- So does a call of `readcb`. -/
theorem readcb (carries : s.Carries config) {malloc : Malloc} {call : ReadCall}
    (returns : Readcb malloc s call t) : t.Carries config := by
  have keeps : (s.receive call.chunk).Carries config → t.Carries config := by
    refine @relates_of_exits _ _ _ _ (fun s t => s.Carries config → t.Carries config) ?_ ?_ ?_
      returns
    · exact fun _ carries => carries
    · exact fun _ _ _ first second carries => second (first carries)
    · exact fun _ _ yields carries => carries.moves (moves_pass yields)
  exact keeps ⟨carries.settings, carries.waiting, carries.log⟩

end ReadState.Carries

/-! ## Runs of a consumer -/

/-- The same for the process and all connections before. -/
structure Consumer.Carries (config : NSQMsg) (c : Consumer) : Prop where
  read : c.read.Carries config
  past : ∀ connection ∈ c.past, ∀ effect ∈ connection.log, effect.Carries config

namespace Consumer.Carries

variable {config : NSQMsg} {malloc : Malloc} {nsqConfig : Option Bytes} {c c' : Consumer}

theorem initial : Carries config (.initial config) :=
  ⟨⟨rfl, ⟨[], .initial, List.forall_mem_nil _⟩, List.forall_mem_nil _⟩, List.forall_mem_nil _⟩

theorem connections (carries : c.Carries config) :
    ∀ connection ∈ c.connections, ∀ effect ∈ connection.log, effect.Carries config :=
  List.forall_mem_append.mpr ⟨carries.past, List.forall_mem_singleton.mpr carries.read.log⟩

theorem reconnect (carries : c.Carries config) (link : Link) :
    Carries config (c.reconnect link) :=
  ⟨⟨carries.read.settings, carries.read.waiting, List.forall_mem_nil _⟩, carries.connections⟩

theorem connected (carries : c.Carries config) (step : c.connected nsqConfig = some c') :
    Carries config c' := by
  obtain ⟨-, past, behind, opened, rfl⟩ := Consumer.connected_cases step
  obtain ⟨-, -, -, rfl⟩ := opening_cases opened
  have rdy := NSQMsg.rdy_of_settings carries.read.settings
  refine ⟨⟨carries.read.settings, carries.read.waiting, ?_⟩, carries.past⟩
  intro effect member
  rcases List.mem_append.mp member with member | buffered
  · rcases List.mem_append.mp member with before | direct
    · exact carries.read.log effect before
    · obtain ⟨bytes, -, rfl⟩ := List.mem_map.mp direct
      trivial
  · simp only [List.map_cons, List.map_nil, List.mem_cons, List.not_mem_nil, or_false] at buffered
    rcases buffered with rfl | rfl
    · simpa using carries_subscribe _
    · exact carries_ready rdy

theorem tick (carries : c.Carries config) {run : CallbackRun} (step : c.tick run = some c') :
    Carries config c' := by
  obtain ⟨waiting, holds, entries⟩ := carries.read.waiting
  have rdy := NSQMsg.rdy_of_settings carries.read.settings
  obtain ⟨effects, exception, queue, processed, -, rfl⟩ := Consumer.tick_cases step
  rcases processMessageQueue_cases holds processed with
    ⟨rfl, rfl, -, rfl⟩ | ⟨first, rest, issued, success, rfl, holds', user, rfl⟩
  · refine ⟨⟨carries.read.settings, ⟨[], holds, List.forall_mem_nil _⟩, ?_⟩, carries.past⟩
    rw [List.append_nil]
    exact carries.read.log
  · obtain ⟨⟨delay, terminated⟩, later⟩ := List.forall_mem_cons.mp entries
    refine ⟨⟨carries.read.settings, ⟨rest, holds', later⟩, ?_⟩, carries.past⟩
    refine List.forall_mem_append.mpr ⟨carries.read.log, List.forall_mem_append.mpr
      ⟨forall_mem_handed trivial ?_ ?_, List.forall_mem_singleton.mpr (carries_ready rdy)⟩⟩
    · exact fun effect member => (user effect member).carries
    · exact fun _ => carries_settlement terminated delay success

theorem lost (carries : c.Carries config) {reason : Loss} {outcome : Subscription}
    (step : c.lost reason outcome = some c') : Carries config c' := by
  obtain ⟨-, ⟨link, exception, -, rfl⟩ | rfl⟩ := Consumer.lost_cases step
  · have new := carries.reconnect link
    exact ⟨new.read, new.past⟩
  · exact ⟨carries.read, carries.past⟩

/-- **Every event keeps the numbers.** -/
theorem step (carries : c.Carries config) {event : ConsumerEvent}
    (step : Consumes malloc nsqConfig c event c') : Carries config c' := by
  cases event with
  | connected => exact carries.connected step
  | received call =>
      obtain ⟨-, read, returns, rfl⟩ := step
      exact ⟨carries.read.readcb returns, carries.past⟩
  | tick run => exact carries.tick step
  | lost reason outcome => exact carries.lost step

end Consumer.Carries

/-- **In every run** the commands on all connections have the numbers of the settings. -/
theorem carried {config : NSQMsg} {malloc : Malloc} {nsqConfig : Option Bytes}
    {events : List ConsumerEvent} {last : Consumer}
    (run : Run (Consumes malloc nsqConfig) (.initial config) events last) :
    ∀ connection ∈ last.connections, ∀ effect ∈ connection.log, effect.Carries config := by
  have carries : last.Carries config := by
    apply run.invariant (fun _ c => c.Carries config)
    · exact fun _ c event next here one => here.step one
    · exact .initial
  exact carries.connections

end PhpNsq
