import PhpNsq.Foundations.Runs
import PhpNsq.Subscriber.UserSettlement

/-!
# The output stream of a connection

Most commands go into the output buffer of the bufferevent, and libevent moves bytes from
its front to the socket when it gets to it. `nsq_touch` writes its line to the
descriptor itself, past whatever is in the buffer, and does not look at how much was taken.

`Output` has the bytes that reached the socket and those in the buffer. Its events are the
effects that are issued and the flushes, in any order. The invariant is `InOrder`: what
reached the socket and what is buffered are together the commands that were
issued. Buffered commands and flushes keep it; a direct write keeps it when the buffer is empty
and the whole line is taken (`Orderly`).
-/

set_option autoImplicit false

namespace PhpNsq

open Foundations

/-- What has reached the socket, and what is in the output buffer. -/
structure Output where
  reached : Bytes
  buffer : Bytes

/-- An effect is issued, where `write` would give `accepted`; or a flush moves some bytes. -/
inductive OutputEvent where
  | issue (effect : Effect) (accepted : ℤ)
  | flush (count : ℕ)

/-- The command that an effect is. -/
def Effect.command : Effect → Bytes
  | .buffered _ line => line
  | .direct _ line => line
  | _ => []

/-- The commands that were issued, in order. -/
def commands (events : List OutputEvent) : Bytes :=
  events.flatMap fun
    | .issue effect _ => effect.command
    | .flush _ => []

/-- No output yet. -/
def Output.initial : Output := ⟨[], []⟩

/-- One event. -/
def Output.step (s : Output) : OutputEvent → Option Output
  | .issue (.buffered _ line) _ => some { s with buffer := s.buffer ++ line }
  | .issue (.direct _ line) accepted =>
      if -1 ≤ accepted ∧ accepted ≤ line.length then
        some { s with reached := s.reached ++ line.take accepted.toNat }
      else none
  | .issue _ _ => some s
  | .flush count =>
      if count ≤ s.buffer.length then
        some ⟨s.reached ++ s.buffer.take count, s.buffer.drop count⟩
      else none

/-- The events on the output of a connection. -/
def Outputs (s : Output) (event : OutputEvent) (s' : Output) : Prop := s.step event = some s'

/-- A direct write finds the buffer empty and is taken whole. -/
def Orderly (s : Output) : OutputEvent → Prop
  | .issue (.direct _ line) accepted => s.buffer = [] ∧ accepted = line.length
  | _ => True

/-- **The invariant**: the commands so far are what reached the socket and what is buffered. -/
def Output.InOrder (events : List OutputEvent) (s : Output) : Prop :=
  s.reached ++ s.buffer = commands events

section Order

variable {s s' : Output} {events : List OutputEvent}

@[simp] theorem commands_append (first second : List OutputEvent) :
    commands (first ++ second) = commands first ++ commands second := List.flatMap_append

/-- An issued effect adds its command. -/
theorem commands_issue (effect : Effect) (accepted : ℤ) :
    commands [.issue effect accepted] = effect.command := by
  simp [commands]

theorem Output.InOrder.initial : InOrder [] Output.initial := rfl

/-- A command goes to the end of the buffer. -/
theorem Output.InOrder.buffered (order : s.InOrder events) (origin : Origin) (line : Bytes)
    (accepted : ℤ) :
    InOrder (events ++ [.issue (.buffered origin line) accepted])
      { s with buffer := s.buffer ++ line } := by
  rw [InOrder] at order
  rw [InOrder, commands_append, commands_issue, ← order, Effect.command, List.append_assoc]

/-- A line that is written past an empty buffer follows what has been written. -/
theorem Output.InOrder.direct (order : s.InOrder events) (empty : s.buffer = []) (origin : Origin)
    (line : Bytes) :
    InOrder (events ++ [.issue (.direct origin line) line.length])
      { s with reached := s.reached ++ line } := by
  rw [InOrder, empty, List.append_nil] at order
  rw [InOrder, commands_append, commands_issue, ← order, Effect.command, empty, List.append_nil]

/-- An effect that is no command adds nothing. -/
theorem Output.InOrder.silent {effect : Effect} (order : s.InOrder events)
    (silent : effect.command = []) (accepted : ℤ) :
    s.InOrder (events ++ [.issue effect accepted]) := by
  rw [InOrder, commands_append, commands_issue, silent, List.append_nil]
  exact order

/-- A flush moves bytes from the front of the buffer. -/
theorem Output.InOrder.flush (order : s.InOrder events) (count : ℕ) :
    InOrder (events ++ [.flush count])
      ⟨s.reached ++ s.buffer.take count, s.buffer.drop count⟩ := by
  rw [InOrder] at order
  rw [InOrder, commands_append, ← order, List.append_assoc, List.take_append_drop]
  exact (List.append_nil _).symm

/-- **An orderly event keeps the order.** -/
theorem Output.InOrder.step {event : OutputEvent} (order : s.InOrder events)
    (orderly : Orderly s event) (one : Outputs s event s') : s'.InOrder (events ++ [event]) := by
  cases event with
  | flush count =>
      rw [Outputs, Output.step, Option.ite_none_right_eq_some] at one
      obtain rfl := Option.some.inj one.2
      exact order.flush count
  | issue effect accepted =>
      cases effect with
      | buffered origin line =>
          obtain rfl := Option.some.inj one
          exact order.buffered origin line accepted
      | direct origin line =>
          obtain ⟨empty, rfl⟩ := orderly
          rw [Outputs, Output.step, Option.ite_none_right_eq_some] at one
          obtain rfl := Option.some.inj one.2
          rw [Int.toNat_natCast, List.take_length]
          exact order.direct empty origin line
      | enqueued message =>
          obtain rfl := Option.some.inj one
          exact order.silent rfl accepted
      | called message =>
          obtain rfl := Option.some.inj one
          exact order.silent rfl accepted

/-- **The output stream is the commands in order.** In every run whose direct writes are orderly,
the bytes that have reached the socket are a beginning of the commands issued. -/
theorem orderly_reached {last : Output}
    (run : Run (guarded Orderly Outputs) Output.initial events last) :
    last.reached <+: commands events := by
  have order : last.InOrder events := by
    apply run.invariant (fun taken s => s.InOrder taken) ?_ Output.InOrder.initial
    intro taken state event next here one
    exact here.step one.1 one.2
  exact ⟨last.buffer, order⟩

end Order

/-! ## What the timer issues -/

/-- The events of effects that are issued one after the other. -/
def issues (accepted : ℤ) (effects : List Effect) : List OutputEvent :=
  effects.map (.issue · accepted)

/-- A callback's effect is orderly unless it is a touch. -/
theorem orderly_action {action : UserAction} {effect : Effect}
    (wrote : action.effect = some effect) (other : ∀ messageId, action ≠ .touch messageId)
    (s : Output) (accepted : ℤ) : Orderly s (.issue effect accepted) := by
  cases action with
  | touch messageId => exact absurd rfl (other messageId)
  | requeue messageId timeMs =>
      obtain ⟨line, -, rfl⟩ := Option.map_eq_some_iff.mp wrote
      trivial
  | finish messageId =>
      obtain ⟨line, -, rfl⟩ := Option.map_eq_some_iff.mp wrote
      trivial

/-- **Processing a message without a touch is orderly**, whatever the buffer holds. -/
theorem orderly_processBusinessMessage {run : CallbackRun} {exception exception' : Bool}
    {msg : PendingMessage} {effects : List Effect}
    (processed : processBusinessMessage run exception msg = some (effects, exception'))
    (quiet : ∀ messageId, .touch messageId ∉ run.actions) (s : Output) (accepted : ℤ) :
    ∀ event ∈ issues accepted effects, Orderly s event := by
  refine List.forall_mem_map.mpr ?_
  cases wrote : run.actions.mapM UserAction.effect with
  | none =>
      rw [processBusinessMessage, wrote] at processed
      cases processed
  | some issued =>
      obtain ⟨left, whole⟩ : ∃ left, processBusinessMessage run exception msg = some (_, left) :=
        processBusinessMessage_issued wrote
      obtain ⟨rfl, -⟩ := Prod.mk.inj (Option.some.inj (whole.symm.trans processed))
      refine forall_mem_handed trivial ?_ fun _ => trivial
      intro effect member
      obtain ⟨action, called, one⟩ := exists_action_of_mapM wrote effect member
      refine orderly_action one ?_ s accepted
      rintro messageId rfl
      exact quiet messageId called

/-! ## Runs -/

/-- A touch that finds the buffer flushed, and a `NOP` behind it. -/
def flushedTouch : List OutputEvent :=
  [.issue (ready 1) 0, .flush 6, .issue (touching (ascii "0123456789abcdef")) 23,
    .issue (.buffered .extension (ascii "NOP\n")) 0, .flush 2]

theorem orderly_reached_flushedTouch :
    ∃ last, Run Outputs Output.initial flushedTouch last ∧
      last.reached = ascii "RDY 1\nTOUCH 0123456789abcdef\nNO" ∧
      last.reached <+: commands flushedTouch := by
  have run : Run (guarded Orderly Outputs) Output.initial flushedTouch
      ⟨ascii "RDY 1\nTOUCH 0123456789abcdef\nNO", ascii "P\n"⟩ :=
    ⟨_, ⟨trivial, rfl⟩, _, ⟨trivial, rfl⟩, _, ⟨⟨rfl, rfl⟩, rfl⟩, _, ⟨trivial, rfl⟩, _,
      ⟨trivial, rfl⟩, rfl⟩
  exact ⟨_, run.unguarded, rfl, orderly_reached run⟩

/-- The message behind `autoFinished`. -/
def secondMessage : PendingMessage := ⟨ascii "fedcba9876543210" ++ [0], [1], 0, 2, 1, 1, true⟩

/-- **A touch overtakes the settlement of the message before.** The first message is finished and
the timer asks for more; before the buffer is flushed the callback of the second message
touches it. -/
theorem touch_overtakes :
    ∃ first second last,
      processBusinessMessage (.returned []) false autoFinished = some (first, false) ∧
      processBusinessMessage (.returned [.touch (ascii "fedcba9876543210")]) false secondMessage =
        some (second, false) ∧
      Run Outputs Output.initial (issues 23 (first ++ [ready 1] ++ second)) last ∧
      ¬ last.reached <+: commands (issues 23 (first ++ [ready 1] ++ second)) := by
  let finished : Effect := .buffered .extension (ascii "FIN 0123456789abcdef\n")
  let touched : Effect := .direct .user (ascii "TOUCH fedcba9876543210\n")
  let settled : Effect := .buffered .extension (ascii "FIN fedcba9876543210\n")
  refine ⟨[.called autoFinished.object, finished], [.called secondMessage.object, touched, settled],
    ⟨ascii "TOUCH fedcba9876543210\n",
      ascii "FIN 0123456789abcdef\nRDY 1\nFIN fedcba9876543210\n"⟩, rfl, rfl, ?_, ?_⟩
  · exact ⟨_, rfl, _, rfl, _, rfl, _, rfl, _, rfl, _, rfl, rfl⟩
  · decide

end PhpNsq
