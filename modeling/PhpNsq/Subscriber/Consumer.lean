import PhpNsq.Identify
import PhpNsq.Subscriber.Processing

/-!
# A consumer over its connections

`subscribe` opens a connection, and `conn_eventcb` is told what becomes of it: when it
is up it gets the opening of the session, and when it is lost `subscribe` is called
again, from inside the callback. The dispatch of the new event base then runs nested in
the old one, and as the timer is persistent it does not come back.

The statics of `readcb` and the message queue belong to the process and are carried
over. What belongs to the connection is its input buffer and what was written to it;
`Consumer` also remembers which calls of `readcb` a connection saw, and keeps the
connections before it.

When `subscribe` fails it comes back. After an end of file the lost bufferevent is then
freed. The pointer in `arg->bev_res` leads to the new bufferevent, whose event base
nobody dispatches, or, if there was no event base, to the freed one. After an error the
lost bufferevent has been freed already, and is freed twice.
-/

set_option autoImplicit false

namespace PhpNsq

open Foundations

/-- The bufferevent that `arg->bev_res` leads to. -/
inductive Link where
  /-- `bufferevent_socket_connect` was called. -/
  | connecting
  | up
  /-- `bufferevent_socket_connect` failed. -/
  | unconnectable
  | freed
  deriving DecidableEq

/-- Why a connection is lost: `BEV_EVENT_EOF` or `BEV_EVENT_ERROR`. -/
inductive Loss where
  | eof
  | error
  deriving DecidableEq

/-- How `subscribe` ends. -/
inductive Subscription where
  /-- In `event_base_dispatch`. -/
  | dispatching
  /-- After `bufferevent_socket_connect` gave `-1`. -/
  | refused
  /-- After `event_base_new` gave no event base. -/
  | noBase
  deriving DecidableEq

/-- What happened on one connection: the calls of `readcb` for it, how many messages
had been dispatched before, and the effects. -/
structure Connection where
  established : Bool
  calls : List ReadCall
  start : ℕ
  log : List Effect

/-- The process, with the connection it works on and those before. -/
structure Consumer where
  read : ReadState
  exception : Bool
  link : Link
  established : Bool
  calls : List ReadCall
  start : ℕ
  past : List Connection

inductive ConsumerEvent where
  | connected
  | received (call : ReadCall)
  | tick (run : CallbackRun)
  | lost (reason : Loss) (outcome : Subscription)

/-- The commands that open a session, given the JSON text of the configuration: written
past the output buffer, and into it. -/
def opening (nsqConfig : Option Bytes) (msg : NSQMsg) : Option (List Bytes × List Bytes) :=
  match nsqConfig.mapM identifyCommand, nsqSubscribe msg.topic msg.channel, nsqReady msg.rdy with
  | some identify, some subscribe, some ready =>
      some (ascii "  V2" :: identify.toList, [subscribe, ready])
  | _, _, _ => none

/-- The commands of an opening, one by one. -/
theorem opening_cases {nsqConfig : Option Bytes} {msg : NSQMsg} {past behind : List Bytes}
    (opened : opening nsqConfig msg = some (past, behind)) :
    ∃ identify, nsqConfig.mapM identifyCommand = some identify ∧
      past = ascii "  V2" :: identify.toList ∧
      behind = [ascii "SUB " ++ cString msg.topic ++ ascii " " ++ cString msg.channel ++ newLine,
        ascii "RDY " ++ decimal msg.rdy.toInt ++ newLine] := by
  rw [opening] at opened
  split at opened
  · next identify subscribe ready identified subscribed readied =>
      obtain ⟨-, rfl⟩ := sprintf_eq_some.mp subscribed
      obtain ⟨-, rfl⟩ := sprintf_eq_some.mp readied
      obtain ⟨rfl, rfl⟩ := Prod.mk.inj (Option.some.inj opened)
      exact ⟨identify, identified, rfl, rfl⟩
  · cases opened

namespace Consumer

/-- A consumer that has called `subscribe`. -/
def initial (msg : NSQMsg) : Consumer where
  read := .initial msg
  exception := false
  link := .connecting
  established := false
  calls := []
  start := 0
  past := []

variable (c : Consumer)

/-- The connection that is worked on. -/
def connection : Connection := ⟨c.established, c.calls, c.start, c.read.log⟩

def connections : List Connection := c.past ++ [c.connection]

/-- A new bufferevent, with nothing read and nothing written. The numbers of the buffers
start anew with the next call of `readcb` in any case. -/
def reconnect (link : Link) : Consumer :=
  { c with
    read := { c.read with input := [], log := [], opened := 0, drained := 0 }
    link := link
    established := false
    calls := []
    start := c.read.dispatched
    past := c.past ++ [c.connection] }

/-- `subscribe`. -/
def subscribe : Subscription → Consumer
  | .dispatching => c.reconnect .connecting
  | .refused => { c.reconnect .unconnectable with exception := true }
  | .noBase => { c with exception := true }

/-- The branch of `conn_eventcb` for `BEV_EVENT_CONNECTED`, when it comes to its end. The reply that
`send_identify` waits for and takes from the descriptor is not among the bytes that `readcb` is
given; while it does not come, nothing is written behind the `IDENTIFY`. -/
def connected (nsqConfig : Option Bytes) : Option Consumer :=
  if c.link = .connecting then
    (opening nsqConfig c.read.msg).map fun (past, behind) =>
      { c with
        read := { c.read with
          log := c.read.log ++ past.map (.direct .extension) ++ behind.map (.buffered .extension) }
        link := .up
        established := true }
  else none

/-- A tick of the timer. What it writes must not go to a freed bufferevent. -/
def tick (run : CallbackRun) : Option Consumer :=
  match processMessageQueue c.read.msg.rdy run c.exception c.read.queue with
  | none => none
  | some (effects, exception, queue) =>
      if c.link = .freed ∧ effects.isEmpty = false then none
      else some
        { c with
          read := { c.read with queue := queue, log := c.read.log ++ effects }
          exception := exception }

/-- The branches of `conn_eventcb` for `BEV_EVENT_EOF` and `BEV_EVENT_ERROR`. -/
def lost (reason : Loss) (outcome : Subscription) : Option Consumer :=
  if c.link = .connecting ∨ c.link = .up then
    match reason, outcome with
    | _, .dispatching => some (c.subscribe .dispatching)
    | .eof, .refused => some (c.subscribe .refused)
    -- `bev_res` still leads to the bufferevent that is freed behind the branches
    | .eof, .noBase => some { c.subscribe .noBase with link := .freed }
    | .error, _ => none
  else none

/-! What an event can do. -/

variable {c} {c' : Consumer}

theorem connected_cases {nsqConfig : Option Bytes} (step : c.connected nsqConfig = some c') :
    c.link = .connecting ∧ ∃ past behind, opening nsqConfig c.read.msg = some (past, behind) ∧
      c' = { c with
        read := { c.read with
          log := c.read.log ++ past.map (.direct .extension) ++ behind.map (.buffered .extension) }
        link := .up
        established := true } := by
  rw [connected, Option.ite_none_right_eq_some] at step
  obtain ⟨⟨past, behind⟩, opened, rfl⟩ := Option.map_eq_some_iff.mp step.2
  exact ⟨step.1, past, behind, opened, rfl⟩

theorem tick_cases {run : CallbackRun} (step : c.tick run = some c') :
    ∃ effects exception queue,
      processMessageQueue c.read.msg.rdy run c.exception c.read.queue =
        some (effects, exception, queue) ∧
      (c.link = .freed → effects = []) ∧
      c' = { c with
        read := { c.read with queue := queue, log := c.read.log ++ effects }
        exception := exception } := by
  rw [tick] at step
  split at step
  · cases step
  · next effects exception queue processed =>
      rw [Option.ite_none_left_eq_some] at step
      refine ⟨effects, exception, queue, processed, fun freed => ?_, (Option.some.inj step.2).symm⟩
      by_contra writes
      exact step.1 ⟨freed, by simpa using writes⟩

/-- A loss starts a new connection, which is not up, or none. -/
theorem lost_cases {reason : Loss} {outcome : Subscription}
    (step : c.lost reason outcome = some c') :
    (c.link = .connecting ∨ c.link = .up) ∧
      ((∃ link exception, link ≠ .up ∧ c' = { c.reconnect link with exception := exception }) ∨
        c' = { c with exception := true, link := .freed }) := by
  rw [lost.eq_def, Option.ite_none_right_eq_some] at step
  refine ⟨step.1, ?_⟩
  have done := step.2
  cases outcome with
  | dispatching =>
      obtain rfl : c.subscribe .dispatching = c' := by cases reason <;> exact Option.some.inj done
      exact .inl ⟨.connecting, c.exception, by simp, rfl⟩
  | refused =>
      cases reason with
      | eof =>
          obtain rfl := Option.some.inj done
          exact .inl ⟨.unconnectable, true, by simp, rfl⟩
      | error => cases done
  | noBase =>
      cases reason with
      | eof =>
          obtain rfl := Option.some.inj done
          exact .inr rfl
      | error => cases done

end Consumer

/-- The events of a consumer. -/
def Consumes (malloc : Malloc) (nsqConfig : Option Bytes) (c : Consumer) :
    ConsumerEvent → Consumer → Prop
  | .connected, c' => c.connected nsqConfig = some c'
  | .received call, c' => c.link = .up ∧ ∃ read, Readcb malloc c.read call read ∧
      c' = { c with read := read, calls := c.calls ++ [call] }
  | .tick run, c' => c.tick run = some c'
  | .lost reason outcome, c' => c.lost reason outcome = some c'

end PhpNsq
