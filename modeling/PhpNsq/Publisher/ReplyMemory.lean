import PhpNsq.Publisher.Heartbeats

/-!
# What the verdict of a call depends on

`publish` asks for `msg_size + 1` bytes for a frame, clears `msg_size` of them and compares
with `strcmp`, which reads on behind the data. What stands there was left by an
earlier owner of the memory.

A stream of whole frames is heard by a call until one of them ends it (`PubState.hear`). The call is
`Blind` to two memories when it does the same in both, and reports every `OK` and answers
every `_heartbeat_`. `blind_iff` says when: the bytes behind the data of each frame that is
heard have to be alike to the comparison (`Settled`).
-/

set_option autoImplicit false

namespace PhpNsq

open Foundations

/-- A frame that comes whole, and what `send` gives if it is answered. -/
structure Incoming extends Arrival where
  sent : ℤ
  bounds : -1 ≤ sent ∧ sent ≤ heartbeatAnswer.length

namespace PubState

variable (sock : ℤ) (fresh : ℕ → Cells UInt8)

/-- Events in order. -/
def steps (s : PubState) (events : List PubEvent) : Option PubState :=
  events.foldlM (fun s event => s.step sock fresh event) s

/-- The frames come one after another until the call has returned. -/
def hear (s : PubState) : List Incoming → Option PubState
  | [] => some s
  | incoming :: rest =>
      (s.steps sock fresh (incoming.answers.map .read)).bind fun s =>
        match s.point with
        | .answering _ => (s.step sock fresh (.sent incoming.sent)).bind fun s => s.hear rest
        | _ => some s

end PubState

/-! ## The comparison -/

/-- A literal and its terminator stand in front of the data of a frame and what the memory holds
behind it. -/
def ReadsAs (literal : Bytes) (frame : RawFrame) (contents : Cells UInt8) : Prop :=
  literal ++ [0] <+: frame.data ++ contents.slice frame.size (literal.length + 1)

instance (literal : Bytes) (frame : RawFrame) (contents : Cells UInt8) :
    Decidable (ReadsAs literal frame contents) :=
  inferInstanceAs (Decidable (_ <+: _))

abbrev ReadsOK : RawFrame → Cells UInt8 → Prop := ReadsAs (ascii "OK")

abbrev ReadsHeartbeat : RawFrame → Cells UInt8 → Prop := ReadsAs (ascii "_heartbeat_")

section Comparison

variable {frame : RawFrame} {contents : Cells UInt8}

/-- `strcmp` reads the data and then the memory behind it. -/
theorem strcmpEq_buffer (literal : Bytes) :
    strcmpEq ((frame.buffer contents).advance 4) literal = true ↔
      ReadsAs literal frame contents := by
  have filled : (frame.buffer contents).slice 0 (frame.size + (literal.length + 1)) =
      bigEndian 4 frame.frameType.toNat ++
        ((frame.data ++ contents.slice frame.size (literal.length + 1)) ++ []) := by
    rw [frame.slice_buffer, RawFrame.payload, Cells.slice_advance, List.append_assoc,
      List.append_nil]
    rfl
  have text : (frame.buffer contents).slice 4 (frame.data.length + (literal.length + 1)) =
      frame.data ++ contents.slice frame.size (literal.length + 1) :=
    Cells.slice_of_append filled (length_bigEndian ..) (by simp)
  have front : (frame.buffer contents).slice 4 (literal.length + 1) =
      (frame.data ++ contents.slice frame.size (literal.length + 1)).take
        (literal ++ [0]).length := by
    rw [← text, Nat.add_comm frame.data.length, Cells.slice_add _ _ (literal.length + 1),
      List.take_left' (by simp)]
  rw [ReadsAs, List.prefix_iff_eq_take, ← front, strcmpEq, beq_iff_eq, Cells.slice_advance,
    Nat.add_zero]
  exact eq_comm

/-- The first byte of the literal is the first that is read. -/
theorem ReadsAs.head {byte : UInt8} {literal : Bytes}
    (reads : ReadsAs (byte :: literal) frame contents) :
    (frame.data ++ [contents frame.size]).head? = some byte := by
  obtain ⟨rest, split⟩ := reads
  rw [List.length_cons, Cells.slice_succ] at split
  cases data : frame.data with
  | nil =>
      rw [data] at split
      exact congrArg some (List.cons.inj split).1.symm
  | cons first data' =>
      rw [data] at split
      exact congrArg some (List.cons.inj split).1.symm

/-- What is taken for `OK` is not taken for a heartbeat. -/
theorem ReadsOK.not_heartbeat (ok : ReadsOK frame contents) : ¬ ReadsHeartbeat frame contents := by
  intro beat
  have same := ok.head.symm.trans beat.head
  exact absurd same (by decide)

/-- The literal itself is read where a zero follows. -/
theorem readsAs_self {literal : Bytes} (data : frame.data = literal) :
    ReadsAs literal frame contents ↔ contents frame.size = 0 := by
  rw [ReadsAs, data, List.prefix_append_right_inj, Cells.slice_succ, List.cons_prefix_cons]
  exact ⟨fun same => same.1.symm, fun zero => ⟨zero.symm, List.nil_prefix⟩⟩

/-- The verdict on a frame that has come. -/
theorem verdict_buffer :
    verdict (frame.buffer contents) =
      if ReadsOK frame contents then .ok
      else if ReadsHeartbeat frame contents then .heartbeat
      else .other := by
  simp only [verdict, strcmpEq_buffer]

end Comparison

/-! ## One frame after another -/

/-- Where a call gets to that answers a frame. -/
def PubState.beaten (s : PubState) (incoming : Incoming) : PubState :=
  { s with
    buffers := s.buffers + 1
    log := s.log ++ incoming.reads ++ [.send heartbeatAnswer incoming.sent] }

/-- Where a call gets to that returns. -/
def PubState.ended (s : PubState) (incoming : Incoming) (result : ℤ) : PubState :=
  { s with
    point := .idle
    buffers := s.buffers + 1
    log := s.log ++ incoming.reads ++ [.returned result] }

section Hear

variable {sock : ℤ} {fresh : ℕ → Cells UInt8} {s s' : PubState} {request : Request}
  {incoming : Incoming} {rest stream : List Incoming}

/-- **What is done with a frame** is decided by its data and by what the memory holds behind it. -/
theorem PubState.hear_cons (waiting : s.point = .reading request .againRead) (incoming : Incoming)
    (rest : List Incoming) :
    s.hear sock fresh (incoming :: rest) =
      if ReadsOK incoming.frame (fresh s.buffers) then some (s.ended incoming sock)
      else if ReadsHeartbeat incoming.frame (fresh s.buffers) then
        (s.beaten incoming).hear sock fresh rest
      else some (s.ended incoming (-1)) := by
  have arrived := foldlM_eq_some_iff.mpr (run_whole sock fresh waiting incoming.toArrival)
  rw [hear, steps, arrived, Option.bind_some, decide, verdict_buffer]
  by_cases ok : ReadsOK incoming.frame (fresh s.buffers)
  · rw [if_pos ok, if_pos ok]
    rfl
  · rw [if_neg ok, if_neg ok]
    by_cases beat : ReadsHeartbeat incoming.frame (fresh s.buffers)
    · rw [if_pos beat, if_pos beat]
      simp [goTo, step, incoming.bounds, record, beaten, ← waiting]
    · rw [if_neg beat, if_neg beat]
      rfl

theorem PubState.hear_of_ok (waiting : s.point = .reading request .againRead)
    (ok : ReadsOK incoming.frame (fresh s.buffers)) :
    s.hear sock fresh (incoming :: rest) = some (s.ended incoming sock) := by
  rw [hear_cons waiting, if_pos ok]

theorem PubState.hear_of_heartbeat (waiting : s.point = .reading request .againRead)
    (beat : ReadsHeartbeat incoming.frame (fresh s.buffers)) :
    s.hear sock fresh (incoming :: rest) = (s.beaten incoming).hear sock fresh rest := by
  rw [hear_cons waiting, if_neg fun ok => ok.not_heartbeat beat, if_pos beat]

theorem PubState.hear_of_other (waiting : s.point = .reading request .againRead)
    (ok : ¬ ReadsOK incoming.frame (fresh s.buffers))
    (beat : ¬ ReadsHeartbeat incoming.frame (fresh s.buffers)) :
    s.hear sock fresh (incoming :: rest) = some (s.ended incoming (-1)) := by
  rw [hear_cons waiting, if_neg ok, if_neg beat]

/-- A call only adds to the record. -/
theorem PubState.hear_log (waiting : s.point = .reading request .againRead)
    (heard : s.hear sock fresh stream = some s') : s.log <+: s'.log := by
  induction stream generalizing s with
  | nil => rw [Option.some.inj heard]
  | cons incoming rest ih =>
      rw [hear_cons waiting] at heard
      split at heard
      · rw [← Option.some.inj heard, ended, List.append_assoc]
        exact List.prefix_append ..
      · split at heard
        · refine List.IsPrefix.trans ?_ (ih (s := s.beaten incoming) waiting heard)
          rw [beaten, List.append_assoc]
          exact List.prefix_append ..
        · rw [← Option.some.inj heard, ended, List.append_assoc]
          exact List.prefix_append ..

theorem PubState.results_ended (result : ℤ) :
    results (s.ended incoming result).log = results (s.log ++ incoming.reads) ++ [result] :=
  results_append ..

theorem PubState.sentBytes_ended (result : ℤ) :
    sentBytes (s.ended incoming result).log = sentBytes s.log := by
  change sentBytes (s.log ++ incoming.reads ++ [_]) = _
  rw [sentBytes_append, sentBytes_append, Arrival.sentBytes_reads, List.append_nil]
  exact List.append_nil _

theorem PubState.sentBytes_beaten :
    sentBytes (s.beaten incoming).log = sentBytes s.log ++ [heartbeatAnswer] := by
  change sentBytes (s.log ++ incoming.reads ++ [_]) = _
  rw [sentBytes_append, sentBytes_append, Arrival.sentBytes_reads, List.append_nil]
  rfl

/-- A call that has answered sent more than one that returned without it. -/
theorem PubState.sentBytes_ne_of_beaten {result : ℤ}
    (waiting : s.point = .reading request .againRead)
    (heard : (s.beaten incoming).hear sock fresh rest = some s') :
    sentBytes s'.log ≠ sentBytes (s.ended incoming result).log := by
  intro same
  obtain ⟨more, log⟩ := hear_log (s := s.beaten incoming) waiting heard
  rw [← log, sentBytes_append, sentBytes_beaten, sentBytes_ended, List.append_assoc] at same
  have lengths := congrArg List.length same
  simp at lengths

end Hear

/-! ## Two memories -/

/-- The return value, the answers and the bytes taken from the stream. -/
def SameAccount (sock : ℤ) (fresh fresh' : ℕ → Cells UInt8) (s : PubState)
    (stream : List Incoming) : Prop :=
  ∃ s₁ s₂, s.hear sock fresh stream = some s₁ ∧ s.hear sock fresh' stream = some s₂ ∧
    results s₁.log = results s₂.log ∧ sentBytes s₁.log = sentBytes s₂.log ∧
    consumed s₁.log = consumed s₂.log

/-- Every `OK` that is heard is reported as success, and every `_heartbeat_` answered and
skipped. -/
def Truthful (sock : ℤ) (fresh : ℕ → Cells UInt8) (s : PubState) (stream : List Incoming) : Prop :=
  ∀ taken incoming rest s', stream = taken ++ incoming :: rest →
    s.hear sock fresh taken = some s' → s'.point = s.point →
      (incoming.frame.data = ascii "OK" →
        s'.hear sock fresh [incoming] = some (s'.ended incoming sock)) ∧
      (incoming.frame.data = ascii "_heartbeat_" →
        s'.hear sock fresh [incoming] = some (s'.beaten incoming))

/-- A call does the same in both memories, and what the frames say. -/
structure Blind (sock : ℤ) (fresh fresh' : ℕ → Cells UInt8) (s : PubState)
    (stream : List Incoming) : Prop where
  same : SameAccount sock fresh fresh' s stream
  truthful : Truthful sock fresh s stream
  truthful' : Truthful sock fresh' s stream

/-- Two memories behind the data of a frame are alike to the comparison. -/
structure Alike (frame : RawFrame) (contents contents' : Cells UInt8) : Prop where
  ok : ReadsOK frame contents ↔ ReadsOK frame contents'
  heartbeat : ReadsHeartbeat frame contents ↔ ReadsHeartbeat frame contents'
  terminated : frame.data = ascii "OK" ∨ frame.data = ascii "_heartbeat_" →
    contents frame.size = 0 ∧ contents' frame.size = 0

/-- The memories are alike behind each frame, as far as the stream reads as heartbeats. -/
def Settled (fresh fresh' : ℕ → Cells UInt8) : ℕ → List Incoming → Prop
  | _, [] => True
  | buffers, incoming :: rest =>
      Alike incoming.frame (fresh buffers) (fresh' buffers) ∧
        (ReadsHeartbeat incoming.frame (fresh buffers) → Settled fresh fresh' (buffers + 1) rest)

section Memories

variable {sock : ℤ} {fresh fresh' : ℕ → Cells UInt8} {s : PubState} {request : Request}
  {incoming : Incoming} {rest : List Incoming}

theorem SameAccount.symm {stream : List Incoming}
    (same : SameAccount sock fresh fresh' s stream) : SameAccount sock fresh' fresh s stream := by
  obtain ⟨s₁, s₂, heard, heard', returned, sent, taken⟩ := same
  exact ⟨s₂, s₁, heard', heard, returned.symm, sent.symm, taken.symm⟩

/-- What one memory lets pass for `OK` passes in the other. -/
theorem SameAccount.ok (open_sock : 0 < sock) (waiting : s.point = .reading request .againRead)
    (same : SameAccount sock fresh fresh' s (incoming :: rest))
    (ok : ReadsOK incoming.frame (fresh s.buffers)) :
    ReadsOK incoming.frame (fresh' s.buffers) := by
  obtain ⟨s₁, s₂, heard, heard', returned, sent, -⟩ := same
  rw [PubState.hear_of_ok waiting ok, Option.some_inj] at heard
  subst heard
  by_contra not_ok
  by_cases beat : ReadsHeartbeat incoming.frame (fresh' s.buffers)
  · rw [PubState.hear_of_heartbeat waiting beat] at heard'
    exact PubState.sentBytes_ne_of_beaten waiting heard' sent.symm
  · rw [PubState.hear_of_other waiting not_ok beat, Option.some_inj] at heard'
    rw [← heard', PubState.results_ended, PubState.results_ended, List.append_cancel_left_eq,
      List.cons.injEq] at returned
    omega

/-- What one memory lets pass for a heartbeat passes in the other, and the rest is heard alike. -/
theorem SameAccount.heartbeat (waiting : s.point = .reading request .againRead)
    (same : SameAccount sock fresh fresh' s (incoming :: rest))
    (beat : ReadsHeartbeat incoming.frame (fresh s.buffers)) :
    ReadsHeartbeat incoming.frame (fresh' s.buffers) ∧
      SameAccount sock fresh fresh' (s.beaten incoming) rest := by
  obtain ⟨s₁, s₂, heard, heard', returned, sent, taken⟩ := same
  rw [PubState.hear_of_heartbeat waiting beat] at heard
  have unlike : ∀ result, sentBytes s₁.log ≠ sentBytes (s.ended incoming result).log :=
    fun _ => PubState.sentBytes_ne_of_beaten waiting heard
  by_cases ok : ReadsOK incoming.frame (fresh' s.buffers)
  · rw [PubState.hear_of_ok waiting ok, Option.some_inj] at heard'
    exact absurd (heard' ▸ sent) (unlike sock)
  · by_cases beat' : ReadsHeartbeat incoming.frame (fresh' s.buffers)
    · rw [PubState.hear_of_heartbeat waiting beat'] at heard'
      exact ⟨beat', s₁, s₂, heard, heard', returned, sent, taken⟩
    · rw [PubState.hear_of_other waiting ok beat', Option.some_inj] at heard'
      exact absurd (heard' ▸ sent) (unlike (-1))

/-- The first frame and the others. -/
theorem sameAccount_cons (open_sock : 0 < sock) (waiting : s.point = .reading request .againRead) :
    SameAccount sock fresh fresh' s (incoming :: rest) ↔
      (ReadsOK incoming.frame (fresh s.buffers) ↔ ReadsOK incoming.frame (fresh' s.buffers)) ∧
      (ReadsHeartbeat incoming.frame (fresh s.buffers) ↔
        ReadsHeartbeat incoming.frame (fresh' s.buffers)) ∧
      (ReadsHeartbeat incoming.frame (fresh s.buffers) →
        SameAccount sock fresh fresh' (s.beaten incoming) rest) := by
  constructor
  · intro same
    exact ⟨⟨same.ok open_sock waiting, same.symm.ok open_sock waiting⟩,
      ⟨fun beat => (same.heartbeat waiting beat).1, fun beat => (same.symm.heartbeat waiting beat).1⟩,
      fun beat => (same.heartbeat waiting beat).2⟩
  · rintro ⟨ok_iff, beat_iff, more⟩
    by_cases ok : ReadsOK incoming.frame (fresh s.buffers)
    · exact ⟨_, _, PubState.hear_of_ok waiting ok, PubState.hear_of_ok waiting (ok_iff.mp ok), rfl,
        rfl, rfl⟩
    · by_cases beat : ReadsHeartbeat incoming.frame (fresh s.buffers)
      · obtain ⟨s₁, s₂, heard, heard', account⟩ := more beat
        rw [← PubState.hear_of_heartbeat waiting beat] at heard
        rw [← PubState.hear_of_heartbeat waiting (beat_iff.mp beat)] at heard'
        exact ⟨s₁, s₂, heard, heard', account⟩
      · exact ⟨_, _, PubState.hear_of_other waiting ok beat,
          PubState.hear_of_other waiting (mt ok_iff.mpr ok) (mt beat_iff.mpr beat), rfl, rfl, rfl⟩

/-- Only a frame that reads as `OK` is reported as success. -/
theorem PubState.readsOK_of_hear (open_sock : 0 < sock)
    (waiting : s.point = .reading request .againRead)
    (heard : s.hear sock fresh [incoming] = some (s.ended incoming sock)) :
    ReadsOK incoming.frame (fresh s.buffers) := by
  by_contra ok
  by_cases beat : ReadsHeartbeat incoming.frame (fresh s.buffers)
  · rw [hear_of_heartbeat waiting beat, hear, Option.some_inj] at heard
    have point : s.point = .idle := congrArg PubState.point heard
    rw [waiting] at point
    cases point
  · rw [hear_of_other waiting ok beat, Option.some_inj] at heard
    have returned := congrArg (fun s => results s.log) heard
    simp only [results_ended, List.append_cancel_left_eq, List.cons.injEq] at returned
    omega

/-- Only a frame that reads as a heartbeat is answered. -/
theorem PubState.readsHeartbeat_of_hear (waiting : s.point = .reading request .againRead)
    (heard : s.hear sock fresh [incoming] = some (s.beaten incoming)) :
    ReadsHeartbeat incoming.frame (fresh s.buffers) := by
  by_contra beat
  by_cases ok : ReadsOK incoming.frame (fresh s.buffers)
  · rw [hear_of_ok waiting ok, Option.some_inj] at heard
    have point := (congrArg PubState.point heard).trans waiting
    cases point
  · rw [hear_of_other waiting ok beat, Option.some_inj] at heard
    have point := (congrArg PubState.point heard).trans waiting
    cases point

/-- The first frame and the others. -/
theorem truthful_cons (open_sock : 0 < sock) (waiting : s.point = .reading request .againRead) :
    Truthful sock fresh s (incoming :: rest) ↔
      (incoming.frame.data = ascii "OK" → ReadsOK incoming.frame (fresh s.buffers)) ∧
      (incoming.frame.data = ascii "_heartbeat_" →
        ReadsHeartbeat incoming.frame (fresh s.buffers)) ∧
      (ReadsHeartbeat incoming.frame (fresh s.buffers) →
        Truthful sock fresh (s.beaten incoming) rest) := by
  constructor
  · intro truthful
    obtain ⟨ok, beat⟩ := truthful [] incoming rest s rfl rfl rfl
    refine ⟨fun data => PubState.readsOK_of_hear open_sock waiting (ok data),
      fun data => PubState.readsHeartbeat_of_hear waiting (beat data), fun reads => ?_⟩
    intro taken other behind s' split heard point
    refine truthful (incoming :: taken) other behind s' (by rw [split]; rfl) ?_ point
    rw [PubState.hear_of_heartbeat waiting reads]
    exact heard
  · rintro ⟨ok, beat, more⟩ taken other behind s' split heard point
    cases taken with
    | nil =>
        obtain ⟨rfl, rfl⟩ := List.cons.inj split
        obtain rfl := Option.some.inj heard
        exact ⟨fun data => PubState.hear_of_ok waiting (ok data),
          fun data => PubState.hear_of_heartbeat waiting (beat data)⟩
    | cons first taken =>
        obtain ⟨rfl, rfl⟩ := List.cons.inj split
        -- the call has not returned, so the first frame was taken for a heartbeat
        by_cases ended : ReadsOK incoming.frame (fresh s.buffers)
        · rw [PubState.hear_of_ok waiting ended, Option.some_inj] at heard
          rw [← heard, waiting] at point
          cases point
        · by_cases reads : ReadsHeartbeat incoming.frame (fresh s.buffers)
          · rw [PubState.hear_of_heartbeat waiting reads] at heard
            exact more reads taken other behind s' rfl heard point
          · rw [PubState.hear_of_other waiting ended reads, Option.some_inj] at heard
            rw [← heard, waiting] at point
            cases point

/-- The first frame and the others. -/
theorem blind_cons (open_sock : 0 < sock) (waiting : s.point = .reading request .againRead) :
    Blind sock fresh fresh' s (incoming :: rest) ↔
      Alike incoming.frame (fresh s.buffers) (fresh' s.buffers) ∧
        (ReadsHeartbeat incoming.frame (fresh s.buffers) →
          Blind sock fresh fresh' (s.beaten incoming) rest) := by
  constructor
  · rintro ⟨same, truthful, truthful'⟩
    obtain ⟨ok, beat, same⟩ := (sameAccount_cons open_sock waiting).mp same
    obtain ⟨told_ok, told_beat, truthful⟩ := (truthful_cons open_sock waiting).mp truthful
    obtain ⟨told_ok', told_beat', truthful'⟩ := (truthful_cons open_sock waiting).mp truthful'
    refine ⟨⟨ok, beat, ?_⟩, fun reads => ⟨same reads, truthful reads, truthful' (beat.mp reads)⟩⟩
    rintro (data | data)
    · exact ⟨(readsAs_self data).mp (told_ok data), (readsAs_self data).mp (told_ok' data)⟩
    · exact ⟨(readsAs_self data).mp (told_beat data), (readsAs_self data).mp (told_beat' data)⟩
  · rintro ⟨⟨ok, beat, terminated⟩, more⟩
    refine ⟨(sameAccount_cons open_sock waiting).mpr ⟨ok, beat, fun reads => (more reads).same⟩,
      (truthful_cons open_sock waiting).mpr ⟨?_, ?_, fun reads => (more reads).truthful⟩,
      (truthful_cons open_sock waiting).mpr
        ⟨?_, ?_, fun reads => (more (beat.mpr reads)).truthful'⟩⟩
    · exact fun data => (readsAs_self data).mpr (terminated (.inl data)).1
    · exact fun data => (readsAs_self data).mpr (terminated (.inr data)).1
    · exact fun data => (readsAs_self data).mpr (terminated (.inl data)).2
    · exact fun data => (readsAs_self data).mpr (terminated (.inr data)).2

/-- **The verdict is decided by the received bytes alone** exactly when the two memories are alike
behind the data of every frame that is heard. -/
theorem blind_iff (open_sock : 0 < sock) (waiting : s.point = .reading request .againRead)
    (stream : List Incoming) :
    Blind sock fresh fresh' s stream ↔ Settled fresh fresh' s.buffers stream := by
  induction stream generalizing s with
  | nil =>
      refine iff_of_true ⟨⟨s, s, rfl, rfl, rfl, rfl, rfl⟩, ?_, ?_⟩ trivial
      · intro taken incoming rest s' split
        simp at split
      · intro taken incoming rest s' split
        simp at split
  | cons incoming rest ih =>
      rw [blind_cons open_sock waiting, Settled]
      exact and_congr_right fun _ => forall_congr' fun _ => ih (s := s.beaten incoming) waiting

end Memories

/-- A reply that comes at once. -/
def okIncoming : Incoming := ⟨okReply, 4, heartbeatAnswer_bounds⟩

/-- `publish` with its command sent. -/
def publishSent : PubState :=
  { PubState.initial with
    point := .reading (.publish (ascii "t") (ascii "m")) .againRead
    log := [.called (.publish (ascii "t") (ascii "m")),
      .send (ascii "PUB t\n" ++ [0, 0, 0, 1] ++ ascii "m") 11] }

/-- Memory in which only the byte behind a frame of size 6 is zero. -/
def dirty : ℕ → Cells UInt8 := fun _ index => if index = 6 then 0 else 1

/-- A zero behind the data of an `OK` is enough. -/
theorem blind_iff_publish : Blind 5 (fun _ _ => 0) dirty publishSent [okIncoming] := by
  have alike : Alike okReply.frame (fun _ => 0) (dirty 0) :=
    ⟨by decide, by decide, fun _ => ⟨rfl, rfl⟩⟩
  exact (blind_iff (show (0 : ℤ) < 5 by decide) rfl [okIncoming]).mpr ⟨alike, fun _ => trivial⟩

/-- **An `OK` is not reported as success** when the memory behind it is not zero. -/
theorem not_blind_ok :
    ¬ ∀ (fresh fresh' : ℕ → Cells UInt8) (stream : List Incoming),
      Blind 5 fresh fresh' publishSent stream := by
  intro always
  have truthful := (always (fun _ _ => 0) (fun _ _ => 1) [okIncoming]).truthful'
  have told := (truthful_cons (show (0 : ℤ) < 5 by decide) rfl).mp truthful
  have data : okReply.frame.data = ascii "OK" := rfl
  have zero := (readsAs_self data).mp (told.1 rfl)
  exact absurd zero (by decide)

end PhpNsq
