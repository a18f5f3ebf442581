import PhpNsq.Publisher.ReplyOrder

/-!
# What a publishing socket accepts

`send` on a non-blocking socket may accept less than the command. `publish` looks at its
result only for zero, `deferredPublish` and the answer to a heartbeat not at all. The account of
a record (`CleanWire`) is that the accepted bytes are whole commands in order, with at most one
incomplete command at their end, and that a call whose command was not accepted in full returns
`-1` at once.

It is kept along every run whose sends are whole (`wholeSends_cleanWire`): a command is accepted in
full, or a `publish` finds its connection lost, and nothing is accepted behind an answer that was
cut.
-/

set_option autoImplicit false

namespace PhpNsq

open Foundations

/-- The bytes a socket has accepted. -/
def wire (log : List PubEffect) : Bytes :=
  log.flatMap fun
    | .send bytes result => bytes.take result.toNat
    | _ => []

/-- Nothing was accepted in part. -/
def Intact (log : List PubEffect) : Prop :=
  ∀ bytes result, .send bytes result ∈ log → 0 < result → result = bytes.length

/-- A send that keeps the wire clean. -/
def WholeSend (s : PubState) : PubEvent → Prop
  | .sent result =>
      match s.point with
      | .sending request command =>
          request.lostConnection result = true ∨ (result = command.length ∧ Intact s.log)
      | .answering _ => result ≤ 0 ∨ Intact s.log
      | _ => True
  | _ => True

/-- What is sent is the command of a call, or the answer to a heartbeat. -/
def Issued (log : List PubEffect) : Prop :=
  ∀ bytes ∈ sentBytes log,
    bytes = heartbeatAnswer ∨ ∃ request, .called request ∈ log ∧ request.command = some bytes

/-- The accepted bytes as whole commands, in order, and a tail. -/
structure Pieces (log : List PubEffect) (commands : List Bytes) (tail : Bytes) : Prop where
  wire : PhpNsq.wire log = commands.flatten ++ tail
  order : commands.Sublist (sentBytes log)
  cut : tail = [] ∨
    ∃ command ∈ sentBytes log, tail <+: command ∧ tail.length < command.length

/-- A call whose command is cut fails at once. -/
def FailsAtOnce (log : List PubEffect) : Prop :=
  ∀ before request command result after,
    log = before ++ .called request :: .send command result :: after →
      result ≠ command.length → ∃ rest, after = .returned (-1) :: rest

/-- The account of a record. -/
structure CleanWire (log : List PubEffect) : Prop where
  issued : Issued log
  pieces : ∃ commands tail, Pieces log commands tail
  failures : FailsAtOnce log

/-! ## The parts of the account, entry by entry -/

theorem wire_append (first second : List PubEffect) :
    wire (first ++ second) = wire first ++ wire second := List.flatMap_append

theorem wire_send (bytes : Bytes) (result : ℤ) :
    wire [.send bytes result] = bytes.take result.toNat := List.append_nil _

theorem intact_append {first second : List PubEffect} :
    Intact (first ++ second) ↔ Intact first ∧ Intact second := by
  constructor
  · intro intact
    exact ⟨fun bytes result member => intact bytes result (List.mem_append_left _ member),
      fun bytes result member => intact bytes result (List.mem_append_right _ member)⟩
  · rintro ⟨left, right⟩ bytes result member
    rcases List.mem_append.mp member with here | here
    · exact left bytes result here
    · exact right bytes result here

section Entries

variable {log : List PubEffect} {commands : List Bytes} {tail bytes : Bytes} {result : ℤ}
  {entry : PubEffect}

/-- What was issued stays issued. -/
theorem Issued.append (issued : Issued log) {entries : List PubEffect}
    (added : ∀ bytes ∈ sentBytes entries, bytes = heartbeatAnswer ∨
      ∃ request, .called request ∈ log ∧ request.command = some bytes) : Issued (log ++ entries) := by
  have grown : ∀ bytes, (bytes = heartbeatAnswer ∨
      ∃ request, .called request ∈ log ∧ request.command = some bytes) →
        bytes = heartbeatAnswer ∨
          ∃ request, .called request ∈ log ++ entries ∧ request.command = some bytes := by
    intro bytes known
    exact known.imp_right fun ⟨request, member, assembled⟩ =>
      ⟨request, List.mem_append_left _ member, assembled⟩
  intro bytes member
  rw [sentBytes_append] at member
  rcases List.mem_append.mp member with here | here
  · exact grown bytes (issued bytes here)
  · exact grown bytes (added bytes here)

namespace Pieces

/-- More entries that put nothing on the wire. -/
theorem quiet (pieces : Pieces log commands tail) {entries : List PubEffect}
    (nothing : PhpNsq.wire entries = []) : Pieces (log ++ entries) commands tail where
  wire := by rw [wire_append, nothing, List.append_nil, pieces.wire]
  order := by
    rw [sentBytes_append]
    exact pieces.order.trans (List.sublist_append_left _ _)
  cut := by
    rw [sentBytes_append]
    exact pieces.cut.imp_right fun ⟨command, member, short⟩ =>
      ⟨command, List.mem_append_left _ member, short⟩

/-- A whole command behind whole commands. -/
theorem whole (pieces : Pieces log commands []) (bytes : Bytes) :
    Pieces (log ++ [.send bytes bytes.length]) (commands ++ [bytes]) [] where
  wire := by
    rw [wire_append, pieces.wire, wire_send, Int.toNat_natCast, List.take_length]
    simp
  order := by
    rw [sentBytes_append]
    exact pieces.order.append (List.Sublist.refl _)
  cut := .inl rfl

/-- The front of a command behind whole commands. -/
theorem cut_tail (pieces : Pieces log commands []) (short : result.toNat < bytes.length) :
    Pieces (log ++ [.send bytes result]) commands (bytes.take result.toNat) where
  wire := by rw [wire_append, pieces.wire, wire_send, List.append_nil]
  order := by
    rw [sentBytes_append]
    exact pieces.order.trans (List.sublist_append_left _ _)
  cut := by
    refine .inr ⟨bytes, ?_, List.take_prefix .., ?_⟩
    · rw [sentBytes_append]
      exact List.mem_append_right _ (List.mem_singleton_self _)
    · rw [List.length_take]
      exact (Nat.min_le_left ..).trans_lt short

end Pieces

/-- Two entries in a row of a longer record: they are its end, or they were there before. -/
theorem split_last {before after : List PubEffect} {first second : PubEffect}
    (split : log ++ [entry] = before ++ first :: second :: after) :
    (log = before ++ [first] ∧ entry = second ∧ after = []) ∨
      ∃ rest, after = rest ++ [entry] ∧ log = before ++ first :: second :: rest := by
  rcases List.eq_nil_or_concat after with rfl | ⟨rest, label, rfl⟩
  · have regrouped : log ++ [entry] = (before ++ [first]) ++ [second] := by
      rw [split, List.append_assoc]
      rfl
    obtain ⟨front, here⟩ := List.append_inj' regrouped rfl
    exact .inl ⟨front, (List.cons.inj here).1, rfl⟩
  · have regrouped : log ++ [entry] = (before ++ first :: second :: rest) ++ [label] := by
      rw [split, List.concat_eq_append, List.append_assoc]
      rfl
    obtain ⟨front, here⟩ := List.append_inj' regrouped rfl
    exact .inr ⟨rest, by rw [(List.cons.inj here).1, List.concat_eq_append], front⟩

/-- An entry that is not a command cut short. -/
theorem FailsAtOnce.append (fails : FailsAtOnce log)
    (whole : ∀ before request command result, log = before ++ [.called request] →
      entry = .send command result → result = command.length) : FailsAtOnce (log ++ [entry]) := by
  intro before request command result after split cut
  rcases split_last split with ⟨front, here, -⟩ | ⟨rest, rfl, front⟩
  · exact absurd (whole before request command result front here) cut
  · obtain ⟨later, rfl⟩ := fails before request command result rest front cut
    exact ⟨later ++ [entry], rfl⟩

/-- A command cut short, and the failure behind it. -/
theorem FailsAtOnce.fail (fails : FailsAtOnce log) (bytes : Bytes) (result : ℤ) :
    FailsAtOnce (log ++ [.send bytes result] ++ [.returned (-1)]) := by
  intro before request command result' after split cut
  rcases split_last split with ⟨-, impossible, -⟩ | ⟨rest, rfl, front⟩
  · cases impossible
  · rcases split_last front with ⟨-, -, rfl⟩ | ⟨older, rfl, earlier⟩
    · exact ⟨[], rfl⟩
    · obtain ⟨later, rfl⟩ := fails before request command result' older earlier cut
      exact ⟨_, rfl⟩

end Entries

/-! ## Runs -/

/-- A process between the events of a run whose sends are whole. -/
structure Tidy (s : PubState) : Prop where
  issued : Issued s.log
  pieces : ∃ commands tail, Pieces s.log commands tail ∧ (Intact s.log → tail = [])
  failures : FailsAtOnce s.log
  /-- The command at `send` is that of a call. -/
  calling : ∀ request command, s.point = .sending request command →
    request.command = some command ∧ .called request ∈ s.log
  /-- Where a call is the last entry, the process is at the `send` of its command. -/
  last : ∀ before request, s.log = before ++ [.called request] →
    ∃ command, s.point = .sending request command

namespace Tidy

variable {sock : ℤ} {fresh : ℕ → Cells UInt8} {s s' : PubState}

theorem initial : Tidy .initial where
  issued := List.forall_mem_nil _
  pieces := ⟨[], [], ⟨rfl, .refl _, .inl rfl⟩, fun _ => rfl⟩
  failures := by
    intro before request command result after split
    exact absurd split.symm (List.append_ne_nil_of_right_ne_nil _ (List.cons_ne_nil _ _))
  calling := by
    rintro request command ⟨⟩
  last := by
    intro before request split
    exact absurd split.symm (List.append_ne_nil_of_right_ne_nil _ (List.cons_ne_nil _ _))

/-- Entries that send nothing. -/
theorem quiet (tidy : Tidy s) {entries : List PubEffect} (unsent : sentBytes entries = [])
    (nothing : wire entries = []) :
    Issued (s.log ++ entries) ∧
      ∃ commands tail, Pieces (s.log ++ entries) commands tail ∧
        (Intact (s.log ++ entries) → tail = []) := by
  obtain ⟨commands, tail, pieces, whole⟩ := tidy.pieces
  refine ⟨tidy.issued.append ?_, commands, tail, pieces.quiet nothing,
    fun intact => whole (intact_append.mp intact).1⟩
  rw [unsent]
  exact List.forall_mem_nil _

theorem of_call (tidy : Tidy s) {request : Request}
    (here : Publishes sock fresh s (.call request) s') : Tidy s' := by
  obtain ⟨-, command, fits, rfl⟩ := here.of_call
  obtain ⟨issued, pieces⟩ : Issued (s.log ++ [.called request]) ∧ _ := tidy.quiet rfl rfl
  exact {
    issued := issued
    pieces := pieces
    failures := tidy.failures.append (by rintro _ _ _ _ - ⟨⟩)
    calling := by
      rintro _ _ ⟨⟩
      exact ⟨fits, List.mem_append_right _ (List.mem_singleton_self _)⟩
    last := by
      intro before other split
      obtain ⟨-, same⟩ := List.append_inj' split rfl
      cases same
      exact ⟨command, rfl⟩ }

theorem of_read (tidy : Tidy s) {answer : ReadAnswer}
    (here : Publishes sock fresh s (.read answer) s') : Tidy s' := by
  obtain ⟨request, reader, -, ⟨log, busy⟩ | ⟨result, log, idle⟩⟩ := here.read_effect
  · obtain ⟨issued, pieces⟩ : Issued (s.log ++ [.read reader.requested answer]) ∧ _ :=
      tidy.quiet rfl rfl
    rw [← log] at issued pieces
    exact {
      issued := issued
      pieces := pieces
      failures := by
        rw [log]
        exact tidy.failures.append (by rintro _ _ _ _ - ⟨⟩)
      calling := by
        intro _ _ point
        rcases busy with ⟨next, busy⟩ | busy
        · cases busy.symm.trans point
        · cases busy.symm.trans point
      last := by
        intro before other split
        cases (List.append_inj' (log.symm.trans split) rfl).2 }
  · obtain ⟨issued, pieces⟩ :
        Issued (s.log ++ [.read reader.requested answer, .returned result]) ∧ _ :=
      tidy.quiet rfl rfl
    rw [List.append_assoc] at log
    change s'.log = s.log ++ [.read reader.requested answer, .returned result] at log
    rw [← log] at issued pieces
    exact {
      issued := issued
      pieces := pieces
      failures := by
        rw [log, List.append_cons]
        exact (tidy.failures.append (by rintro _ _ _ _ - ⟨⟩)).append (by rintro _ _ _ _ - ⟨⟩)
      calling := by
        intro _ _ point
        cases idle.symm.trans point
      last := by
        intro before other split
        rw [log, List.append_cons] at split
        cases (List.append_inj' split rfl).2 }

/-- A command at its `send`. -/
theorem of_command (tidy : Tidy s) {request : Request} {command : Bytes} {result : ℤ}
    (point : s.point = .sending request command)
    (whole : request.lostConnection result = true ∨ (result = command.length ∧ Intact s.log)) :
    Tidy (if request.lostConnection result then (s.record (.send command result)).throw
      else (s.record (.send command result)).goTo (.reading request .againRead)) := by
  obtain ⟨fits, called⟩ := tidy.calling request command point
  have issued : Issued (s.log ++ [.send command result]) := by
    refine tidy.issued.append (List.forall_mem_singleton.mpr (.inr ⟨request, called, fits⟩))
  split
  · next lost =>
      obtain rfl := Request.eq_zero_of_lostConnection lost
      obtain ⟨commands, tail, pieces, clean⟩ := tidy.pieces
      have quiet : Pieces (s.log ++ [.send command 0]) commands tail := pieces.quiet rfl
      exact {
        issued := issued.append (List.forall_mem_nil _)
        pieces := ⟨commands, tail, quiet.quiet rfl, fun intact =>
          clean (intact_append.mp (intact_append.mp intact).1).1⟩
        failures := tidy.failures.fail command 0
        calling := by
          rintro _ _ ⟨⟩
        last := by
          intro before other split
          cases (List.append_inj' split rfl).2 }
  · next accepted =>
      obtain ⟨rfl, intact⟩ := whole.resolve_left accepted
      obtain ⟨commands, tail, pieces, clean⟩ := tidy.pieces
      obtain rfl := clean intact
      exact {
        issued := issued
        pieces := ⟨_, [], pieces.whole command, fun _ => rfl⟩
        failures := tidy.failures.append (by rintro _ _ _ _ - ⟨⟩; rfl)
        calling := by
          rintro _ _ ⟨⟩
        last := by
          intro before other split
          cases (List.append_inj' split rfl).2 }

/-- The answer to a heartbeat at its `send`. -/
theorem of_answer (tidy : Tidy s) {request : Request} {result : ℤ}
    (point : s.point = .answering request) (bound : result ≤ heartbeatAnswer.length)
    (whole : result ≤ 0 ∨ Intact s.log) :
    Tidy ((s.record (.send heartbeatAnswer result)).goTo (.reading request .againRead)) where
  issued := tidy.issued.append (List.forall_mem_singleton.mpr (.inl rfl))
  pieces := by
    change ∃ commands tail, Pieces (s.log ++ [_]) commands tail ∧ (Intact (s.log ++ [_]) → tail = [])
    obtain ⟨commands, tail, pieces, clean⟩ := tidy.pieces
    by_cases nothing : result ≤ 0
    · refine ⟨commands, tail, pieces.quiet ?_, fun intact => clean (intact_append.mp intact).1⟩
      rw [wire_send, Int.toNat_of_nonpos nothing, List.take_zero]
    · obtain rfl := clean (whole.resolve_left nothing)
      by_cases all : result = heartbeatAnswer.length
      · rw [all]
        exact ⟨_, [], pieces.whole heartbeatAnswer, fun _ => rfl⟩
      · refine ⟨commands, _, pieces.cut_tail (by omega), fun intact => ?_⟩
        exact absurd ((intact_append.mp intact).2 _ _ (List.mem_singleton_self _) (by omega)) all
  failures := by
    refine tidy.failures.append ?_
    intro before other command result' front
    obtain ⟨command, sending⟩ := tidy.last before other front
    cases point.symm.trans sending
  calling := by
    rintro _ _ ⟨⟩
  last := by
    intro before other split
    cases (List.append_inj' split rfl).2

/-- **One event keeps the account.** -/
theorem step (tidy : Tidy s) {event : PubEvent} (whole : WholeSend s event)
    (here : Publishes sock fresh s event s') : Tidy s' := by
  cases event with
  | call request => exact tidy.of_call here
  | read answer => exact tidy.of_read here
  | sent result =>
      rcases here.of_sent with ⟨request, command, point, -, -, rfl⟩ | ⟨request, point, -, bound, rfl⟩
      · simp only [WholeSend, point] at whole
        exact tidy.of_command point whole
      · simp only [WholeSend, point] at whole
        exact tidy.of_answer point bound whole

end Tidy

/-- **A run whose sends are whole leaves the wire clean**, at every moment: whole commands in order
and at most one incomplete one behind them, and every call whose command is cut fails at once. -/
theorem wholeSends_cleanWire {sock : ℤ} {fresh : ℕ → Cells UInt8} {events : List PubEvent}
    {last : PubState}
    (run : Run (guarded WholeSend (Publishes sock fresh)) .initial events last) :
    CleanWire last.log := by
  have tidy : Tidy last := by
    refine run.invariant (fun _ s => Tidy s) ?_ .initial
    intro taken s event next here one
    exact here.step one.1 one.2
  obtain ⟨commands, tail, pieces, -⟩ := tidy.pieces
  exact ⟨tidy.issued, ⟨commands, tail, pieces⟩, tidy.failures⟩

/-- The command of `hello`, and a process that sent three bytes of it and waits for a reply. -/
def helloCommand : Bytes := ascii "PUB t\n" ++ [0, 0, 0, 1] ++ ascii "m"

def helloCut : PubState where
  point := .reading hello .againRead
  buffers := 0
  exception := false
  log := [.called hello, .send helloCommand 3]

/-- What is read of an `OK` that comes whole. -/
def okReads : List PubEffect :=
  [.read 4 (.got (bigEndian 4 okFrame.size)), .read okFrame.size (.got okFrame.payload)]

/-- An `OK` that comes whole ends the call. -/
theorem run_okFrame {s : PubState} (point : s.point = .reading hello .againRead) :
    Run (Publishes 5 (fun _ _ => 0)) s
      [.read (.got (bigEndian 4 okFrame.size)), .read (.got okFrame.payload)]
      { s with
        point := .idle
        buffers := s.buffers + 1
        log := s.log ++ okReads ++ [.returned 5] } :=
  run_reply 5 (fun _ _ => 0) point ⟨0, okFrame⟩ (by decide) (by decide) rfl

/-- **A command that is cut**: `publish` sends three bytes, takes an `OK` for its own, succeeds, and
the next command is put behind the three bytes. -/
theorem not_cleanWire_cut :
    ∃ last, Run (Publishes 5 (fun _ _ => 0)) .initial
        [.call hello, .sent 3, .read (.got (bigEndian 4 okFrame.size)),
          .read (.got okFrame.payload), .call hello, .sent 11] last ∧
      results last.log = [5] ∧ wire last.log = ascii "PUB" ++ helloCommand ∧
      ¬ CleanWire last.log := by
  let last : PubState :=
    { helloCut with
      buffers := 1
      log := helloCut.log ++ okReads ++ [.returned 5, .called hello, .send helloCommand 11] }
  have before : Run (Publishes 5 (fun _ _ => 0)) .initial [.call hello, .sent 3] helloCut :=
    ⟨_, rfl, helloCut, rfl, rfl⟩
  have behind : Run (Publishes 5 (fun _ _ => 0))
      { helloCut with point := .idle, buffers := 1, log := helloCut.log ++ okReads ++ [.returned 5] }
      [.call hello, .sent 11] last :=
    ⟨_, rfl, last, rfl, rfl⟩
  refine ⟨last, run_append.mpr ⟨_, before, run_append.mpr ⟨_, run_okFrame rfl, behind⟩⟩, rfl, rfl,
    fun clean => ?_⟩
  obtain ⟨rest, reported⟩ := clean.failures [] hello helloCommand 3 _ rfl (by decide)
  cases reported

/-- A command that is accepted in full, and its `OK`. -/
theorem wholeSends_cleanWire_publish :
    ∃ last, Run (Publishes 5 (fun _ _ => 0)) .initial
        [.call hello, .sent 11, .read (.got (bigEndian 4 okFrame.size)),
          .read (.got okFrame.payload)] last ∧
      wire last.log = helloCommand ∧ CleanWire last.log := by
  have whole : WholeSend ((PubState.initial.record (.called hello)).goTo
      (.sending hello helloCommand)) (.sent 11) := by
    refine .inr ⟨rfl, ?_⟩
    intro bytes result member
    cases List.mem_singleton.mp member
  obtain ⟨opened, first, last, second, done⟩ := run_okFrame (s := helloSent) rfl
  have run : Run (guarded WholeSend (Publishes 5 (fun _ _ => 0))) .initial
      [.call hello, .sent 11, .read (.got (bigEndian 4 okFrame.size)),
        .read (.got okFrame.payload)] _ :=
    ⟨_, ⟨trivial, rfl⟩, helloSent, ⟨whole, rfl⟩, opened, ⟨trivial, first⟩, last, ⟨trivial, second⟩,
      done⟩
  exact ⟨_, run.unguarded, rfl, wholeSends_cleanWire run⟩

end PhpNsq
