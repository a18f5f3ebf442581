import PhpNsq.CommandStream
import PhpNsq.Publisher.SentCommands

/-!
# Calls and their commands

Of a socket whose sends are whole every call has an account: whether its command was accepted,
and what the call returned. The bytes that the socket accepted are these commands in the order of the
calls, with answers to heartbeats between them, and at the end perhaps a part of an answer
(`PubState.Account`). A call whose command was not accepted returned `-1`.
-/

set_option autoImplicit false

namespace PhpNsq

open Foundations

/-- A call that has returned. -/
structure ReturnedCall where
  request : Request
  accepted : Bool
  result : ℤ

/-- The command of a call. -/
def Request.asCommand : Request → Command
  | .publish topic msg => .publish topic msg
  | .deferredPublish topic msg deferTime => .deferredPublish topic msg deferTime

/-- The call that a command belongs to. -/
def Command.request : Command → Option Request
  | .publish topic msg => some (.publish topic msg)
  | .deferredPublish topic msg deferTime => some (.deferredPublish topic msg deferTime)
  | _ => none

@[simp] theorem Request.request_asCommand (request : Request) :
    request.asCommand.request = some request := by
  cases request <;> rfl

theorem Request.encode_asCommand (request : Request) :
    request.asCommand.encode = request.command := by
  cases request <;> rfl

/-- The calls in a record. -/
def calledIn (log : List PubEffect) : List Request :=
  log.filterMap fun
    | .called request => some request
    | _ => none

@[simp] theorem calledIn_append (first second : List PubEffect) :
    calledIn (first ++ second) = calledIn first ++ calledIn second := List.filterMap_append

section Results

variable {sock : ℤ} {fresh : ℕ → Cells UInt8} {s s' : PubState}

/-- A system call ends the call that the process is in, or it does not. -/
theorem Publishes.ends_or_goes_on {event : PubEvent} (here : Publishes sock fresh s event s')
    (system : ∀ request, event ≠ .call request) :
    calledIn s'.log = calledIn s.log ∧
      ((s'.point ≠ .idle ∧ results s'.log = results s.log) ∨
        (s'.point = .idle ∧ ∃ re, results s'.log = results s.log ++ [re])) := by
  cases event with
  | call request => exact absurd rfl (system request)
  | sent result =>
      rcases here.of_sent with ⟨request, command, -, -, -, rfl⟩ | ⟨request, -, -, -, rfl⟩
      · split
        · refine ⟨?_, .inr ⟨rfl, -1, ?_⟩⟩
          · change calledIn (s.log ++ [_] ++ [_]) = _
            simp [calledIn]
          · change results (s.log ++ [_] ++ [_]) = _
            simp [results]
        · refine ⟨?_, .inl ⟨fun idle => (by cases idle), ?_⟩⟩
          · change calledIn (s.log ++ [_]) = _
            simp [calledIn]
          · change results (s.log ++ [_]) = _
            simp [results]
      · refine ⟨?_, .inl ⟨fun idle => (by cases idle), ?_⟩⟩
        · change calledIn (s.log ++ [_]) = _
          simp [calledIn]
        · change results (s.log ++ [_]) = _
          simp [results]
  | read answer =>
      obtain ⟨request, reader, -, ⟨log, busy⟩ | ⟨result, log, idle⟩⟩ := here.read_effect
      · refine ⟨by rw [log]; simp [calledIn], .inl ⟨?_, by rw [log]; simp [results]⟩⟩
        rcases busy with ⟨next, busy⟩ | busy
        · rw [busy]
          exact fun idle => by cases idle
        · rw [busy]
          exact fun idle => by cases idle
      · exact ⟨by rw [log]; simp [calledIn], .inr ⟨idle, result, by rw [log]; simp [results]⟩⟩

end Results

/-- The calls whose commands were accepted, in order. -/
def acceptedRequests (calls : List (Request × Bool)) : List Request :=
  (calls.filter Prod.snd).map Prod.fst

@[simp] theorem acceptedRequests_append (first second : List (Request × Bool)) :
    acceptedRequests (first ++ second) = acceptedRequests first ++ acceptedRequests second := by
  rw [acceptedRequests, List.filter_append, List.map_append]
  rfl

/-- The call that a process is in, and whether its command was accepted. -/
inductive PubPoint.During : PubPoint → List (Request × Bool) → Prop where
  | idle : During .idle []
  | sending {request : Request} {command : Bytes} (assembled : request.command = some command) :
      During (.sending request command) [(request, false)]
  | reading (request : Request) (reader : Reader) : During (.reading request reader) [(request, true)]
  | answering (request : Request) : During (.answering request) [(request, true)]

/-- The account of a socket: the calls that have returned and the one that has not, the commands that
were accepted, and a part of a command behind them. -/
structure PubState.Account (s : PubState) (done : List ReturnedCall)
    (current : List (Request × Bool)) (sent : List (Command × Bytes)) (tail : Bytes) : Prop where
  during : s.point.During current
  calls : calledIn s.log = done.map ReturnedCall.request ++ current.map Prod.fst
  results : PhpNsq.results s.log = done.map ReturnedCall.result
  wire : PhpNsq.wire s.log = sent.flatMap Prod.snd ++ tail
  encoded : ∀ pair ∈ sent, pair.1.encode = some pair.2
  kinds : ∀ pair ∈ sent, pair.1 = .nsqNop ∨ ∃ request : Request, pair.1 = request.asCommand
  published : sent.filterMap (fun pair => pair.1.request) =
    acceptedRequests (done.map (fun call => (call.request, call.accepted)) ++ current)
  failed : ∀ call ∈ done, call.accepted = false → call.result = -1
  cut : tail <+: heartbeatAnswer ∧ tail.length < heartbeatAnswer.length
  intact : Intact s.log → tail = []

namespace PubState.Account

variable {sock : ℤ} {fresh : ℕ → Cells UInt8} {s s' : PubState} {done : List ReturnedCall}
  {current : List (Request × Bool)} {sent : List (Command × Bytes)} {tail : Bytes}

theorem initial : Account .initial [] [] [] [] where
  during := .idle
  calls := rfl
  results := rfl
  wire := rfl
  encoded := List.forall_mem_nil _
  kinds := List.forall_mem_nil _
  published := rfl
  failed := List.forall_mem_nil _
  cut := by decide
  intact := fun _ => rfl

/-- Entries that send nothing and call nothing; a call may return. -/
theorem quiet (account : s.Account done current sent tail) {entries : List PubEffect}
    (log : s'.log = s.log ++ entries) (uncalled : calledIn entries = [])
    (unsent : PhpNsq.wire entries = []) (unreturned : PhpNsq.results entries = [])
    (during : s'.point.During current) : s'.Account done current sent tail where
  during := during
  calls := by rw [log, calledIn_append, uncalled, List.append_nil, account.calls]
  results := by rw [log, results_append, unreturned, List.append_nil, account.results]
  wire := by rw [log, wire_append, unsent, List.append_nil, account.wire]
  encoded := account.encoded
  kinds := account.kinds
  published := account.published
  failed := account.failed
  cut := account.cut
  intact := fun intact => account.intact (intact_append.mp (log ▸ intact)).1

/-- The call that the process is in returns. -/
theorem returns {request : Request} {accepted : Bool}
    (account : s.Account done [(request, accepted)] sent tail) {result : ℤ}
    (log : s'.log = s.log ++ [.returned result]) (idle : s'.point = .idle)
    (failed : accepted = false → result = -1) :
    s'.Account (done ++ [⟨request, accepted, result⟩]) [] sent tail where
  during := idle ▸ .idle
  calls := by
    rw [log, calledIn_append, account.calls]
    simp [calledIn]
  results := by
    rw [log, results_append, account.results]
    simp [PhpNsq.results]
  wire := by
    rw [log, wire_append, account.wire]
    exact List.append_nil _
  encoded := account.encoded
  kinds := account.kinds
  published := by
    rw [account.published]
    simp
  failed := List.forall_mem_append.mpr ⟨account.failed, List.forall_mem_singleton.mpr failed⟩
  cut := account.cut
  intact := fun intact => account.intact (intact_append.mp (log ▸ intact)).1

theorem of_call (account : s.Account done current sent tail) {request : Request}
    (here : Publishes sock fresh s (.call request) s') :
    s'.Account done [(request, false)] sent tail := by
  obtain ⟨point, command, assembled, rfl⟩ := here.of_call
  have during := account.during
  rw [point] at during
  cases during
  exact {
    during := .sending assembled
    calls := by
      change calledIn (s.log ++ [_]) = _
      rw [calledIn_append, account.calls]
      simp [calledIn]
    results := by
      change PhpNsq.results (s.log ++ [_]) = _
      rw [results_append, account.results]
      exact List.append_nil _
    wire := by
      change PhpNsq.wire (s.log ++ [_]) = _
      rw [wire_append, account.wire]
      exact List.append_nil _
    encoded := account.encoded
    kinds := account.kinds
    published := by
      rw [account.published]
      simp [acceptedRequests]
    failed := account.failed
    cut := account.cut
    intact := fun intact => account.intact (intact_append.mp intact).1 }

/-- A command that is accepted in full, behind whole commands. -/
theorem accepted (account : s.Account done current sent []) {command : Command} {bytes : Bytes}
    (encoded : command.encode = some bytes) {current' : List (Request × Bool)}
    (log : s'.log = s.log ++ [.send bytes bytes.length]) (during : s'.point.During current')
    (same : current'.map Prod.fst = current.map Prod.fst)
    (kind : command = .nsqNop ∨ ∃ request : Request, command = request.asCommand)
    (published : acceptedRequests current' = acceptedRequests current ++ command.request.toList) :
    s'.Account done current' (sent ++ [(command, bytes)]) [] where
  during := during
  calls := by
    rw [log, calledIn_append, account.calls, same]
    exact List.append_nil _
  results := by
    rw [log, results_append, account.results]
    exact List.append_nil _
  wire := by
    rw [log, wire_append, account.wire, wire_send, Int.toNat_natCast, List.take_length,
      List.flatMap_append, List.flatMap_singleton, List.append_nil, List.append_nil]
  encoded := List.forall_mem_append.mpr
    ⟨account.encoded, List.forall_mem_singleton.mpr encoded⟩
  kinds := List.forall_mem_append.mpr ⟨account.kinds, List.forall_mem_singleton.mpr kind⟩
  published := by
    rw [List.filterMap_append, account.published, acceptedRequests_append, acceptedRequests_append,
      published, List.append_assoc]
    cases asked : command.request <;> simp [asked]
  failed := account.failed
  cut := by decide
  intact := fun _ => rfl

/-- A part of an answer is accepted. -/
theorem part (account : s.Account done current sent []) {result : ℤ}
    (short : result.toNat < heartbeatAnswer.length)
    (log : s'.log = s.log ++ [.send heartbeatAnswer result]) (during : s'.point.During current)
    (partly : ¬ (0 < result → result = heartbeatAnswer.length)) :
    s'.Account done current sent (heartbeatAnswer.take result.toNat) where
  during := during
  calls := by
    rw [log, calledIn_append, account.calls]
    exact List.append_nil _
  results := by
    rw [log, results_append, account.results]
    exact List.append_nil _
  wire := by rw [log, wire_append, account.wire, wire_send, List.append_nil]
  encoded := account.encoded
  kinds := account.kinds
  published := account.published
  failed := account.failed
  cut := ⟨List.take_prefix .., by
    rw [List.length_take]
    exact (Nat.min_le_left ..).trans_lt short⟩
  intact := fun intact => absurd
    ((intact_append.mp (log ▸ intact)).2 heartbeatAnswer result (List.mem_singleton_self _)) partly

/-- A command at its `send`. -/
theorem of_command (account : s.Account done current sent tail) {request : Request}
    {command : Bytes} {result : ℤ} (point : s.point = .sending request command)
    (whole : request.lostConnection result = true ∨ (result = command.length ∧ Intact s.log)) :
    ∃ done' current' sent' tail',
      (if request.lostConnection result then (s.record (.send command result)).throw
        else (s.record (.send command result)).goTo (.reading request .againRead)).Account done'
          current' sent' tail' := by
  have during := account.during
  rw [point] at during
  cases during with
  | sending assembled =>
      split
      · next lost =>
          obtain rfl := Request.eq_zero_of_lostConnection lost
          have unsent : (s.record (.send command 0)).Account done [(request, false)] sent tail :=
            account.quiet rfl rfl rfl rfl (point ▸ .sending assembled)
          exact ⟨_, _, _, _, unsent.returns rfl rfl fun _ => rfl⟩
      · next accepted =>
          obtain ⟨rfl, intact⟩ := whole.resolve_left accepted
          obtain rfl := account.intact intact
          exact ⟨_, _, _, _, account.accepted (request.encode_asCommand.trans assembled) rfl
            (.reading request .againRead) rfl (.inr ⟨request, rfl⟩) (by simp [acceptedRequests])⟩

/-- The answer to a heartbeat at its `send`. -/
theorem of_answer (account : s.Account done current sent tail) {request : Request} {result : ℤ}
    (point : s.point = .answering request) (bound : result ≤ heartbeatAnswer.length)
    (whole : result ≤ 0 ∨ Intact s.log) :
    ∃ sent' tail', ((s.record (.send heartbeatAnswer result)).goTo
      (.reading request .againRead)).Account done current sent' tail' := by
  have during := account.during
  rw [point] at during
  cases during with
  | answering =>
      by_cases nothing : result ≤ 0
      · have unsent : PhpNsq.wire [.send heartbeatAnswer result] = [] := by
          rw [wire_send, Int.toNat_of_nonpos nothing, List.take_zero]
        exact ⟨sent, tail, account.quiet rfl rfl unsent rfl (.reading request .againRead)⟩
      · obtain rfl := account.intact (whole.resolve_left nothing)
        by_cases all : result = heartbeatAnswer.length
        · subst all
          have encoded : Command.nsqNop.encode = some heartbeatAnswer := rfl
          exact ⟨_, _, account.accepted encoded rfl (.reading request .againRead) rfl (.inl rfl)
            (by simp [Command.request])⟩
        · exact ⟨_, _, account.part (by omega) rfl (.reading request .againRead)
            fun intact => all (intact (by omega))⟩

theorem of_read (account : s.Account done current sent tail) {answer : ReadAnswer}
    (here : Publishes sock fresh s (.read answer) s') :
    ∃ done' current', s'.Account done' current' sent tail := by
  obtain ⟨request, reader, point, moved⟩ := here.read_effect
  have during := account.during
  rw [point] at during
  cases during with
  | reading =>
      rcases moved with ⟨log, ⟨next, busy⟩ | busy⟩ | ⟨result, log, idle⟩
      · exact ⟨_, _, account.quiet log rfl rfl rfl (busy ▸ .reading request next)⟩
      · exact ⟨_, _, account.quiet log rfl rfl rfl (busy ▸ .answering request)⟩
      · have read : (s.record (.read reader.requested answer)).Account done [(request, true)] sent
            tail := account.quiet rfl rfl rfl rfl (point ▸ .reading request reader)
        exact ⟨_, _, read.returns log idle fun refused => by cases refused⟩

/-- **One event keeps an account.** -/
theorem step (account : s.Account done current sent tail) {event : PubEvent}
    (whole : WholeSend s event) (here : Publishes sock fresh s event s') :
    ∃ done' current' sent' tail', s'.Account done' current' sent' tail' := by
  cases event with
  | call request => exact ⟨_, _, _, _, account.of_call here⟩
  | read answer =>
      obtain ⟨done', current', account⟩ := account.of_read here
      exact ⟨_, _, _, _, account⟩
  | sent result =>
      rcases here.of_sent with ⟨request, command, point, -, -, rfl⟩ | ⟨request, point, -, bound, rfl⟩
      · simp only [WholeSend, point] at whole
        exact account.of_command point whole
      · simp only [WholeSend, point] at whole
        obtain ⟨sent', tail', account⟩ := account.of_answer point bound whole
        exact ⟨_, _, _, _, account⟩

/-- The commands are those of calls, and answers to heartbeats. -/
theorem wellFormed (account : s.Account done current sent tail)
    (names : ∀ request ∈ calledIn s.log, request.asCommand.WellFormed) :
    ∀ pair ∈ sent, pair.1.WellFormed := by
  intro pair member
  rcases account.kinds pair member with nop | ⟨request, asked⟩
  · rw [nop]
    trivial
  · have published : request ∈ sent.filterMap fun pair => pair.1.request :=
      List.mem_filterMap.mpr ⟨pair, member, by rw [asked, Request.request_asCommand]⟩
    rw [account.published, acceptedRequests] at published
    obtain ⟨call, inside, rfl⟩ := List.mem_map.mp published
    have called : call.1 ∈ calledIn s.log := by
      rw [account.calls]
      have among := List.mem_map_of_mem (f := Prod.fst) (List.mem_filter.mp inside).1
      simpa using among
    rw [asked]
    exact names call.1 called

/-- **What nsqd reads** behind the magic and `IDENTIFY`: the accepted commands, and the part of an
answer that is behind them. -/
theorem nsqdReads (account : s.Account done current sent tail)
    (names : ∀ request ∈ calledIn s.log, request.asCommand.WellFormed) {nsqConfig : Option Bytes}
    (json : ∀ text, nsqConfig = some text → (0 : UInt8) ∉ text) {identify : Option Bytes}
    (identified : nsqConfig.mapM identifyCommand = some identify) :
    PhpNsq.nsqdReads (ascii "  V2" ++ (identify.toList.flatten ++ PhpNsq.wire s.log)) =
      some ((nsqConfig.map Command.sendIdentify).toList ++ sent.map Prod.fst, tail) := by
  obtain ⟨greeting, greets, named, known⟩ := exists_identify json identified
  have nop : Command.nsqNop.WellFormed ∧ Command.nsqNop.encode = some heartbeatAnswer :=
    ⟨trivial, rfl⟩
  have waits : tail = [] ∨ decodeCommand tail = none :=
    .inr (Command.decodeCommand_part nop.1 nop.2 account.cut.1 account.cut.2)
  have wellFormed := List.forall_mem_append.mpr
    ⟨fun pair member => (known pair member).1, account.wellFormed names⟩
  have encoded := List.forall_mem_append.mpr
    ⟨fun pair member => (known pair member).2, account.encoded⟩
  have reads := nsqdReads_append wellFormed encoded waits
  rwa [List.flatMap_append, List.map_append, named, List.flatMap_def, greets, List.append_assoc,
    ← account.wire] at reads

end PubState.Account

/-- A socket whose sends are whole has an account. -/
theorem account_of_run {sock : ℤ} {fresh : ℕ → Cells UInt8} {events : List PubEvent}
    {last : PubState} (run : Run (guarded WholeSend (Publishes sock fresh)) .initial events last) :
    ∃ done current sent tail, last.Account done current sent tail := by
  refine run.invariant (fun _ s => ∃ done current sent tail, s.Account done current sent tail) ?_
    ⟨_, _, _, _, .initial⟩
  rintro taken s event next ⟨done, current, sent, tail, account⟩ ⟨whole, here⟩
  exact account.step whole here

end PhpNsq
