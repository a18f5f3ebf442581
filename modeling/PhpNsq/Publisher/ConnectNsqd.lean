import Mathlib.Data.Finset.Basic
import PhpNsq.Foundations.Cells
import PhpNsq.Publisher.Publish

/-!
# connect_nsqd of pub.c

An object of the class `Nsq` keeps its connections in a property, which is NULL or an array of
descriptors. `connect_nsqd` fills `sock_arr` with one descriptor for every address: from the
property when that is an array, and otherwise by connecting. The property becomes an array when
all entries of `sock_arr` are positive in the end.

What the kernel answers for an address is an `Attempt`. `exit(1)` behind a name that does not
resolve ends the process, and there is no result. `sock_arr` is the cells behind the
pointer: the model gives what is stored in them, not how many were allocated.
-/

set_option autoImplicit false

namespace PhpNsq

open Foundations

/-- The elements of a PHP array of integers, with their keys, in order. -/
abbrev ConnectionFds := List (ℕ × ℤ)

/-- The properties of an object of the class `Nsq`. The timeout is there when it is an
integer, and the configuration as its JSON text. -/
structure Nsq where
  nsqdConnectionFds : Option ConnectionFds
  connTimeout : Option ℤ
  nsqConfig : Option Bytes

/-- `struct timeval`. -/
structure Timeval where
  tvSec : ℤ
  tvUsec : ℤ
  deriving DecidableEq

/-- `nsqd_connect_config`. -/
structure NsqdConnectConfig where
  host : Bytes
  port : Bytes
  deriving DecidableEq

/-- `php_nsq_error_code`. -/
inductive PhpNsqErrorCode where
  | none
  | noConnection
  | unableToPublishMessage
  | topicKeyRequired
  | channelKeyRequired
  | lookupdServerNotAvailable
  | pubLostConnection
  | topicNotExists
  | callbackFunctionIsNotCallable
  | libeventCouldNotBeInitialized
  | connectionFailed
  deriving DecidableEq

/-- `php_nsq_get_error_msg`. -/
def phpNsqGetErrorMsg : PhpNsqErrorCode → Bytes
  | .none => ascii "No error"
  | .noConnection => ascii "No connection to close"
  | .unableToPublishMessage => ascii "Unable to publish message"
  | .topicKeyRequired => ascii "Topic key is required"
  | .channelKeyRequired => ascii "Channel key is required"
  | .lookupdServerNotAvailable => ascii "Lookupd server not available"
  | .pubLostConnection => ascii "Pub lost connection"
  | .topicNotExists => ascii "Topic not exists"
  | .callbackFunctionIsNotCallable => ascii "Callback function in subscribe is not callable"
  | .libeventCouldNotBeInitialized => ascii "Could not initialize libevent"
  | .connectionFailed => ascii "Connection failed"

/-- What the methods of an object do. -/
inductive NsqEffect where
  | socket (result : ℤ)
  | errorHandlings (message : Bytes)
  /-- `setsockopt` of `SO_SNDTIMEO`. -/
  | sendTimeout (sock : ℤ) (timeout : Timeval)
  | connect (sock : ℤ) (config : NsqdConnectConfig) (success : Bool)
  /-- `fcntl` of `O_NONBLOCK`. -/
  | nonblock (sock : ℤ)
  | send (sock : ℤ) (bytes : Bytes)
  /-- The part of `send_identify` for a configuration that is not NULL. -/
  | sendIdentify (sock : ℤ) (json : Bytes)
  /-- `efree` of the host and the port of an entry of `connect_config_arr`. -/
  | freeConfig (index : ℤ)
  /-- `efree` of `connect_config_arr`, for the entry that the pointer leads to. -/
  | freeConfigs (index : ℤ)
  | close (sock : ℤ)
  /-- `publish` or `deferredPublish` of pub.c. -/
  | publish (sock : ℤ) (request : Request)
  | lookup (address topic : Bytes)
  | sleep (seconds : ℕ)
  /-- `throw_exception`, which records the exception and comes back. -/
  | throwException (code : PhpNsqErrorCode) (message : Bytes)

/-- `throw_exception`. -/
def throwException (code : PhpNsqErrorCode) : NsqEffect :=
  .throwException code (phpNsqGetErrorMsg code)

/-- The descriptors that are open after an effect. -/
def NsqEffect.descriptors (opened : Finset ℤ) : NsqEffect → Finset ℤ
  | .socket result => if result = -1 then opened else insert result opened
  | .close sock => opened.erase sock
  | _ => opened

/-- The kernel's answers for one address: `socket`, the resolution of the host, and `connect`. -/
structure Attempt where
  socket : ℤ
  resolves : Bool
  connects : Bool

/-- `nsq_conf_timeout`, for a timeout of zero. -/
def nsqConfTimeout (nsqObj : Nsq) : Timeval :=
  match nsqObj.connTimeout with
  | none => ⟨0, 0⟩
  | some connTimeout =>
      if connTimeout < 0 then ⟨0, 0⟩ else ⟨connTimeout / 1000, connTimeout % 1000 * 1000⟩

/-- A timeout to set. -/
def Timeval.isSet (timeout : Timeval) : Bool := decide (timeout.tvUsec > 0 ∨ timeout.tvSec > 0)

/-- The locals of the connect loop. `connectConfigArr` is an index in the array. -/
structure Connecting where
  i : ℕ
  sockArr : Cells ℤ
  connectConfigArr : ℤ
  timeout : Timeval
  effects : List NsqEffect

/-- A pass of the connect loop up to `connect`. -/
def connecting (timeout : Timeval) (config : NsqdConnectConfig) (answer : Attempt) :
    List NsqEffect :=
  .socket answer.socket ::
    ((if answer.socket = -1 then [.errorHandlings (ascii "socket() error")] else []) ++
      (if timeout.isSet then [.sendTimeout answer.socket timeout] else []) ++
      [.connect answer.socket config answer.connects])

/-- A pass of the connect loop behind a `connect` that succeeds. -/
def connected (nsqConfig : Option Bytes) (timeout : Timeval) (sock : ℤ) : List NsqEffect :=
  (if timeout.isSet then [.sendTimeout sock ⟨0, 0⟩] else []) ++
    [.nonblock sock, .send sock (ascii "  V2")] ++ (nsqConfig.map (.sendIdentify sock)).toList

/-- What a pass of the connect loop leaves in `sock_arr`. -/
def Attempt.stored (answer : Attempt) : ℤ := if answer.connects then answer.socket else 0

/-- One pass of the connect loop. -/
def Connecting.attempt (nsqConfig : Option Bytes) (entries : ℤ → Option NsqdConnectConfig)
    (connectNum : ℕ) (s : Connecting) (answer : Attempt) : Option Connecting :=
  match entries s.connectConfigArr with
  | none => none
  | some config =>
      if answer.resolves then
        some
          { i := s.i + 1
            sockArr := s.sockArr.store s.i [answer.stored]
            connectConfigArr :=
              if (s.i : ℤ) < connectNum - 1 then s.connectConfigArr - 1 else s.connectConfigArr
            timeout := if answer.connects ∧ s.timeout.isSet then ⟨0, 0⟩ else s.timeout
            effects := s.effects ++ connecting s.timeout config answer ++
              if answer.connects then connected nsqConfig s.timeout answer.socket
              else [.errorHandlings (ascii "connect() error")] }
      else none

/-- The loop that builds `fd_arr`, which is given up at an entry that is not positive. -/
def fdArr (sockArr : Cells ℤ) (connectNum : ℕ) : Option ConnectionFds :=
  (List.range connectNum).foldlM (fun fds i =>
    if 0 < sockArr i then some (fds ++ [(i, sockArr i)]) else none) []

/-- `connect_nsqd`, for the entry of `connect_config_arr` that the pointer leads to, the memory
that `emalloc` returns and the answers of the kernel: what it does, `sock_arr` and the object. -/
def connectNsqd (nsqObj : Nsq) (entries : ℤ → Option NsqdConnectConfig) (connectConfigArr : ℤ)
    (connectNum : ℕ) (memory : Cells ℤ) (answers : List Attempt) :
    Option (List NsqEffect × Cells ℤ × Nsq) :=
  match nsqObj.nsqdConnectionFds with
  | some fds => some ([], memory.store 0 (fds.map Prod.snd), nsqObj)
  | none =>
      if answers.length = connectNum then
        (answers.foldlM (Connecting.attempt nsqObj.nsqConfig entries connectNum)
            ⟨0, memory, connectConfigArr, nsqConfTimeout nsqObj, []⟩).map fun s =>
          match fdArr s.sockArr connectNum with
          | none => (s.effects, s.sockArr, nsqObj)
          | some fds => (s.effects, s.sockArr, { nsqObj with nsqdConnectionFds := some fds })
      else none

/-! ## What the loops do -/

/-- The results of `socket`. -/
def sockets (effects : List NsqEffect) : List ℤ :=
  effects.filterMap fun
    | .socket result => some result
    | _ => none

/-- An effect that opens nothing and closes nothing. -/
def NsqEffect.Quiet : NsqEffect → Prop
  | .socket _ => False
  | .close _ => False
  | _ => True

section Effects

variable {effects : List NsqEffect} {opened : Finset ℤ}

@[simp] theorem sockets_append (first second : List NsqEffect) :
    sockets (first ++ second) = sockets first ++ sockets second := List.filterMap_append ..

theorem NsqEffect.Quiet.descriptors_eq {effect : NsqEffect} (quiet : effect.Quiet) :
    effect.descriptors opened = opened := by
  cases effect with
  | socket result => exact quiet.elim
  | close sock => exact quiet.elim
  | _ => rfl

/-- Quiet effects leave the open descriptors as they are. -/
theorem foldl_descriptors_quiet (quiet : ∀ effect ∈ effects, effect.Quiet) :
    effects.foldl NsqEffect.descriptors opened = opened := by
  induction effects with
  | nil => rfl
  | cons effect effects ih =>
      rw [List.foldl_cons, (quiet effect (List.mem_cons_self ..)).descriptors_eq]
      exact ih fun other member => quiet other (List.mem_cons_of_mem _ member)

theorem sockets_quiet (quiet : ∀ effect ∈ effects, effect.Quiet) : sockets effects = [] := by
  rw [sockets, List.filterMap_eq_nil_iff]
  intro effect member
  have here := quiet effect member
  cases effect with
  | socket result => exact here.elim
  | _ => rfl

/-- Where nothing is closed, the sockets are open besides what was open. -/
theorem mem_foldl_descriptors (kept : ∀ sock, .close sock ∉ effects) {sock : ℤ} :
    sock ∈ effects.foldl NsqEffect.descriptors opened ↔
      sock ∈ opened ∨ sock ∈ sockets effects ∧ sock ≠ -1 := by
  induction effects generalizing opened with
  | nil => simp [sockets]
  | cons effect effects ih =>
      have later : ∀ sock, .close sock ∉ effects :=
        fun sock member => kept sock (List.mem_cons_of_mem _ member)
      rw [List.foldl_cons, ih later]
      cases effect with
      | socket result =>
          have first : sockets (.socket result :: effects) = result :: sockets effects := rfl
          rw [first, NsqEffect.descriptors]
          split
          · next failed => grind
          · next success => grind
      | close closed => exact absurd (List.mem_cons_self ..) (kept closed)
      | _ => rfl

end Effects

/-- What holds of each thing that a pass can do up to `connect` holds of all it does. -/
theorem forall_mem_connecting {holds : NsqEffect → Prop} {timeout : Timeval}
    {config : NsqdConnectConfig} {answer : Attempt} (created : holds (.socket answer.socket))
    (reported : holds (.errorHandlings (ascii "socket() error")))
    (timed : holds (.sendTimeout answer.socket timeout))
    (tried : holds (.connect answer.socket config answer.connects)) :
    ∀ effect ∈ connecting timeout config answer, holds effect := by
  intro effect member
  simp only [connecting, List.mem_cons, List.mem_append, List.mem_ite_nil_right,
    List.not_mem_nil, or_false] at member
  rcases member with rfl | (⟨-, rfl⟩ | ⟨-, rfl⟩) | rfl
  · exact created
  · exact reported
  · exact timed
  · exact tried

/-- The same behind a `connect` that succeeds. -/
theorem forall_mem_connected {holds : NsqEffect → Prop} {nsqConfig : Option Bytes}
    {timeout : Timeval} {sock : ℤ} (reset : holds (.sendTimeout sock ⟨0, 0⟩))
    (unblocked : holds (.nonblock sock)) (sent : holds (.send sock (ascii "  V2")))
    (identified : ∀ json, holds (.sendIdentify sock json)) :
    ∀ effect ∈ connected nsqConfig timeout sock, holds effect := by
  intro effect member
  simp only [connected, List.mem_append, List.mem_ite_nil_right, List.mem_cons, List.not_mem_nil,
    or_false, Option.mem_toList, Option.map_eq_some_iff] at member
  rcases member with (⟨-, rfl⟩ | rfl | rfl) | ⟨json, -, rfl⟩
  · exact reset
  · exact unblocked
  · exact sent
  · exact identified json

/-- Up to `connect` a pass asks for one socket. -/
theorem connecting_quiet (timeout : Timeval) (config : NsqdConnectConfig) (answer : Attempt) :
    ∃ more, (∀ effect ∈ more, effect.Quiet) ∧
      connecting timeout config answer = .socket answer.socket :: more := by
  refine ⟨_, ?_, rfl⟩
  intro effect member
  simp only [List.mem_append, List.mem_ite_nil_right, List.mem_singleton] at member
  rcases member with (⟨-, rfl⟩ | ⟨-, rfl⟩) | rfl
  · trivial
  · trivial
  · trivial

theorem connected_quiet (nsqConfig : Option Bytes) (timeout : Timeval) (sock : ℤ) :
    ∀ effect ∈ connected nsqConfig timeout sock, effect.Quiet :=
  forall_mem_connected trivial trivial trivial fun _ => trivial

/-- **One pass of the connect loop**: a socket, and what is stored for it. -/
theorem Connecting.attempt_eq_some {nsqConfig : Option Bytes}
    {entries : ℤ → Option NsqdConnectConfig} {connectNum : ℕ} {s s' : Connecting} {answer : Attempt}
    (one : s.attempt nsqConfig entries connectNum answer = some s') :
    ∃ more, (∀ effect ∈ more, effect.Quiet) ∧
      s'.effects = s.effects ++ .socket answer.socket :: more ∧ s'.i = s.i + 1 ∧
      s'.sockArr = s.sockArr.store s.i [answer.stored] := by
  rw [Connecting.attempt] at one
  split at one
  · cases one
  · next config entry =>
      rw [Option.ite_none_right_eq_some] at one
      obtain rfl := Option.some.inj one.2
      obtain ⟨more, quiet, first⟩ := connecting_quiet s.timeout config answer
      refine ⟨more ++ _, ?_, by rw [first, List.append_assoc]; rfl, rfl, rfl⟩
      intro effect member
      rcases List.mem_append.mp member with before | behind
      · exact quiet effect before
      · split at behind
        · exact connected_quiet _ _ _ effect behind
        · obtain rfl := List.mem_singleton.mp behind
          trivial

/-- **The connect loop**: a socket for every address, and what is stored for it. -/
theorem connect_loop {nsqConfig : Option Bytes} {entries : ℤ → Option NsqdConnectConfig}
    {connectNum : ℕ} {memory : Cells ℤ} {pointer : ℤ} {timeout : Timeval} {answers : List Attempt}
    {s : Connecting}
    (done : answers.foldlM (Connecting.attempt nsqConfig entries connectNum)
      ⟨0, memory, pointer, timeout, []⟩ = some s) :
    sockets s.effects = answers.map Attempt.socket ∧ (∀ sock, .close sock ∉ s.effects) ∧
      s.sockArr.slice 0 answers.length = answers.map Attempt.stored := by
  have along : s.i = answers.length ∧ sockets s.effects = answers.map Attempt.socket ∧
      (∀ sock, .close sock ∉ s.effects) ∧
      s.sockArr.slice 0 answers.length = answers.map Attempt.stored := by
    apply (foldlM_eq_some_iff.mp done).invariant (fun taken s => s.i = taken.length ∧
      sockets s.effects = taken.map Attempt.socket ∧ (∀ sock, .close sock ∉ s.effects) ∧
      s.sockArr.slice 0 taken.length = taken.map Attempt.stored)
    · rintro taken state answer next ⟨place, opened, kept, stored⟩ one
      obtain ⟨more, quiet, effects, moved, cells⟩ := Connecting.attempt_eq_some one
      refine ⟨by rw [moved, place, List.length_append]; rfl, ?_, ?_, ?_⟩
      · have none_behind : sockets (.socket answer.socket :: more) = answer.socket :: [] :=
          congrArg (answer.socket :: ·) (sockets_quiet quiet)
        rw [effects, sockets_append, opened, none_behind, List.map_append]
        rfl
      · intro sock member
        rw [effects, List.mem_append, List.mem_cons] at member
        rcases member with before | same | behind
        · exact kept sock before
        · cases same
        · exact quiet _ behind
      · have length : (taken.map Attempt.stored).length = taken.length := List.length_map _
        rw [cells, place, List.length_append, List.map_append, ← length]
        rw [← length] at stored
        exact Cells.slice_store_append [answer.stored] stored
    · exact ⟨rfl, rfl, fun _ => List.not_mem_nil, rfl⟩
  exact along.2

/-- A pass needs a host that resolves. -/
theorem Connecting.attempt_resolves {nsqConfig : Option Bytes}
    {entries : ℤ → Option NsqdConnectConfig} {connectNum : ℕ} {s s' : Connecting} {answer : Attempt}
    (one : s.attempt nsqConfig entries connectNum answer = some s') : answer.resolves = true := by
  rw [Connecting.attempt] at one
  split at one
  · cases one
  · rw [Option.ite_none_right_eq_some] at one
    exact one.1

/-- After some passes the pointer is as many entries before the last, and on the first in the
end. -/
def Connecting.Walks (count passes : ℕ) (s : Connecting) : Prop :=
  s.i = passes ∧ s.connectConfigArr = ((count - 1 - passes : ℕ) : ℤ)

/-- A pass goes to the entry before, if there is one. -/
theorem Connecting.Walks.next {nsqConfig : Option Bytes}
    {entries : ℤ → Option NsqdConnectConfig} {count passes : ℕ} {s s' : Connecting}
    (walks : s.Walks count passes) {answer : Attempt}
    (one : s.attempt nsqConfig entries count answer = some s') : s'.Walks count (passes + 1) := by
  obtain ⟨place, pointer⟩ := walks
  rw [Connecting.attempt] at one
  split at one
  · cases one
  · rw [Option.ite_none_right_eq_some] at one
    obtain rfl := Option.some.inj one.2
    refine ⟨by rw [place], ?_⟩
    -- the pointer behind the pass
    change (if (s.i : ℤ) < count - 1 then s.connectConfigArr - 1 else s.connectConfigArr) = _
    rw [place, pointer]
    split
    · omega
    · omega

/-- There is a pass wherever a host resolves. -/
theorem Connecting.Walks.attempt {nsqConfig : Option Bytes}
    {entries : ℤ → Option NsqdConnectConfig} {addresses : List NsqdConnectConfig}
    (hold : ∀ k : ℕ, entries k = addresses[k]?) {passes : ℕ} {s : Connecting}
    (walks : s.Walks addresses.length passes) (more : passes < addresses.length) {answer : Attempt}
    (resolves : answer.resolves = true) :
    ∃ s', s.attempt nsqConfig entries addresses.length answer = some s' ∧
      s'.Walks addresses.length (passes + 1) := by
  obtain ⟨address, at_pointer⟩ :
      ∃ address, addresses[addresses.length - 1 - passes]? = some address :=
    ⟨_, List.getElem?_eq_getElem (by omega)⟩
  have entry : entries s.connectConfigArr = some address := by rw [walks.2, hold, at_pointer]
  obtain ⟨s', one⟩ : ∃ s', s.attempt nsqConfig entries addresses.length answer = some s' :=
    ⟨_, by rw [Connecting.attempt, entry]; exact if_pos resolves⟩
  exact ⟨s', one, walks.next one⟩

/-- **The connect loop comes to its end** when every host resolves. -/
theorem connect_loop_exists {nsqConfig : Option Bytes} {entries : ℤ → Option NsqdConnectConfig}
    {addresses : List NsqdConnectConfig} (hold : ∀ k : ℕ, entries k = addresses[k]?)
    {memory : Cells ℤ} {timeout : Timeval} {answers : List Attempt}
    (length : answers.length = addresses.length) :
    (∃ s, answers.foldlM (Connecting.attempt nsqConfig entries addresses.length)
        ⟨0, memory, (addresses.length - 1 : ℕ), timeout, []⟩ = some s) ↔
      ∀ answer ∈ answers, answer.resolves = true := by
  constructor
  · rintro ⟨s, done⟩
    apply (foldlM_eq_some_iff.mp done).invariant
      (fun taken _ => ∀ answer ∈ taken, answer.resolves = true)
    · intro taken state answer next before one other member
      rcases List.mem_append.mp member with earlier | here
      · exact before other earlier
      · obtain rfl := List.mem_singleton.mp here
        exact Connecting.attempt_resolves one
    · exact fun answer member => absurd member List.not_mem_nil
  · intro resolve
    have advance : ∀ taken answer rest (state : Connecting), answers = taken ++ answer :: rest →
        state.Walks addresses.length taken.length →
        ∃ next, state.attempt nsqConfig entries addresses.length answer = some next ∧
          next.Walks addresses.length (taken ++ [answer]).length := by
      rintro taken answer rest state rfl walks
      rw [List.length_append, List.length_cons] at length
      rw [List.length_append, List.length_singleton]
      exact walks.attempt hold (by omega) (resolve answer (by simp))
    have begins : Connecting.Walks addresses.length ([] : List Attempt).length
        ⟨0, memory, (addresses.length - 1 : ℕ), timeout, []⟩ := ⟨rfl, rfl⟩
    obtain ⟨s, run, -⟩ := Run.progress
      (fun taken (s : Connecting) => s.Walks addresses.length taken.length) advance begins
    exact ⟨s, foldlM_eq_some_iff.mpr run⟩

theorem fdArr_succ (sockArr : Cells ℤ) (connectNum : ℕ) :
    fdArr sockArr (connectNum + 1) = (fdArr sockArr connectNum).bind fun fds =>
      if 0 < sockArr connectNum then some (fds ++ [(connectNum, sockArr connectNum)]) else none := by
  rw [fdArr, List.range_succ, List.foldlM_append]
  simp only [List.foldlM_cons, List.foldlM_nil, bind_pure]
  rfl

/-- **`fd_arr`** is the entries of `sock_arr` under their indices, if all are positive. -/
theorem fdArr_eq_some {sockArr : Cells ℤ} {connectNum : ℕ} {fds : ConnectionFds} :
    fdArr sockArr connectNum = some fds ↔ (∀ sock ∈ sockArr.slice 0 connectNum, 0 < sock) ∧
      fds = (List.range connectNum).map fun i => (i, sockArr i) := by
  induction connectNum generalizing fds with
  | zero => simp [fdArr, eq_comm]
  | succ connectNum ih =>
      have last : sockArr.slice 0 (connectNum + 1) =
          sockArr.slice 0 connectNum ++ [sockArr connectNum] := by
        rw [Cells.slice_add, Nat.zero_add]
        rfl
      rw [fdArr_succ, last, List.range_succ, List.map_append, Option.bind_eq_some_iff]
      constructor
      · rintro ⟨before, built, one⟩
        obtain ⟨positive, rfl⟩ := ih.mp built
        rw [Option.ite_none_right_eq_some] at one
        refine ⟨?_, (Option.some.inj one.2).symm⟩
        intro sock member
        rcases List.mem_append.mp member with earlier | here
        · exact positive sock earlier
        · obtain rfl := List.mem_singleton.mp here
          exact one.1
      · rintro ⟨positive, rfl⟩
        have here : 0 < sockArr connectNum :=
          positive _ (List.mem_append_right _ (List.mem_singleton_self _))
        have before : ∀ sock ∈ sockArr.slice 0 connectNum, 0 < sock :=
          fun sock member => positive sock (List.mem_append_left _ member)
        exact ⟨_, ih.mpr ⟨before, rfl⟩, if_pos here⟩

end PhpNsq
