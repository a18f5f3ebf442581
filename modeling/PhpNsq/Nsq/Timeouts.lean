import PhpNsq.Nsq.Connections

/-!
# The connection timeout

`connect_nsqd` keeps the configured timeout in one `struct timeval`. It is set on a socket
before `connect`, and behind a `connect` that succeeds it is set to zero, to take it back
from that socket. It stays zero for all addresses that follow.

The send timeout of each socket follows from the effects (`NsqEffect.sendTimeouts`), and
`timeoutsAt` reads it at the effects of a kind. The timeout applies to every address
(`TimeoutApplies`) exactly when it is zero, or when no attempt that connects is followed by
a later attempt with a socket (`timeoutApplies_iff`).
-/

set_option autoImplicit false

namespace PhpNsq

open Foundations

/-! ## Send timeouts -/

/-- The send timeouts behind an effect. A new socket has none. -/
def NsqEffect.sendTimeouts (timeouts : ℤ → Timeval) : NsqEffect → ℤ → Timeval
  | .socket result => Function.update timeouts result ⟨0, 0⟩
  | .sendTimeout sock timeout => Function.update timeouts sock timeout
  | _ => timeouts

/-- The socket of a `connect`. -/
def NsqEffect.connects : NsqEffect → Option ℤ
  | .connect sock _ _ => some sock
  | _ => none

/-- The socket that is made non-blocking, which is the first use behind `connect`. -/
def NsqEffect.uses : NsqEffect → Option ℤ
  | .nonblock sock => some sock
  | _ => none

/-- The sockets of the effects of a kind, each with its send timeout at that moment. -/
def timeoutsAt (kind : NsqEffect → Option ℤ) :
    (ℤ → Timeval) → List NsqEffect → List (ℤ × Timeval)
  | _, [] => []
  | timeouts, effect :: effects =>
      ((kind effect).map fun sock => (sock, timeouts sock)).toList ++
        timeoutsAt kind (effect.sendTimeouts timeouts) effects

/-- A send timeout of so many milliseconds. -/
def Timeval.Lasts (timeout : Timeval) (milliseconds : ℤ) : Prop :=
  timeout.tvSec * 1000 + timeout.tvUsec / 1000 = milliseconds ∧ timeout.tvUsec % 1000 = 0 ∧
    0 ≤ timeout.tvUsec ∧ timeout.tvUsec < 1000000

/-- **The timeout applies to every address**: at each `connect` the socket has it, and it is
back to none when the socket is used, and when the call is over. -/
structure TimeoutApplies (milliseconds : ℤ) (timeouts : ℤ → Timeval) (answers : List Attempt)
    (effects : List NsqEffect) : Prop where
  attempts : ∀ entry ∈ timeoutsAt NsqEffect.connects timeouts effects,
    entry.1 ≠ -1 → entry.2.Lasts milliseconds
  used : ∀ entry ∈ timeoutsAt NsqEffect.uses timeouts effects, entry.2 = ⟨0, 0⟩
  final : ∀ answer ∈ answers, answer.connects = true →
    effects.foldl NsqEffect.sendTimeouts timeouts answer.socket = ⟨0, 0⟩

section Effects

variable {kind : NsqEffect → Option ℤ} {timeouts : ℤ → Timeval}

theorem timeoutsAt_append (first second : List NsqEffect) :
    timeoutsAt kind timeouts (first ++ second) = timeoutsAt kind timeouts first ++
      timeoutsAt kind (first.foldl NsqEffect.sendTimeouts timeouts) second := by
  induction first generalizing timeouts with
  | nil => rfl
  | cons effect effects ih =>
      rw [List.cons_append, timeoutsAt, ih, timeoutsAt, List.append_assoc]
      rfl

/-- Effects of other kinds. -/
theorem timeoutsAt_eq_nil {effects : List NsqEffect}
    (other : ∀ effect ∈ effects, kind effect = none) : timeoutsAt kind timeouts effects = [] := by
  induction effects generalizing timeouts with
  | nil => rfl
  | cons effect effects ih =>
      rw [timeoutsAt, other effect (List.mem_cons_self ..),
        ih fun later member => other later (List.mem_cons_of_mem _ member)]
      rfl

/-- One effect of the kind. -/
theorem timeoutsAt_singleton {effect : NsqEffect} {sock : ℤ} (here : kind effect = some sock) :
    timeoutsAt kind timeouts [effect] = [(sock, timeouts sock)] := by
  rw [timeoutsAt, here]
  rfl

end Effects

/-! ## One pass -/

/-- What a pass of the connect loop does. -/
def attempting (nsqConfig : Option Bytes) (timeout : Timeval) (config : NsqdConnectConfig)
    (answer : Attempt) : List NsqEffect :=
  connecting timeout config answer ++
    if answer.connects then connected nsqConfig timeout answer.socket
    else [.errorHandlings (ascii "connect() error")]

section Pass

variable {nsqConfig : Option Bytes} {timeouts : ℤ → Timeval} {timeout : Timeval}
  {config : NsqdConnectConfig} {answer : Attempt}

/-- The `timeval` of the loop is set, or zero. -/
def Timeval.SetOrZero (timeout : Timeval) : Prop := timeout.isSet = false → timeout = ⟨0, 0⟩

/-- The send timeouts up to `connect`: its socket has the timeout. -/
theorem foldl_connecting (zero : timeout.SetOrZero) :
    (connecting timeout config answer).foldl NsqEffect.sendTimeouts timeouts =
      Function.update timeouts answer.socket timeout := by
  rw [connecting, List.foldl_cons, List.foldl_append, List.foldl_append]
  have reported : ∀ map : ℤ → Timeval, (if answer.socket = -1 then
      [NsqEffect.errorHandlings (ascii "socket() error")] else []).foldl NsqEffect.sendTimeouts
        map = map := by
    intro map
    split
    · rfl
    · rfl
  rw [reported]
  cases set : timeout.isSet with
  | true =>
      rw [if_pos rfl]
      exact Function.update_idem _ _ _
  | false =>
      rw [if_neg Bool.false_ne_true, zero set]
      rfl

/-- A timeout is taken back by setting zero. -/
theorem foldl_reset (zero : timeout.SetOrZero) (sock : ℤ) :
    (if timeout.isSet then [NsqEffect.sendTimeout sock ⟨0, 0⟩] else []).foldl
        NsqEffect.sendTimeouts (Function.update timeouts sock timeout) =
      Function.update timeouts sock ⟨0, 0⟩ := by
  cases set : timeout.isSet with
  | true => exact Function.update_idem _ _ _
  | false =>
      rw [zero set]
      rfl

/-- Behind a `connect` that succeeds it is none again. -/
theorem foldl_connected (zero : timeout.SetOrZero) (sock : ℤ) :
    (connected nsqConfig timeout sock).foldl NsqEffect.sendTimeouts
        (Function.update timeouts sock timeout) = Function.update timeouts sock ⟨0, 0⟩ := by
  rw [connected, List.foldl_append, List.foldl_append, foldl_reset zero]
  cases nsqConfig with
  | none => rfl
  | some json => rfl

/-- **The send timeouts behind a pass.** -/
theorem foldl_attempting (zero : timeout.SetOrZero) :
    (attempting nsqConfig timeout config answer).foldl NsqEffect.sendTimeouts timeouts =
      Function.update timeouts answer.socket (if answer.connects then ⟨0, 0⟩ else timeout) := by
  rw [attempting, List.foldl_append, foldl_connecting zero]
  cases answer.connects with
  | true => exact foldl_connected zero _
  | false => rfl

/-- Nothing connects behind `connect`. -/
theorem connects_behind (sock : ℤ) :
    ∀ effect ∈ connected nsqConfig timeout sock, effect.connects = none :=
  forall_mem_connected rfl rfl rfl fun _ => rfl

/-- **At its `connect`** the socket of a pass has the timeout of the loop. -/
theorem timeoutsAt_connects_attempting (zero : timeout.SetOrZero) :
    timeoutsAt NsqEffect.connects timeouts (attempting nsqConfig timeout config answer) =
      [(answer.socket, timeout)] := by
  obtain ⟨init, before, none_before⟩ : ∃ init, connecting timeout config answer =
      init ++ [.connect answer.socket config answer.connects] ∧
        ∀ effect ∈ init, effect.connects = none := by
    refine ⟨_, (List.cons_append ..).symm, ?_⟩
    intro effect member
    simp only [List.mem_cons, List.mem_append, List.mem_ite_nil_right, List.not_mem_nil,
      or_false] at member
    rcases member with rfl | ⟨-, rfl⟩ | ⟨-, rfl⟩
    · rfl
    · rfl
    · rfl
  have at_connect : init.foldl NsqEffect.sendTimeouts timeouts =
      Function.update timeouts answer.socket timeout := by
    have whole : (connecting timeout config answer).foldl NsqEffect.sendTimeouts timeouts = _ :=
      foldl_connecting zero
    rwa [before, List.foldl_append] at whole
  have none_behind : ∀ effect ∈ (if answer.connects then connected nsqConfig timeout answer.socket
      else [.errorHandlings (ascii "connect() error")]), effect.connects = none := by
    split
    · exact connects_behind _
    · exact List.forall_mem_singleton.mpr rfl
  rw [attempting, timeoutsAt_append, timeoutsAt_eq_nil none_behind, List.append_nil, before,
    timeoutsAt_append, timeoutsAt_eq_nil none_before, at_connect, List.nil_append,
    timeoutsAt_singleton rfl, Function.update_self]

/-- **When it is used**, it has none. -/
theorem timeoutsAt_uses_attempting (zero : timeout.SetOrZero) :
    timeoutsAt NsqEffect.uses timeouts (attempting nsqConfig timeout config answer) =
      if answer.connects then [(answer.socket, ⟨0, 0⟩)] else [] := by
  have none_before : ∀ effect ∈ connecting timeout config answer, effect.uses = none :=
    forall_mem_connecting rfl rfl rfl rfl
  rw [attempting, timeoutsAt_append, timeoutsAt_eq_nil none_before, foldl_connecting zero,
    List.nil_append]
  split
  · have none_set : ∀ effect ∈ (if timeout.isSet then [NsqEffect.sendTimeout answer.socket ⟨0, 0⟩]
        else []), effect.uses = none := by
      intro effect member
      rw [List.mem_ite_nil_right, List.mem_singleton] at member
      rw [member.2]
      rfl
    have none_identify : ∀ effect ∈ NsqEffect.send answer.socket (ascii "  V2") ::
        (nsqConfig.map (.sendIdentify answer.socket)).toList, effect.uses = none := by
      intro effect member
      simp only [List.mem_cons, Option.mem_toList, Option.map_eq_some_iff] at member
      rcases member with rfl | ⟨json, -, rfl⟩
      · rfl
      · rfl
    have parts : connected nsqConfig timeout answer.socket =
        (if timeout.isSet then [.sendTimeout answer.socket ⟨0, 0⟩] else []) ++
          ([.nonblock answer.socket] ++ (.send answer.socket (ascii "  V2") ::
            (nsqConfig.map (.sendIdentify answer.socket)).toList)) := List.append_assoc ..
    rw [parts, timeoutsAt_append, timeoutsAt_eq_nil none_set, foldl_reset zero, List.nil_append,
      timeoutsAt_append, timeoutsAt_eq_nil none_identify, List.append_nil,
      timeoutsAt_singleton rfl, Function.update_self]
  · exact timeoutsAt_eq_nil (List.forall_mem_singleton.mpr rfl)

end Pass

/-! ## The loop -/

/-- The timeout of the loop at each attempt, with the socket. -/
def attemptTimeouts : Timeval → List Attempt → List (ℤ × Timeval)
  | _, [] => []
  | timeout, answer :: answers =>
      (answer.socket, timeout) ::
        attemptTimeouts (if answer.connects then ⟨0, 0⟩ else timeout) answers

/-- The timeout of the loop behind some attempts. -/
def timeoutBehind (timeout : Timeval) (answers : List Attempt) : Timeval :=
  answers.foldl (fun timeout answer => if answer.connects then ⟨0, 0⟩ else timeout) timeout

section Loop

variable {nsqConfig : Option Bytes} {entries : ℤ → Option NsqdConnectConfig} {connectNum : ℕ}
  {timeouts : ℤ → Timeval} {timeout : Timeval} {answers : List Attempt}

theorem attemptTimeouts_append (first second : List Attempt) :
    attemptTimeouts timeout (first ++ second) =
      attemptTimeouts timeout first ++ attemptTimeouts (timeoutBehind timeout first) second := by
  induction first generalizing timeout with
  | nil => rfl
  | cons answer first ih =>
      rw [List.cons_append, attemptTimeouts, ih]
      rfl

/-- Once an address has connected, the timeout is zero. -/
theorem timeoutBehind_of_connects {answer : Attempt} (member : answer ∈ answers)
    (connects : answer.connects = true) : timeoutBehind timeout answers = ⟨0, 0⟩ := by
  have stays : ∀ rest, timeoutBehind ⟨0, 0⟩ rest = ⟨0, 0⟩ := by
    intro rest
    induction rest with
    | nil => rfl
    | cons other rest ih =>
        rw [timeoutBehind, List.foldl_cons, ite_self]
        exact ih
  obtain ⟨before, behind, rfl⟩ := List.append_of_mem member
  rw [timeoutBehind, List.foldl_append, List.foldl_cons, if_pos connects]
  exact stays behind

/-- **What the connect loop does to the timeouts.** -/
structure LoopTimeouts (timeout : Timeval) (timeouts : ℤ → Timeval) (taken : List Attempt)
    (s : Connecting) : Prop where
  current : s.timeout = timeoutBehind timeout taken
  zero : s.timeout.SetOrZero
  attempts : timeoutsAt NsqEffect.connects timeouts s.effects = attemptTimeouts timeout taken
  used : ∀ entry ∈ timeoutsAt NsqEffect.uses timeouts s.effects, entry.2 = ⟨0, 0⟩
  final : ∀ answer ∈ taken, answer.connects = true →
    s.effects.foldl NsqEffect.sendTimeouts timeouts answer.socket = ⟨0, 0⟩

/-- The effects of a pass, for the entry that the pointer leads to. -/
theorem Connecting.attempt_effects {s s' : Connecting} {answer : Attempt}
    (one : s.attempt nsqConfig entries connectNum answer = some s') :
    ∃ config, entries s.connectConfigArr = some config ∧
      s'.effects = s.effects ++ attempting nsqConfig s.timeout config answer := by
  rw [Connecting.attempt] at one
  split at one
  · cases one
  · next config entry =>
      rw [Option.ite_none_right_eq_some] at one
      obtain rfl := Option.some.inj one.2
      exact ⟨config, entry, List.append_assoc ..⟩

/-- The timeout of the loop behind a pass. -/
theorem Connecting.attempt_timeout {s s' : Connecting} {answer : Attempt}
    (zero : s.timeout.SetOrZero)
    (one : s.attempt nsqConfig entries connectNum answer = some s') :
    s'.timeout = if answer.connects then ⟨0, 0⟩ else s.timeout := by
  rw [Connecting.attempt] at one
  split at one
  · cases one
  · rw [Option.ite_none_right_eq_some] at one
    obtain rfl := Option.some.inj one.2
    cases answer.connects with
    | false => rfl
    | true =>
        cases set : s.timeout.isSet with
        | true => simp
        | false => simp [zero set]

/-- A pass keeps the account. -/
theorem LoopTimeouts.attempt {taken : List Attempt} {s s' : Connecting} {answer : Attempt}
    (loop : LoopTimeouts timeout timeouts taken s)
    (one : s.attempt nsqConfig entries connectNum answer = some s') :
    LoopTimeouts timeout timeouts (taken ++ [answer]) s' := by
  have current := Connecting.attempt_timeout loop.zero one
  obtain ⟨config, -, effects⟩ := Connecting.attempt_effects one
  constructor
  · rw [current, loop.current, timeoutBehind, timeoutBehind, List.foldl_append]
    rfl
  · rw [current]
    split
    · exact fun _ => rfl
    · exact loop.zero
  · rw [effects, timeoutsAt_append, loop.attempts, timeoutsAt_connects_attempting loop.zero,
      attemptTimeouts_append, ← loop.current]
    rfl
  · rw [effects, timeoutsAt_append, timeoutsAt_uses_attempting loop.zero]
    intro entry member
    rcases List.mem_append.mp member with before | here
    · exact loop.used entry before
    · rw [List.mem_ite_nil_right, List.mem_singleton] at here
      rw [here.2]
  · rw [effects, List.foldl_append, foldl_attempting loop.zero]
    intro other member connects
    rcases List.mem_append.mp member with before | here
    · have zero : s.timeout = ⟨0, 0⟩ :=
        loop.current.trans (timeoutBehind_of_connects before connects)
      by_cases same : other.socket = answer.socket
      · rw [same, Function.update_self, zero, ite_self]
      · rw [Function.update_of_ne same]
        exact loop.final other before connects
    · obtain rfl := List.mem_singleton.mp here
      rw [Function.update_self, if_pos connects]

/-- **The connect loop** on a timeout. -/
theorem loopTimeouts {memory : Cells ℤ} {pointer : ℤ} {s : Connecting} (zero : timeout.SetOrZero)
    (done : answers.foldlM (Connecting.attempt nsqConfig entries connectNum)
      ⟨0, memory, pointer, timeout, []⟩ = some s) : LoopTimeouts timeout timeouts answers s := by
  apply (foldlM_eq_some_iff.mp done).invariant (LoopTimeouts timeout timeouts)
  · exact fun taken state answer next loop one => loop.attempt one
  · exact ⟨rfl, zero, rfl, List.forall_mem_nil _, List.forall_mem_nil _⟩

/-! ## The attempts -/

variable {milliseconds : ℤ}

/-- No timeout. -/
theorem lasts_zero_iff : Timeval.Lasts ⟨0, 0⟩ milliseconds ↔ milliseconds = 0 := by
  simp only [Timeval.Lasts]
  omega

/-- Without a timeout the attempts are right for zero, or where there is no socket. -/
theorem attemptTimeouts_zero :
    (∀ entry ∈ attemptTimeouts ⟨0, 0⟩ answers, entry.1 ≠ -1 → entry.2.Lasts milliseconds) ↔
      milliseconds = 0 ∨ ∀ answer ∈ answers, answer.socket = -1 := by
  induction answers with
  | nil => simp [attemptTimeouts]
  | cons answer answers ih =>
      rw [attemptTimeouts, ite_self, List.forall_mem_cons, ih, lasts_zero_iff,
        List.forall_mem_cons]
      by_cases zero : milliseconds = 0
      · simp [zero]
      · simp [zero]

/-- **Every attempt has the timeout** exactly when no attempt that connects is followed by a
later one with a socket. -/
theorem attemptTimeouts_lasts (lasts : timeout.Lasts milliseconds) :
    (∀ entry ∈ attemptTimeouts timeout answers, entry.1 ≠ -1 → entry.2.Lasts milliseconds) ↔
      milliseconds = 0 ∨
        answers.Pairwise fun first later => first.connects = true → later.socket = -1 := by
  induction answers with
  | nil => simp [attemptTimeouts]
  | cons answer answers ih =>
      rw [attemptTimeouts, List.forall_mem_cons, and_iff_right fun _ => lasts, List.pairwise_cons]
      cases connects : answer.connects with
      | false => simpa using ih
      | true =>
          rw [if_pos rfl, attemptTimeouts_zero]
          constructor
          · rintro (zero | none_left)
            · exact .inl zero
            · refine .inr ⟨fun later member _ => none_left later member, ?_⟩
              exact List.pairwise_of_forall_mem_list fun _ _ later member _ => none_left later member
          · rintro (zero | ⟨none_left, -⟩)
            · exact .inl zero
            · exact .inr fun later member => none_left later member rfl

end Loop

/-! ## The call -/

section Call

variable {self : Nsq} {addresses : List NsqdConnectConfig} {memory : Cells ℤ}
  {answers : List Attempt} {result : CallResult} {milliseconds : ℤ}

/-- The timeout of an object. -/
theorem nsqConfTimeout_lasts (nonneg : 0 ≤ milliseconds)
    (configured : self.connTimeout = some milliseconds) :
    (nsqConfTimeout self).Lasts milliseconds ∧ (nsqConfTimeout self).SetOrZero := by
  have timeout : nsqConfTimeout self = ⟨milliseconds / 1000, milliseconds % 1000 * 1000⟩ := by
    rw [nsqConfTimeout, configured]
    exact if_neg (not_lt.mpr nonneg)
  rw [timeout]
  constructor
  · simp only [Timeval.Lasts]
    omega
  · intro unset
    simp only [Timeval.isSet, decide_eq_false_iff_not] at unset
    simp only [Timeval.mk.injEq]
    omega

/-- Releasing the addresses touches no socket. -/
theorem release_frees (connectConfigArr : ℤ) (count : ℕ) :
    ∀ effect ∈ release connectConfigArr count,
      effect.connects = none ∧ effect.uses = none ∧
        ∀ timeouts, effect.sendTimeouts timeouts = timeouts :=
  forall_mem_release (fun _ => ⟨rfl, rfl, fun _ => rfl⟩) (fun _ => ⟨rfl, rfl, fun _ => rfl⟩)
    connectConfigArr count

theorem foldl_release (timeouts : ℤ → Timeval) (connectConfigArr : ℤ) (count : ℕ) :
    (release connectConfigArr count).foldl NsqEffect.sendTimeouts timeouts = timeouts :=
  List.foldlRecOn (motive := fun current : ℤ → Timeval => current = timeouts) _ _ rfl
    fun _ same effect member => ((release_frees _ _ effect member).2.2 _).trans same

/-- **The connection timeout** applies to every address exactly when there is none, or when no
attempt that connects is followed by another one with a socket. -/
theorem timeoutApplies_iff (free : self.nsqdConnectionFds = none) (nonneg : 0 ≤ milliseconds)
    (configured : self.connTimeout = some milliseconds)
    (done : self.connectNsqd addresses memory answers = some result) (timeouts : ℤ → Timeval) :
    TimeoutApplies milliseconds timeouts answers result.effects ↔
      milliseconds = 0 ∨
        answers.Pairwise fun first later => first.connects = true → later.socket = -1 := by
  obtain ⟨lasts, zero⟩ := nsqConfTimeout_lasts nonneg configured
  have length := ((Nsq.connectNsqd_isSome free).mp ⟨result, done⟩).1
  rw [Nsq.connectNsqd_free free length] at done
  obtain ⟨s, looped, rfl⟩ := Option.map_eq_some_iff.mp done
  have loop : LoopTimeouts (nsqConfTimeout self) timeouts answers s := loopTimeouts zero looped
  have attempts : timeoutsAt NsqEffect.connects timeouts
      (s.effects ++ release (fill addresses).connectConfigArr addresses.length) =
        attemptTimeouts (nsqConfTimeout self) answers := by
    rw [timeoutsAt_append, loop.attempts,
      timeoutsAt_eq_nil fun effect member => (release_frees _ _ effect member).1, List.append_nil]
  have used : timeoutsAt NsqEffect.uses timeouts
      (s.effects ++ release (fill addresses).connectConfigArr addresses.length) =
        timeoutsAt NsqEffect.uses timeouts s.effects := by
    rw [timeoutsAt_append,
      timeoutsAt_eq_nil fun effect member => (release_frees _ _ effect member).2.1, List.append_nil]
  rw [← attemptTimeouts_lasts lasts]
  constructor
  · rintro ⟨right, -, -⟩
    rwa [attempts] at right
  · intro right
    refine ⟨attempts ▸ right, used ▸ loop.used, ?_⟩
    intro answer member connects
    rw [List.foldl_append, foldl_release]
    exact loop.final answer member connects

end Call

/-- The first address refuses. -/
theorem timeoutApplies_firstRefuses : ∃ result, newProcess.obj.connectNsqd twoAddresses
    (fun _ => 7) [⟨3, true, false⟩, ⟨4, true, true⟩] = some result ∧
      TimeoutApplies 1500 (fun _ => ⟨0, 0⟩) [⟨3, true, false⟩, ⟨4, true, true⟩] result.effects := by
  obtain ⟨result, done⟩ : ∃ result, newProcess.obj.connectNsqd twoAddresses (fun _ => 7)
      [⟨3, true, false⟩, ⟨4, true, true⟩] = some result := ⟨_, rfl⟩
  refine ⟨result, done, (timeoutApplies_iff rfl (by decide) rfl done _).mpr (.inr ?_)⟩
  simp

/-- Two addresses that both connect: the second attempt is made without a timeout. -/
theorem not_timeoutApplies_bothConnect : ∃ result, newProcess.obj.connectNsqd twoAddresses
    (fun _ => 7) [⟨3, true, true⟩, ⟨4, true, true⟩] = some result ∧
      timeoutsAt NsqEffect.connects (fun _ => ⟨0, 0⟩) result.effects =
        [(3, ⟨1, 500000⟩), (4, ⟨0, 0⟩)] ∧
      ¬ TimeoutApplies 1500 (fun _ => ⟨0, 0⟩) [⟨3, true, true⟩, ⟨4, true, true⟩]
        result.effects := by
  obtain ⟨result, done, attempts⟩ : ∃ result, newProcess.obj.connectNsqd twoAddresses
      (fun _ => 7) [⟨3, true, true⟩, ⟨4, true, true⟩] = some result ∧
        timeoutsAt NsqEffect.connects (fun _ => ⟨0, 0⟩) result.effects =
          [(3, ⟨1, 500000⟩), (4, ⟨0, 0⟩)] := ⟨_, rfl, rfl⟩
  refine ⟨result, done, attempts, ?_⟩
  rintro ⟨right, -, -⟩
  have second : (⟨0, 0⟩ : Timeval).Lasts 1500 :=
    right (4, ⟨0, 0⟩) (by rw [attempts]; simp) (by decide)
  exact absurd (lasts_zero_iff.mp second) (by decide)

end PhpNsq
