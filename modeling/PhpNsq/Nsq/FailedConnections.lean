import PhpNsq.Nsq.Connections

/-!
# Calls of connectNsqd that fail

When an address fails, `connectNsqd` returns false and the property stays NULL, so the caller
may try again. Nothing is closed on that way: neither the socket of the address that failed
nor those of the addresses that did connect, and no one has their descriptors any more.

A failed call leaves the open descriptors as they were exactly when `socket` gave none
(`failsCleanly_iff`). Otherwise every retry leaves its sockets open (`mem_opened_retried`).
-/

set_option autoImplicit false

namespace PhpNsq

open Foundations

/-- A call of `connectNsqd` with its memory and the answers of the kernel. -/
structure Retry where
  addresses : List NsqdConnectConfig
  memory : Cells ℤ
  answers : List Attempt

/-- One answer for each address, and some address fails. -/
structure Retry.Fails (retry : Retry) : Prop where
  length : retry.answers.length = retry.addresses.length
  failing : ∃ answer ∈ retry.answers, answer.resolves = false ∨ answer.connects = false

/-- **A failed call leaves nothing behind**: it returns false, the property is NULL, and the open
descriptors are those before the call. -/
def FailsCleanly (s : NsqProcess) (retry : Retry) : Prop :=
  ∃ result, s.obj.connectNsqd retry.addresses retry.memory retry.answers = some result ∧
    result.ending = .returned (some false) ∧ result.obj.nsqdConnectionFds = none ∧
    result.effects.foldl NsqEffect.descriptors s.opened = s.opened

section Call

variable {self : Nsq} {addresses : List NsqdConnectConfig} {memory : Cells ℤ}
  {answers : List Attempt} {result : CallResult}

/-- A call without connections returns whether all entries of `sock_arr` are positive. -/
theorem Nsq.connectNsqd_ending (free : self.nsqdConnectionFds = none)
    (done : self.connectNsqd addresses memory answers = some result) :
    ∃ value, result.ending = .returned (some value) ∧
      (value = true ↔ ∀ answer ∈ answers, answer.Succeeds) := by
  have length := ((Nsq.connectNsqd_isSome free).mp ⟨result, done⟩).1
  rw [Nsq.connectNsqd_free free length] at done
  obtain ⟨s, loop, rfl⟩ := Option.map_eq_some_iff.mp done
  obtain ⟨-, -, stored⟩ := connect_loop loop
  have positive : (∀ sock ∈ s.sockArr.slice 0 addresses.length, 0 < sock) ↔
      ∀ answer ∈ answers, answer.Succeeds := by
    rw [← length, stored, List.forall_mem_map]
    exact forall₂_congr fun _ _ => Attempt.stored_pos
  refine ⟨_, rfl, Iff.trans ?_ positive⟩
  simp [Cells.slice]

/-- When an address fails, the property stays NULL. -/
theorem Nsq.connectNsqd_failed (free : self.nsqdConnectionFds = none)
    (done : self.connectNsqd addresses memory answers = some result)
    (failed : ¬ ∀ answer ∈ answers, answer.Succeeds) :
    result.ending = .returned (some false) ∧ result.obj = self := by
  obtain ⟨value, ending, iff⟩ := Nsq.connectNsqd_ending free done
  obtain ⟨-, -, -, -, sockArr, stored, obj⟩ := Nsq.connectNsqd_eq_some free done
  constructor
  · cases value with
    | true => exact absurd (iff.mp rfl) failed
    | false => exact ending
  · rw [obj, fdArr_of_failed stored failed, ← free]

/-- The sockets of a failed call stay open. -/
theorem Nsq.mem_opened_failed (free : self.nsqdConnectionFds = none)
    (done : self.connectNsqd addresses memory answers = some result) {opened : Finset ℤ}
    {sock : ℤ} :
    sock ∈ result.effects.foldl NsqEffect.descriptors opened ↔
      sock ∈ opened ∨ sock ∈ answers.map Attempt.socket ∧ sock ≠ -1 := by
  obtain ⟨-, opens, kept, -⟩ := Nsq.connectNsqd_eq_some free done
  rw [mem_foldl_descriptors kept, opens]

end Call

section Retries

variable {s s' : NsqProcess} {retry : Retry}

/-- An address that fails does not succeed. -/
theorem Retry.Fails.not_succeeds (fails : retry.Fails)
    (resolve : ∀ answer ∈ retry.answers, answer.resolves = true) :
    ¬ ∀ answer ∈ retry.answers, answer.Succeeds := by
  obtain ⟨answer, member, lost | refused⟩ := fails.failing
  · rw [resolve answer member] at lost
    cases lost
  · intro succeed
    rw [(succeed answer member).1] at refused
    cases refused

/-- **A failed call leaves nothing behind** exactly when every host resolves and no socket was
created. -/
theorem failsCleanly_iff (free : s.obj.nsqdConnectionFds = none)
    (kernel : Answers s.opened retry.answers) (fails : retry.Fails) :
    FailsCleanly s retry ↔
      ∀ answer ∈ retry.answers, answer.resolves = true ∧ answer.socket = -1 := by
  constructor
  · rintro ⟨result, done, -, -, same⟩ answer member
    have resolve := ((Nsq.connectNsqd_isSome free).mp ⟨result, done⟩).2
    refine ⟨resolve answer member, ?_⟩
    rcases kernel.1 answer member with ⟨none, -⟩ | ⟨-, fresh⟩
    · exact none
    · by_contra created
      have opened : answer.socket ∈ result.effects.foldl NsqEffect.descriptors s.opened :=
        (Nsq.mem_opened_failed free done).mpr (.inr ⟨List.mem_map_of_mem member, created⟩)
      rw [same] at opened
      exact fresh opened
  · intro none_created
    have resolve : ∀ answer ∈ retry.answers, answer.resolves = true :=
      fun answer member => (none_created answer member).1
    obtain ⟨result, done⟩ := (Nsq.connectNsqd_isSome free).mpr ⟨fails.length, resolve⟩
    obtain ⟨ending, obj⟩ := Nsq.connectNsqd_failed free done (fails.not_succeeds resolve)
    refine ⟨result, done, ending, by rw [obj, free], ?_⟩
    ext sock
    rw [Nsq.mem_opened_failed free done]
    refine or_iff_left ?_
    rintro ⟨created, some_socket⟩
    obtain ⟨answer, member, rfl⟩ := List.mem_map.mp created
    exact some_socket (none_created answer member).2

/-- A call that fails, and returns. -/
def Retried (s : NsqProcess) (retry : Retry) (s' : NsqProcess) : Prop :=
  retry.Fails ∧ ∃ result, s.obj.connectNsqd retry.addresses retry.memory retry.answers = some result ∧
    s' = ⟨result.obj, result.effects.foldl NsqEffect.descriptors s.opened⟩

/-- The sockets that some calls created. -/
def created (retries : List Retry) : List ℤ :=
  retries.flatMap fun retry => (retry.answers.map Attempt.socket).filter (· ≠ -1)

/-- **Retries leave every socket open** that they created. -/
theorem mem_opened_retried {retries : List Retry} (free : s.obj.nsqdConnectionFds = none)
    (run : Run Retried s retries s') {sock : ℤ} :
    s'.obj.nsqdConnectionFds = none ∧
      (sock ∈ s'.opened ↔ sock ∈ s.opened ∨ sock ∈ created retries) := by
  apply run.invariant (fun taken state => state.obj.nsqdConnectionFds = none ∧
    (sock ∈ state.opened ↔ sock ∈ s.opened ∨ sock ∈ created taken))
  · rintro taken state retry next ⟨still_free, opened⟩ ⟨fails, result, done, rfl⟩
    have resolve := ((Nsq.connectNsqd_isSome still_free).mp ⟨result, done⟩).2
    obtain ⟨-, obj⟩ := Nsq.connectNsqd_failed still_free done (fails.not_succeeds resolve)
    refine ⟨obj ▸ still_free, ?_⟩
    rw [Nsq.mem_opened_failed still_free done, opened, or_assoc]
    simp [created]
  · exact ⟨free, by simp [created]⟩

end Retries

/-- No descriptor is left for a socket. -/
def outOfDescriptors : Retry :=
  ⟨twoAddresses, fun _ => 7, [⟨-1, true, false⟩, ⟨-1, true, false⟩]⟩

theorem failsCleanly_outOfDescriptors : FailsCleanly newProcess outOfDescriptors := by
  have kernel : Answers newProcess.opened outOfDescriptors.answers := by decide
  have fails : outOfDescriptors.Fails := ⟨rfl, _, List.mem_cons_self .., .inr rfl⟩
  refine (failsCleanly_iff rfl kernel fails).mpr ?_
  intro answer member
  simp only [outOfDescriptors, List.mem_cons, List.not_mem_nil, or_false, or_self] at member
  subst member
  exact ⟨rfl, rfl⟩

/-- The first address connects, and the second refuses. -/
def secondRefuses : Retry := ⟨twoAddresses, fun _ => 7, [⟨3, true, true⟩, ⟨4, true, false⟩]⟩

/-- **Both sockets stay open** behind the call. -/
theorem not_failsCleanly_secondRefuses : ¬ FailsCleanly newProcess secondRefuses := by
  rintro ⟨result, done, -, -, same⟩
  have opened : (3 : ℤ) ∈ result.effects.foldl NsqEffect.descriptors newProcess.opened :=
    (Nsq.mem_opened_failed rfl done).mpr (.inr ⟨by decide, by decide⟩)
  rw [same] at opened
  exact absurd opened (by decide)

end PhpNsq
