import PhpNsq.Nsq.FailedConnections

/-!
# Calls of connectNsqd on connections

When the property is an array already, `connect_nsqd` fills `sock_arr` with its values and leaves.
`sock_arr` has room for the addresses of this call, and the loop behind goes through as many
entries. How many values there are was decided by the call that made the connections.

The loop over the values is `tableLoop`, with the entries it stores to. After a call for
some addresses and others that close nothing, a call for other addresses is safe
(`RepeatsSafely`) exactly when there are as many of them (`repeatsSafely_iff`).
-/

set_option autoImplicit false

namespace PhpNsq

open Foundations

/-! ## The loop over the values -/

/-- The counter, `sock_arr`, and the entries that were stored to. -/
structure TableLoop where
  i : ℕ
  sockArr : Cells ℤ
  writes : List ℕ

/-- One pass. -/
def TableLoop.pass (s : TableLoop) (val : ℤ) : TableLoop where
  i := s.i + 1
  sockArr := s.sockArr.store s.i [val]
  writes := s.writes ++ [s.i]

/-- The loop. -/
def tableLoop (memory : Cells ℤ) (fds : ConnectionFds) : TableLoop :=
  (fds.map Prod.snd).foldl TableLoop.pass ⟨0, memory, []⟩

/-- **What the loop does**: the values in order, from the first entry on. -/
theorem tableLoop_eq (memory : Cells ℤ) (fds : ConnectionFds) :
    tableLoop memory fds =
      ⟨fds.length, memory.store 0 (fds.map Prod.snd), List.range fds.length⟩ := by
  rw [tableLoop, ← List.length_map Prod.snd]
  generalize fds.map Prod.snd = values
  induction values using List.reverseRecOn with
  | nil => simp
  | append_singleton values val ih =>
      rw [List.foldl_append, ih, List.foldl_cons, List.foldl_nil, TableLoop.pass,
        List.length_append, List.length_singleton, List.range_succ]
      congr 1
      exact Cells.store_store memory values [val]

/-- It is what `connect_nsqd` does on connections. -/
theorem connectNsqd_tableLoop {nsqObj : Nsq} {fds : ConnectionFds}
    (connected : nsqObj.nsqdConnectionFds = some fds) (entries : ℤ → Option NsqdConnectConfig)
    (connectConfigArr : ℤ) (connectNum : ℕ) (memory : Cells ℤ) (answers : List Attempt) :
    connectNsqd nsqObj entries connectConfigArr connectNum memory answers =
      some ([], (tableLoop memory fds).sockArr, nsqObj) := by
  rw [connectNsqd, connected, tableLoop_eq]

/-- **A call on connections is safe**: it stores to allocated entries only, the result loop
reads entries that were stored to, and whatever memory it gets, it returns true. -/
structure RepeatsSafely (self : Nsq) (addresses : List NsqdConnectConfig) : Prop where
  stores : ∃ fds, self.nsqdConnectionFds = some fds ∧ ∀ memory,
    (∀ index ∈ (tableLoop memory fds).writes, index < addresses.length) ∧
      ∀ index ∈ List.range addresses.length, index ∈ (tableLoop memory fds).writes
  returns : ∀ memory answers, ∃ result, self.connectNsqd addresses memory answers = some result ∧
    result.ending = .returned (some true)

/-- A call that returns and is not one of `closeNsqdConnection`. -/
def KeepsOpen (self : Nsq) (call : NsqCall) (self' : Nsq) : Prop :=
  (∀ closes, call ≠ .closeNsqdConnection closes) ∧ ∃ result value, call.result self = some result ∧
    result.ending = .returned value ∧ self' = result.obj

section Calls

variable {self self' : Nsq} {fds : ConnectionFds} {addresses : List NsqdConnectConfig}

theorem Nsq.publishing_obj (request : Request) (rand : ℕ) (re : ℤ) :
    (self.publishing request rand re).obj = self := by
  rw [Nsq.publishing]
  split
  · rfl
  · next fds connections =>
      by_cases empty : fds.length = 0
      · simp only [if_pos empty]
      · simp only [if_neg empty]
        split
        · rfl
        · rfl

/-- Such a call leaves the connections as they are. -/
theorem KeepsOpen.connections {call : NsqCall} (keeps : KeepsOpen self call self')
    (connected : self.nsqdConnectionFds = some fds) : self'.nsqdConnectionFds = some fds := by
  obtain ⟨kept, result, value, done, -, rfl⟩ := keeps
  cases call with
  | connectNsqd addresses memory answers =>
      obtain ⟨result', -, early, -, -, same⟩ := Nsq.connectNsqd_connected connected
      obtain rfl := Option.some.inj (early.symm.trans done)
      rw [same, connected]
  | closeNsqdConnection closes => exact absurd rfl (kept closes)
  | publish topic msg rand re =>
      obtain rfl := Option.some.inj done
      rw [Nsq.publish, Nsq.publishing_obj, connected]
  | deferredPublish topic msg delayTime rand re =>
      obtain rfl := Option.some.inj done
      rw [Nsq.deferredPublish, Nsq.publishing_obj, connected]

/-- The entries that the loop stored are positive. -/
theorem tableLoop_pos (positive : ∀ sock ∈ fds.map Prod.snd, 0 < sock) (memory : Cells ℤ) {i : ℕ}
    (inside : i < fds.length) : 0 < (tableLoop memory fds).sockArr i := by
  have values := Cells.slice_store_self memory 0 (fds.map Prod.snd)
  rw [List.length_map] at values
  have stored : memory.store 0 (fds.map Prod.snd) i ∈
      (memory.store 0 (fds.map Prod.snd)).slice 0 fds.length :=
    List.mem_map.mpr ⟨i, List.mem_range.mpr inside, congrArg _ (Nat.zero_add i)⟩
  rw [values] at stored
  rw [tableLoop_eq]
  exact positive _ stored

/-- **On connections** a call is safe exactly when it has as many addresses. -/
theorem repeatsSafely_of_connected (connected : self.nsqdConnectionFds = some fds)
    (positive : ∀ sock ∈ fds.map Prod.snd, 0 < sock) :
    RepeatsSafely self addresses ↔ fds.length = addresses.length := by
  constructor
  · rintro ⟨⟨fds', connected', loop⟩, -⟩
    obtain rfl := Option.some.inj (connected'.symm.trans connected)
    obtain ⟨inside, written⟩ := loop fun _ => 0
    simp only [tableLoop_eq, List.mem_range] at inside written
    by_contra apart
    rcases Nat.lt_or_gt_of_ne apart with fewer | more
    · exact absurd (written _ fewer) (Nat.lt_irrefl _)
    · exact absurd (inside _ more) (Nat.lt_irrefl _)
  · intro length
    constructor
    · refine ⟨fds, connected, fun memory => ?_⟩
      simp [tableLoop_eq, length]
    · intro memory answers
      refine ⟨_, by rw [Nsq.connectNsqd, connectNsqd_tableLoop connected]; rfl, ?_⟩
      have all : (List.range addresses.length).all (fun i =>
          decide (0 < (tableLoop memory fds).sockArr i)) = true := by
        rw [List.all_eq_true]
        intro i member
        exact decide_eq_true (tableLoop_pos positive memory (length ▸ List.mem_range.mp member))
      exact congrArg (fun value => Ending.returned (some value)) all

/-- **A repeated call**: after a call for some addresses and others that close nothing, a call for
other addresses is safe exactly when there are as many. -/
theorem repeatsSafely_iff {first : List NsqdConnectConfig} {memory : Cells ℤ}
    {answers : List Attempt} {result : CallResult} (free : self.nsqdConnectionFds = none)
    (done : self.connectNsqd first memory answers = some result)
    (succeeded : result.ending = .returned (some true)) {calls : List NsqCall} {last : Nsq}
    (run : Run KeepsOpen result.obj calls last) :
    RepeatsSafely last addresses ↔ first.length = addresses.length := by
  obtain ⟨value, ending, iff⟩ := Nsq.connectNsqd_ending free done
  obtain rfl : value = true := by simpa [ending] using succeeded
  have succeed := iff.mp rfl
  obtain ⟨length, -, -, -, sockArr, stored, obj⟩ := Nsq.connectNsqd_eq_some free done
  obtain ⟨fds, built, values⟩ := fdArr_of_succeeds stored succeed
  have connected : last.nsqdConnectionFds = some fds := by
    apply run.invariant (fun _ self => self.nsqdConnectionFds = some fds)
    · exact fun _ _ _ _ still keeps => keeps.connections still
    · rw [obj, built]
  have positive : ∀ sock ∈ fds.map Prod.snd, 0 < sock := by
    rw [values]
    exact List.forall_mem_map.mpr fun answer member => (succeed answer member).2
  have count := congrArg List.length values
  rw [List.length_map, List.length_map, length] at count
  rw [repeatsSafely_of_connected connected positive, count]

end Calls

theorem connectNsqd_twoAddresses : ∃ result,
    newProcess.obj.connectNsqd twoAddresses (fun _ => 7) [⟨5, true, true⟩, ⟨6, true, true⟩] =
        some result ∧ result.ending = .returned (some true) ∧
      result.obj = ⟨some [(0, 5), (1, 6)], some 1500, none⟩ :=
  ⟨_, rfl, rfl, rfl⟩

/-- Two addresses are connected, something is published, and they are connected again. -/
theorem repeatsSafely_twoAddresses : ∃ result last,
    newProcess.obj.connectNsqd twoAddresses (fun _ => 7) [⟨5, true, true⟩, ⟨6, true, true⟩] =
        some result ∧
      Run KeepsOpen result.obj [.publish (ascii "t") (ascii "m") 11 6] last ∧
      RepeatsSafely last twoAddresses := by
  obtain ⟨result, done, succeeded, opened⟩ := connectNsqd_twoAddresses
  have run : Run KeepsOpen result.obj [.publish (ascii "t") (ascii "m") 11 6]
      ⟨some [(0, 5), (1, 6)], some 1500, none⟩ := by
    rw [opened]
    exact ⟨_, ⟨fun closes => by simp, _, _, rfl, rfl, rfl⟩, rfl⟩
  exact ⟨result, _, done, run, (repeatsSafely_iff rfl done succeeded run).mpr rfl⟩

/-- Two addresses are connected, and then one: the second descriptor is stored behind the
allocation. -/
theorem not_repeatsSafely_fewer : ∃ result,
    newProcess.obj.connectNsqd twoAddresses (fun _ => 7) [⟨5, true, true⟩, ⟨6, true, true⟩] =
        some result ∧ result.ending = .returned (some true) ∧
      (∃ fds, result.obj.nsqdConnectionFds = some fds ∧
        (tableLoop (fun _ => 7) fds).writes = [0, 1]) ∧
      ¬ RepeatsSafely result.obj [⟨ascii "127.0.0.1", ascii "4150"⟩] := by
  obtain ⟨result, done, succeeded, opened⟩ := connectNsqd_twoAddresses
  refine ⟨result, done, succeeded, ⟨_, by rw [opened], rfl⟩, ?_⟩
  rw [opened, repeatsSafely_of_connected rfl (by decide)]
  decide

end PhpNsq
