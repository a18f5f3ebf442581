import PhpNsq.Nsq.Methods

/-!
# The connections of an object

The calls on an object work on the open descriptors of the process. In every state that calls can
lead to, the property is NULL or a table of connections (`ConnectionFds.Table`): the keys count
from zero, and the values are positive, distinct and open.

A call of `connectNsqd` on a free property asks for a socket for every address. All of them
become the table, or the property stays NULL. On a table it does nothing.
`closeNsqdConnection` closes the values of the table and leaves NULL. `publish` and
`deferredPublish` find an entry whatever `rand` gives, since the keys have no gap.
-/

set_option autoImplicit false

namespace PhpNsq

open Foundations

/-- A call on an object, with the answers it gets. -/
inductive NsqCall where
  | connectNsqd (addresses : List NsqdConnectConfig) (memory : Cells ℤ) (answers : List Attempt)
  | closeNsqdConnection (closes : ℤ → Bool)
  | publish (topic msg : Bytes) (rand : ℕ) (re : ℤ)
  | deferredPublish (topic msg : Bytes) (delayTime : Int64) (rand : ℕ) (re : ℤ)

/-- The call. -/
def NsqCall.result (self : Nsq) : NsqCall → Option CallResult
  | .connectNsqd addresses memory answers => self.connectNsqd addresses memory answers
  | .closeNsqdConnection closes => some (self.closeNsqdConnection closes)
  | .publish topic msg rand re => some (self.publish topic msg rand re)
  | .deferredPublish topic msg delayTime rand re =>
      some (self.deferredPublish topic msg delayTime rand re)

/-- Answers that the kernel gives: `socket` fails, and then `connect` does, or it gives a
descriptor that is not open. -/
def Answers (opened : Finset ℤ) (answers : List Attempt) : Prop :=
  (∀ answer ∈ answers, (answer.socket = -1 ∧ answer.connects = false) ∨
    (0 ≤ answer.socket ∧ answer.socket ∉ opened)) ∧
  ((answers.map Attempt.socket).filter (· ≠ -1)).Nodup

instance (opened : Finset ℤ) (answers : List Attempt) : Decidable (Answers opened answers) :=
  inferInstanceAs (Decidable (_ ∧ _))

/-- An object, and the descriptors that are open in its process. -/
structure NsqProcess where
  obj : Nsq
  opened : Finset ℤ

/-- A call that the object is used with: `connectNsqd` on some addresses, and the others on
connections. -/
def NsqProcess.Used (s : NsqProcess) : NsqCall → Prop
  | .connectNsqd addresses _ answers => addresses ≠ [] ∧ Answers s.opened answers
  | _ => ∃ fds, s.obj.nsqdConnectionFds = some fds ∧ fds ≠ []

/-- A call that returns. -/
def Called (s : NsqProcess) (call : NsqCall) (s' : NsqProcess) : Prop :=
  s.Used call ∧ ∃ result value, call.result s.obj = some result ∧
    result.ending = .returned value ∧
    s' = ⟨result.obj, result.effects.foldl NsqEffect.descriptors s.opened⟩

/-- **Connections**: the keys count from zero, and the values are positive, distinct and open. -/
structure ConnectionFds.Table (fds : ConnectionFds) (opened : Finset ℤ) : Prop where
  nonempty : fds ≠ []
  keys : fds.map Prod.fst = List.range fds.length
  positive : ∀ sock ∈ fds.map Prod.snd, 0 < sock
  distinct : (fds.map Prod.snd).Nodup
  opened : ∀ sock ∈ fds.map Prod.snd, sock ∈ opened

/-- The property is NULL or a table of connections. -/
def NsqProcess.Connected (s : NsqProcess) : Prop :=
  ∀ fds, s.obj.nsqdConnectionFds = some fds → fds.Table s.opened

/-- An address that is connected. -/
def Attempt.Succeeds (answer : Attempt) : Prop := answer.connects = true ∧ 0 < answer.socket

/-- **What a call does** to an object with a table of connections, or without one. -/
def NsqProcess.Obeys (s : NsqProcess) : NsqCall → Prop
  | .connectNsqd addresses memory answers =>
      match s.obj.nsqdConnectionFds with
      | some _ => ∃ result value, s.obj.connectNsqd addresses memory answers = some result ∧
          result.ending = .returned value ∧ (∀ effect ∈ result.effects, effect.Quiet) ∧
          result.obj = s.obj
      | none =>
          ((∃ result, s.obj.connectNsqd addresses memory answers = some result) ↔
            answers.length = addresses.length ∧ ∀ answer ∈ answers, answer.resolves = true) ∧
          ∀ result, s.obj.connectNsqd addresses memory answers = some result →
            (∃ value, result.ending = .returned value) ∧
            sockets result.effects = answers.map Attempt.socket ∧
            ((∀ answer ∈ answers, answer.Succeeds) → ∃ fds,
              result.obj = { s.obj with nsqdConnectionFds := some fds } ∧
              fds.length = addresses.length ∧
              fds.map Prod.snd = answers.map Attempt.socket) ∧
            (¬ (∀ answer ∈ answers, answer.Succeeds) → result.obj = s.obj)
  | .closeNsqdConnection closes => ∃ fds value, s.obj.nsqdConnectionFds = some fds ∧
      s.obj.closeNsqdConnection closes =
        ⟨(fds.map Prod.snd).map .close, { s.obj with nsqdConnectionFds := none }, .returned value⟩
  | .publish topic msg rand re => ∃ fds sock value, s.obj.nsqdConnectionFds = some fds ∧
      fds.lookup (rand % fds.length) = some sock ∧
      s.obj.publish topic msg rand re =
        ⟨[.publish sock (.publish topic msg)], s.obj, .returned value⟩
  | .deferredPublish topic msg delayTime rand re => ∃ fds sock value,
      s.obj.nsqdConnectionFds = some fds ∧ fds.lookup (rand % fds.length) = some sock ∧
      s.obj.deferredPublish topic msg delayTime rand re =
        ⟨[.publish sock (.deferredPublish topic msg delayTime.toInt32)], s.obj, .returned value⟩

/-! ## connectNsqd -/

section Connect

variable {self : Nsq} {addresses : List NsqdConnectConfig} {memory : Cells ℤ}
  {answers : List Attempt} {result : CallResult}

/-- On connections `connectNsqd` releases the addresses. -/
theorem Nsq.connectNsqd_early {fds : ConnectionFds} (taken : self.nsqdConnectionFds = some fds) :
    ∃ value, self.connectNsqd addresses memory answers = some
      ⟨release (fill addresses).connectConfigArr addresses.length, self, .returned value⟩ := by
  rw [Nsq.connectNsqd, PhpNsq.connectNsqd, taken]
  exact ⟨_, rfl⟩

/-- Otherwise it does nothing there. -/
theorem Nsq.connectNsqd_connected {fds : ConnectionFds}
    (taken : self.nsqdConnectionFds = some fds) :
    ∃ result value, self.connectNsqd addresses memory answers = some result ∧
      result.ending = .returned value ∧ (∀ effect ∈ result.effects, effect.Quiet) ∧
      result.obj = self := by
  obtain ⟨value, early⟩ := Nsq.connectNsqd_early taken
  exact ⟨_, value, early, rfl, release_quiet _ _, rfl⟩

/-- Without connections it comes out of the connect loop, if it does. -/
theorem Nsq.connectNsqd_free (free : self.nsqdConnectionFds = none)
    (length : answers.length = addresses.length) :
    self.connectNsqd addresses memory answers =
      (answers.foldlM (Connecting.attempt self.nsqConfig (fill addresses).entries addresses.length)
        ⟨0, memory, (addresses.length - 1 : ℕ), nsqConfTimeout self, []⟩).map fun s =>
        { effects := s.effects ++ release (fill addresses).connectConfigArr addresses.length
          obj := { self with nsqdConnectionFds := fdArr s.sockArr addresses.length }
          ending := .returned
            (some ((List.range addresses.length).all fun i => decide (0 < s.sockArr i))) } := by
  rw [Nsq.connectNsqd, PhpNsq.connectNsqd, free, if_pos length, (fill_eq addresses).2,
    Option.map_map]
  refine congrArg (Option.map · _) (funext fun s => ?_)
  rw [Function.comp_apply]
  cases built : fdArr s.sockArr addresses.length with
  | none =>
      have same : self = { self with nsqdConnectionFds := none } := by rw [← free]
      rw [← same]
  | some fds => rfl

/-- Without connections it returns when every host resolves. -/
theorem Nsq.connectNsqd_isSome (free : self.nsqdConnectionFds = none) :
    (∃ result, self.connectNsqd addresses memory answers = some result) ↔
      answers.length = addresses.length ∧ ∀ answer ∈ answers, answer.resolves = true := by
  by_cases length : answers.length = addresses.length
  · rw [Nsq.connectNsqd_free free length, ← connect_loop_exists (fill_eq addresses).1 length]
    constructor
    · rintro ⟨result, done⟩
      obtain ⟨s, loop, -⟩ := Option.map_eq_some_iff.mp done
      exact ⟨length, s, loop⟩
    · rintro ⟨-, s, loop⟩
      exact ⟨_, Option.map_eq_some_iff.mpr ⟨s, loop, rfl⟩⟩
  · simp [Nsq.connectNsqd, PhpNsq.connectNsqd, free, length]

/-- **A call without connections**: a socket for every address, and what `fd_arr` becomes. -/
theorem Nsq.connectNsqd_eq_some (free : self.nsqdConnectionFds = none)
    (done : self.connectNsqd addresses memory answers = some result) :
    answers.length = addresses.length ∧ sockets result.effects = answers.map Attempt.socket ∧
      (∀ sock, .close sock ∉ result.effects) ∧ (∃ value, result.ending = .returned value) ∧
      ∃ sockArr : Cells ℤ, sockArr.slice 0 addresses.length = answers.map Attempt.stored ∧
        result.obj = { self with nsqdConnectionFds := fdArr sockArr addresses.length } := by
  have length := ((Nsq.connectNsqd_isSome free).mp ⟨result, done⟩).1
  rw [Nsq.connectNsqd_free free length] at done
  obtain ⟨s, loop, rfl⟩ := Option.map_eq_some_iff.mp done
  obtain ⟨opened, kept, stored⟩ := connect_loop loop
  refine ⟨length, ?_, ?_, ⟨_, rfl⟩, s.sockArr, length ▸ stored, rfl⟩
  · rw [sockets_append, opened, sockets_quiet (release_quiet _ _), List.append_nil]
  · intro sock member
    rcases List.mem_append.mp member with before | behind
    · exact kept sock before
    · exact release_quiet _ _ _ behind

/-! ## The table -/

theorem Attempt.stored_pos {answer : Attempt} : 0 < answer.stored ↔ answer.Succeeds := by
  rw [Attempt.stored, Attempt.Succeeds]
  split
  · next connects => simp [connects]
  · next refused => simp [refused]

theorem Attempt.Succeeds.stored_eq {answer : Attempt} (succeeds : answer.Succeeds) :
    answer.stored = answer.socket := if_pos succeeds.1

/-- `fd_arr` has the entries of `sock_arr` in order. -/
theorem fdArr_table {sockArr : Cells ℤ} {count : ℕ} {fds : ConnectionFds}
    (built : fdArr sockArr count = some fds) :
    fds.map Prod.fst = List.range count ∧ fds.map Prod.snd = sockArr.slice 0 count := by
  obtain ⟨-, rfl⟩ := fdArr_eq_some.mp built
  constructor
  · rw [List.map_map]
    exact List.map_id _
  · rw [List.map_map]
    exact List.map_congr_left fun i _ => congrArg sockArr (Nat.zero_add i).symm

variable {sockArr : Cells ℤ}

/-- **All or nothing**: `fd_arr` is the sockets when every address is connected. -/
theorem fdArr_of_succeeds (stored : sockArr.slice 0 addresses.length = answers.map Attempt.stored)
    (succeed : ∀ answer ∈ answers, answer.Succeeds) :
    ∃ fds, fdArr sockArr addresses.length = some fds ∧
      fds.map Prod.snd = answers.map Attempt.socket := by
  have positive : ∀ sock ∈ sockArr.slice 0 addresses.length, 0 < sock := by
    rw [stored]
    intro sock member
    obtain ⟨answer, here, rfl⟩ := List.mem_map.mp member
    exact Attempt.stored_pos.mpr (succeed answer here)
  have built := fdArr_eq_some.mpr ⟨positive, rfl⟩
  refine ⟨_, built, ?_⟩
  rw [(fdArr_table built).2, stored]
  exact List.map_congr_left fun answer member => (succeed answer member).stored_eq

theorem succeeds_of_fdArr (stored : sockArr.slice 0 addresses.length = answers.map Attempt.stored)
    {fds : ConnectionFds} (built : fdArr sockArr addresses.length = some fds) :
    ∀ answer ∈ answers, answer.Succeeds := by
  intro answer member
  have positive := (fdArr_eq_some.mp built).1
  rw [stored] at positive
  exact Attempt.stored_pos.mp (positive _ (List.mem_map_of_mem member))

theorem fdArr_of_failed (stored : sockArr.slice 0 addresses.length = answers.map Attempt.stored)
    (failed : ¬ ∀ answer ∈ answers, answer.Succeeds) : fdArr sockArr addresses.length = none := by
  cases built : fdArr sockArr addresses.length with
  | none => rfl
  | some fds => exact absurd (succeeds_of_fdArr stored built) failed

/-- The sockets that are connected are a table. -/
theorem table_of_fdArr {opened : Finset ℤ} (some_address : addresses ≠ [])
    (kernel : Answers opened answers) (length : answers.length = addresses.length)
    (stored : sockArr.slice 0 addresses.length = answers.map Attempt.stored)
    {fds : ConnectionFds} (built : fdArr sockArr addresses.length = some fds)
    {effects : List NsqEffect} (kept : ∀ sock, .close sock ∉ effects)
    (opens : sockets effects = answers.map Attempt.socket) :
    fds.Table (effects.foldl NsqEffect.descriptors opened) := by
  have succeed := succeeds_of_fdArr stored built
  obtain ⟨keys, values⟩ := fdArr_table built
  have sockets_eq : fds.map Prod.snd = answers.map Attempt.socket := by
    rw [values, stored]
    exact List.map_congr_left fun answer member => (succeed answer member).stored_eq
  have count : fds.length = addresses.length := by
    rw [← length, ← List.length_map Prod.snd, sockets_eq, List.length_map]
  have positive : ∀ sock ∈ answers.map Attempt.socket, 0 < sock := by
    intro sock member
    obtain ⟨answer, here, rfl⟩ := List.mem_map.mp member
    exact (succeed answer here).2
  have none_failed : (answers.map Attempt.socket).filter (· ≠ -1) = answers.map Attempt.socket := by
    rw [List.filter_eq_self]
    intro sock member
    have := positive sock member
    simp only [ne_eq, decide_not, Bool.not_eq_eq_eq_not, Bool.not_true, decide_eq_false_iff_not]
    omega
  constructor
  · rintro rfl
    exact some_address (List.length_eq_zero_iff.mp count.symm)
  · rw [keys, count]
  · rw [sockets_eq]
    exact positive
  · rw [sockets_eq, ← none_failed]
    exact kernel.2
  · intro sock member
    rw [sockets_eq, ← opens] at member
    refine (mem_foldl_descriptors kept).mpr (.inr ⟨member, ?_⟩)
    have := positive sock (opens ▸ member)
    omega

end Connect

/-! ## The calls -/

section Calls

variable {s s' : NsqProcess} {fds : ConnectionFds} {opened : Finset ℤ}

/-- **No index is missing**, whatever `rand` gives. -/
theorem ConnectionFds.Table.lookup (table : fds.Table opened) (rand : ℕ) :
    ∃ sock, fds.lookup (rand % fds.length) = some sock := by
  have bound : rand % fds.length < fds.length :=
    Nat.mod_lt _ (List.length_pos_iff.mpr table.nonempty)
  have key : rand % fds.length ∈ fds.map Prod.fst := by
    rw [table.keys]
    exact List.mem_range.mpr bound
  obtain ⟨entry, member, same⟩ := List.mem_map.mp key
  rw [← Option.isSome_iff_exists, List.lookup_isSome_iff]
  exact ⟨entry, member, beq_iff_eq.mpr same.symm⟩

/-- `publish` and `deferredPublish` take an entry of the table. -/
theorem ConnectionFds.Table.publishing {self : Nsq}
    (connections : self.nsqdConnectionFds = some fds) (table : fds.Table opened)
    (request : Request) (rand : ℕ) (re : ℤ) :
    ∃ sock value, fds.lookup (rand % fds.length) = some sock ∧
      self.publishing request rand re =
        ⟨[.publish sock request], self, .returned value⟩ := by
  obtain ⟨sock, found⟩ := table.lookup rand
  refine ⟨sock, some (decide (re > 0)), found, ?_⟩
  have some_entry : ¬ fds.length = 0 := fun zero =>
    table.nonempty (List.length_eq_zero_iff.mp zero)
  simp only [Nsq.publishing, connections, if_neg some_entry, found]
  rfl

/-- `closeNsqdConnection` closes the values of the table. -/
theorem ConnectionFds.Table.closeNsqdConnection {self : Nsq}
    (connections : self.nsqdConnectionFds = some fds) (table : fds.Table opened)
    (closes : ℤ → Bool) :
    ∃ value, self.closeNsqdConnection closes =
      ⟨(fds.map Prod.snd).map .close, { self with nsqdConnectionFds := none },
        .returned value⟩ := by
  have some_entry : ¬ fds.length = 0 := fun zero =>
    table.nonempty (List.length_eq_zero_iff.mp zero)
  have all : (fds.map Prod.snd).filter (fun val => decide (0 < val)) = fds.map Prod.snd := by
    rw [List.filter_eq_self]
    exact fun sock member => decide_eq_true (table.positive sock member)
  simp only [Nsq.closeNsqdConnection, connections, if_neg some_entry, all]
  exact ⟨_, rfl⟩

/-- **What the calls do** while the property is NULL or a table. -/
theorem NsqProcess.Connected.obeys (connected : s.Connected) {call : NsqCall} (used : s.Used call) :
    s.Obeys call := by
  cases call with
  | connectNsqd addresses memory answers =>
      rw [NsqProcess.Obeys]
      split
      · next fds taken => exact Nsq.connectNsqd_connected taken
      · next free =>
          refine ⟨Nsq.connectNsqd_isSome free, ?_⟩
          intro result done
          obtain ⟨length, opens, -, returned, sockArr, stored, obj⟩ :=
            Nsq.connectNsqd_eq_some free done
          refine ⟨returned, opens, ?_, ?_⟩
          · intro succeed
            obtain ⟨fds, built, values⟩ := fdArr_of_succeeds stored succeed
            have count := congrArg List.length values
            rw [List.length_map, List.length_map, length] at count
            exact ⟨fds, by rw [obj, built], count, values⟩
          · intro failed
            rw [obj, fdArr_of_failed stored failed, ← free]
  | closeNsqdConnection closes =>
      obtain ⟨fds, connections, -⟩ := used
      obtain ⟨value, closed⟩ := (connected fds connections).closeNsqdConnection connections closes
      exact ⟨fds, value, connections, closed⟩
  | publish topic msg rand re =>
      obtain ⟨fds, connections, -⟩ := used
      obtain ⟨sock, value, found, published⟩ :=
        (connected fds connections).publishing connections (.publish topic msg) rand re
      exact ⟨fds, sock, value, connections, found, published⟩
  | deferredPublish topic msg delayTime rand re =>
      obtain ⟨fds, connections, -⟩ := used
      obtain ⟨sock, value, found, published⟩ := (connected fds connections).publishing connections
        (.deferredPublish topic msg delayTime.toInt32) rand re
      exact ⟨fds, sock, value, connections, found, published⟩

/-- **A call keeps the connections.** -/
theorem NsqProcess.Connected.called (connected : s.Connected) {call : NsqCall}
    (called : Called s call s') : s'.Connected := by
  obtain ⟨used, result, value, done, -, rfl⟩ := called
  have obeys := connected.obeys used
  cases call with
  | connectNsqd addresses memory answers =>
      cases property : s.obj.nsqdConnectionFds with
      | some fds =>
          obtain ⟨result', -, early, -, quiet, same⟩ := Nsq.connectNsqd_connected property
          obtain rfl := Option.some.inj (early.symm.trans done)
          intro fds' still
          change result'.obj.nsqdConnectionFds = some fds' at still
          rw [same] at still
          change fds'.Table (result'.effects.foldl _ _)
          rw [foldl_descriptors_quiet quiet]
          exact connected fds' still
      | none =>
          obtain ⟨length, opens, kept, -, sockArr, stored, obj⟩ :=
            Nsq.connectNsqd_eq_some property done
          intro fds built
          change result.obj.nsqdConnectionFds = some fds at built
          rw [obj] at built
          exact table_of_fdArr used.1 used.2 length stored built kept opens
  | closeNsqdConnection closes =>
      obtain ⟨fds, value, -, closed⟩ := obeys
      obtain rfl := Option.some.inj (done.symm.trans (congrArg some closed))
      intro fds' still
      cases still
  | publish topic msg rand re =>
      obtain ⟨fds, sock, value, -, -, published⟩ := obeys
      obtain rfl := Option.some.inj (done.symm.trans (congrArg some published))
      exact connected
  | deferredPublish topic msg delayTime rand re =>
      obtain ⟨fds, sock, value, -, -, published⟩ := obeys
      obtain rfl := Option.some.inj (done.symm.trans (congrArg some published))
      exact connected

/-- **The connections of an object.** After any calls on a new object the property is NULL or a
table of connections, and the next call does what it should. -/
theorem connected_called {start last : NsqProcess} {calls : List NsqCall}
    (new : start.obj.nsqdConnectionFds = none) (run : Run Called start calls last) :
    last.Connected ∧ ∀ call, last.Used call → last.Obeys call := by
  have connected : last.Connected := by
    apply run.invariant (fun _ s => s.Connected)
    · exact fun _ state call next here one => here.called one
    · intro fds still
      rw [new] at still
      cases still
  exact ⟨connected, fun call used => connected.obeys used⟩

end Calls

/-- A process with a new object. -/
def newProcess : NsqProcess := ⟨⟨none, some 1500, none⟩, {0, 1, 2}⟩

/-- Two addresses. -/
def twoAddresses : List NsqdConnectConfig :=
  [⟨ascii "127.0.0.1", ascii "4150"⟩, ⟨ascii "127.0.0.1", ascii "4152"⟩]

/-- The first attempt to connect fails for the second address; the next one succeeds. -/
def twoAttempts : List NsqCall :=
  [.connectNsqd twoAddresses (fun _ => 7) [⟨3, true, true⟩, ⟨4, true, false⟩],
    .connectNsqd twoAddresses (fun _ => 7) [⟨5, true, true⟩, ⟨6, true, true⟩],
    .publish (ascii "t") (ascii "m") 11 6]

theorem connected_called_twoAttempts :
    ∃ last, Run Called newProcess twoAttempts last ∧
      last.obj.nsqdConnectionFds = some [(0, 5), (1, 6)] ∧ last.Connected ∧
      ∀ call, last.Used call → last.Obeys call := by
  have run : Run Called newProcess twoAttempts ⟨⟨some [(0, 5), (1, 6)], some 1500, none⟩, _⟩ :=
    ⟨_, ⟨⟨by decide, by decide⟩, _, _, rfl, rfl, rfl⟩,
      _, ⟨⟨by decide, by decide⟩, _, _, rfl, rfl, rfl⟩,
      _, ⟨⟨_, rfl, by decide⟩, _, _, rfl, rfl, rfl⟩, rfl⟩
  exact ⟨_, run, rfl, connected_called rfl run⟩

end PhpNsq
