import Mathlib.Data.List.Nodup
import Mathlib.Data.List.Perm.Basic
import PhpNsq.Nsq.Supervision

/-!
# One worker for every producer

With one connection to every producer, and `fork` not failing, the account of a master
that is about to wait is a list of pids with one for every producer, and the restarts
that led to it: each of them takes the pid of a slot that was reaped and puts the pid of the
new worker in its place (`Supervision.Supervised`). The pids are distinct and those of the
children, and every slot has the argument that it was given first.

In the restart loop one pid of the list is missing from the children until the loop is at its slot.
Behind that slot no other has the pid: the pids were distinct, and the new pid, which may be the
same again, stands in a slot that the loop has left. So no worker is started twice.
-/

set_option autoImplicit false

namespace PhpNsq

open Foundations

/-! ## Restarts -/

/-- A restart: the slot and the pid of the new worker. -/
structure Restart where
  index : ℕ
  pid : ℤ

/-- The pids behind a restart. -/
def Restart.replace (pids : List ℤ) (restart : Restart) : List ℤ :=
  pids.set restart.index restart.pid

/-- The record of the spawn loop. -/
def spawnLog (pids : List ℤ) : List WorkerRecord := pids.mapIdx .forked

/-- The record of restarts: the pid in the slot is reaped, and one worker is started for it. -/
def restartLog : List ℤ → List Restart → List WorkerRecord
  | _, [] => []
  | pids, restart :: restarts =>
      .reaped (pids.getD restart.index 0) :: .forked restart.index restart.pid ::
        restartLog (restart.replace pids) restarts

/-- **An account of the workers**: one was started for every slot, and the others by restarts. -/
structure Account (count : ℕ) (first : List ℤ) (restarts : List Restart) (log : List WorkerRecord)
    (pids : List ℤ) : Prop where
  started : first.length = count
  within : ∀ restart ∈ restarts, restart.index < count
  log : log = spawnLog first ++ restartLog first restarts
  pids : pids = restarts.foldl Restart.replace first

section Account

variable {count index : ℕ} {first pids : List ℤ} {restarts : List Restart}
  {log : List WorkerRecord} {pid retPid : ℤ}

theorem restartLog_concat (restart : Restart) :
    restartLog first (restarts ++ [restart]) = restartLog first restarts ++
      [.reaped ((restarts.foldl Restart.replace first).getD restart.index 0),
        .forked restart.index restart.pid] := by
  induction restarts generalizing first with
  | nil => rfl
  | cons other restarts ih =>
      rw [List.cons_append, restartLog, restartLog, ih, List.foldl_cons]
      rfl

theorem length_restarts : (restarts.foldl Restart.replace first).length = first.length := by
  induction restarts generalizing first with
  | nil => rfl
  | cons restart restarts ih => rw [List.foldl_cons, ih, Restart.replace, List.length_set]

/-- There is a pid for every slot. -/
theorem Account.length (account : Account count first restarts log pids) : pids.length = count := by
  rw [account.pids, length_restarts, account.started]

/-- Every slot has a pid. -/
theorem Account.held (account : Account count first restarts log pids) (inside : index < count) :
    ∃ held, pids[index]? = some held := by
  rw [← account.length] at inside
  exact ⟨_, List.getElem?_eq_getElem inside⟩

/-- The spawn loop has come to its end. -/
theorem Account.spawned (pids : List ℤ) : Account pids.length pids [] (spawnLog pids) pids :=
  ⟨rfl, fun _ member => absurd member List.not_mem_nil, (List.append_nil _).symm, rfl⟩

/-- A reaped worker is started again. -/
theorem Account.restart (account : Account count first restarts log pids)
    (held : pids[index]? = some retPid) :
    Account count first (restarts ++ [⟨index, pid⟩])
      (log ++ [.reaped retPid] ++ [.forked index pid]) (pids.set index pid) := by
  have inside : index < count := by
    rw [← account.length]
    exact (List.getElem?_eq_some_iff.mp held).1
  refine ⟨account.started, ?_, ?_, ?_⟩
  · intro restart member
    rcases List.mem_append.mp member with before | here
    · exact account.within restart before
    · obtain rfl := List.mem_singleton.mp here
      exact inside
  · have reaped : (restarts.foldl Restart.replace first).getD index 0 = retPid := by
      rw [← account.pids, List.getD_eq_getElem?_getD, held]
      rfl
    rw [restartLog_concat, reaped, account.log, List.append_assoc, List.append_assoc]
    rfl
  · rw [List.foldl_append, ← account.pids]
    rfl

/-! ## A slot among distinct pids -/

/-- The pid of one slot, and those of the others. -/
theorem perm_eraseIdx (held : pids[index]? = some retPid) :
    (retPid :: pids.eraseIdx index).Perm pids := by
  obtain ⟨bound, rfl⟩ := List.getElem?_eq_some_iff.mp held
  exact List.getElem_cons_eraseIdx_perm bound

theorem perm_set (held : pids[index]? = some retPid) :
    (pid :: pids.eraseIdx index).Perm (pids.set index pid) := by
  have here : (pids.set index pid)[index]? = some pid :=
    List.getElem?_set_self (List.getElem?_eq_some_iff.mp held).1
  have whole := perm_eraseIdx here
  rwa [List.eraseIdx_set_eq] at whole

/-- A pid is in one slot. -/
theorem mem_eraseIdx_iff (distinct : pids.Nodup) (held : pids[index]? = some retPid) :
    pid ∈ pids.eraseIdx index ↔ pid ∈ pids ∧ pid ≠ retPid := by
  have whole := perm_eraseIdx held
  obtain ⟨apart, -⟩ := List.nodup_cons.mp (whole.nodup_iff.mpr distinct)
  rw [← whole.mem_iff, List.mem_cons]
  constructor
  · intro member
    exact ⟨.inr member, fun same => apart (same ▸ member)⟩
  · rintro ⟨same | member, other⟩
    · exact absurd same other
    · exact member

end Account

/-! ## The table -/

/-- The slots of `arg_arr` that have a worker. -/
def Slots (args : List NSQArg) (argArr : Cells ArgPid) (pids : List ℤ) : Prop :=
  ∀ k pid, pids[k]? = some pid → argArr k = ⟨pid, args[k]?⟩

section Slots

variable {args : List NSQArg} {argArr : Cells ArgPid} {pids : List ℤ} {index : ℕ}

/-- A worker in the next slot. -/
theorem Slots.append (slots : Slots args argArr pids) (pid : ℤ) :
    Slots args (argArr.store pids.length [⟨pid, args[pids.length]?⟩]) (pids ++ [pid]) := by
  intro k other held
  rw [Cells.store_singleton]
  split
  · next here =>
      subst here
      rw [List.getElem?_concat_length] at held
      rw [Option.some.inj held]
  · next apart =>
      apply slots
      rwa [List.getElem?_append_left] at held
      have bound := (List.getElem?_eq_some_iff.mp held).1
      rw [List.length_append, List.length_singleton] at bound
      omega

/-- A worker in a slot that had one. -/
theorem Slots.set (slots : Slots args argArr pids) (index : ℕ) (pid : ℤ) :
    Slots args (argArr.store index [⟨pid, args[index]?⟩]) (pids.set index pid) := by
  intro k other held
  rw [Cells.store_singleton]
  rw [List.getElem?_set] at held
  split
  · next here =>
      subst here
      rw [if_pos rfl] at held
      rw [Option.ite_none_right_eq_some] at held
      rw [Option.some.inj held.2]
  · next apart =>
      rw [if_neg (Ne.symm apart)] at held
      exact slots k other held

end Slots

/-- The workers in the slots, and the children. -/
structure Keeps (args : List NSQArg) (argArr : Cells ArgPid) (unreaped : Finset ℤ)
    (pids children : List ℤ) : Prop where
  slots : Slots args argArr pids
  distinct : pids.Nodup
  children : ∀ pid, pid ∈ unreaped ↔ pid ∈ children

/-! ## The invariant -/

/-- **One worker for every producer**: the slots have distinct pids, those of the children, and the
arguments of the producers. -/
def Supervision.Supervised (args : List NSQArg) (s : Supervision) (first : List ℤ)
    (restarts : List Restart) (pids : List ℤ) : Prop :=
  Keeps args s.process.argArr s.unreaped pids pids ∧
    Account args.length first restarts s.log pids

/-- In the restart loop, the slot of the reaped worker is still ahead. -/
def Supervision.Missing (args : List NSQArg) (s : Supervision) (retPid : ℤ) (k : ℕ)
    (pids : List ℤ) (index : ℕ) : Prop :=
  k ≤ index ∧ pids[index]? = some retPid ∧
    Keeps args s.process.argArr s.unreaped pids (pids.eraseIdx index) ∧
    ∃ first restarts log, s.log = log ++ [.reaped retPid] ∧
      Account args.length first restarts log pids

/-- A worker has been started and is not in the table. -/
def Supervision.Started (args : List NSQArg) (s : Supervision) (arg : Option NSQArg) (index : ℕ)
    (pid : ℤ) : Caller → Prop
  | .spawnLoop => ∃ pids, pids.length = index ∧ index < args.length ∧ arg = args[index]? ∧
      pid ∉ pids ∧ Keeps args s.process.argArr s.unreaped pids (pids ++ [pid]) ∧
      s.log = spawnLog (pids ++ [pid])
  | .restartLoop retPid => ∃ pids first restarts, pids[index]? = some retPid ∧
      arg = args[index]? ∧ (pids.set index pid).Nodup ∧
      Keeps args s.process.argArr s.unreaped pids (pids.set index pid) ∧
      Account args.length first restarts s.log (pids.set index pid)

/-- **The invariant**, by the point that the master is at. -/
def Supervision.Invariant (args : List NSQArg) (s : Supervision) : Prop :=
  match s.process.point with
  | .spawning j => j ≤ args.length ∧ ∃ pids, pids.length = j ∧
      Keeps args s.process.argArr s.unreaped pids pids ∧ s.log = spawnLog pids
  | .waiting => ∃ first restarts pids, s.Supervised args first restarts pids
  | .scanning retPid k => (∃ pids index, s.Missing args retPid k pids index) ∨
      ∃ first restarts pids, s.Supervised args first restarts pids ∧
        ∀ i, k ≤ i → pids[i]? ≠ some retPid
  | .forked arg index pid caller => s.Started args arg index pid caller
  | .initialised arg index pid caller => s.Started args arg index pid caller
  | .subscribed _ _ _ => False
  | .left => False

/-- `fork` does not fail. -/
def ForkSucceeds (_ : Supervision) : SupervisionEvent → Prop
  | .fork pid => pid ≠ -1
  | _ => True

section Steps

variable {args : List NSQArg} {s s' : Supervision}

/-- A worker in the next slot, once it is in the table. -/
theorem Supervision.Started.spawned {arg : Option NSQArg} {index : ℕ} {pid : ℤ}
    (started : s.Started args arg index pid .spawnLoop) {process : WorkerProcess}
    (table : process.argArr = s.process.argArr.store index [⟨pid, arg⟩])
    (point : process.point = .spawning (index + 1)) :
    Invariant args { s with process := process } := by
  obtain ⟨pids, rfl, inside, rfl, fresh, keeps, log⟩ := started
  rw [Invariant, point]
  refine ⟨inside, pids ++ [pid], List.length_append, ⟨?_, ?_, keeps.children⟩, log⟩
  · change Slots args process.argArr _
    rw [table]
    exact keeps.slots.append pid
  · rw [← List.concat_eq_append]
    exact List.Nodup.concat fresh keeps.distinct

/-- A worker in the slot of a reaped one, once it is in the table. -/
theorem Supervision.Started.restarted {arg : Option NSQArg} {index : ℕ} {pid retPid : ℤ}
    (started : s.Started args arg index pid (.restartLoop retPid)) {process : WorkerProcess}
    (table : process.argArr = s.process.argArr.store index [⟨pid, arg⟩])
    (point : process.point = .scanning retPid (index + 1)) :
    Invariant args { s with process := process } := by
  obtain ⟨pids, first, restarts, held, rfl, distinct, keeps, account⟩ := started
  rw [Invariant, point]
  refine .inr ⟨first, restarts, pids.set index pid, ⟨⟨?_, distinct, keeps.children⟩, account⟩, ?_⟩
  · change Slots args process.argArr _
    rw [table]
    exact keeps.slots.set index pid
  · -- the pid was in one slot, and the loop has left it
    intro i behind again
    rw [List.getElem?_set_ne (by omega)] at again
    have same := (List.getElem?_inj (List.getElem?_eq_some_iff.mp held).1 keeps.distinct).mp
      (held.trans again.symm)
    omega

/-- What was started stays started when the process goes on with the same table. -/
theorem Supervision.Started.congr {arg : Option NSQArg} {index : ℕ} {pid : ℤ} {caller : Caller}
    (started : s.Started args arg index pid caller) {process : WorkerProcess}
    (table : process.argArr = s.process.argArr) :
    Started args { s with process := process } arg index pid caller := by
  cases caller with
  | spawnLoop =>
      rw [Started] at started ⊢
      rw [table]
      exact started
  | restartLoop retPid =>
      rw [Started] at started ⊢
      rw [table]
      exact started

/-- **The master goes on.** -/
theorem Supervision.Invariant.proceed (invariant : s.Invariant args) {process : WorkerProcess}
    (goes : s.process.Proceeds 1 args process) : Invariant args { s with process := process } := by
  rw [Invariant] at invariant
  cases goes with
  | spawned j point done =>
      rw [point] at invariant
      obtain ⟨inside, pids, length, keeps, log⟩ := invariant
      rw [Nat.one_mul] at done
      have all : pids.length = args.length := by omega
      exact ⟨pids, [], pids, keeps, by rw [← all]; exact log ▸ Account.spawned pids⟩
  | passed retPid k point inside other =>
      rw [point] at invariant
      rcases invariant with ⟨pids, index, ahead, held, keeps, account⟩ |
        ⟨first, restarts, pids, supervised, behind⟩
      · refine .inl ⟨pids, index, ?_, held, keeps, account⟩
        -- the slot of the reaped worker is not this one
        have apart : k ≠ index := by
          rintro rfl
          rw [keeps.slots k retPid held] at other
          exact other rfl
        omega
      · exact .inr ⟨first, restarts, pids, supervised, fun i later => behind i (by omega)⟩
  | scanned retPid k point done =>
      rw [point] at invariant
      rcases invariant with ⟨pids, index, ahead, held, -, first, restarts, log, -, account⟩ |
        ⟨first, restarts, pids, supervised, -⟩
      · -- the slot of the reaped worker cannot be behind the last
        have bound := (List.getElem?_eq_some_iff.mp held).1
        have length := account.length
        omega
      · exact ⟨first, restarts, pids, supervised⟩
  | initialised arg index pid caller point =>
      rw [point] at invariant
      exact invariant.congr (WorkerProcess.init_argArr _)
  | inserted arg index pid caller point =>
      rw [point] at invariant
      cases caller with
      | spawnLoop => exact invariant.spawned rfl rfl
      | restartLoop retPid => exact invariant.restarted rfl rfl

/-- **The master starts a worker**, for the next slot or for that of the reaped worker. -/
theorem Supervision.Invariant.fork (invariant : s.Invariant args) {arg : Option NSQArg}
    {index : ℕ} {caller : Caller} {pid : ℤ}
    (call : s.process.startWorkerProcess 1 args = some (arg, index, caller))
    (fresh : pid ∉ s.unreaped) :
    Invariant args ⟨{ s.process with point := .forked arg index pid caller },
      insert pid s.unreaped, s.dead, s.log ++ [.forked index pid]⟩ := by
  obtain ⟨inside, ⟨point, rfl, rfl⟩ | ⟨retPid, point, rfl, same, rfl⟩⟩ :=
    WorkerProcess.startWorkerProcess_cases call
  · rw [Invariant, point] at invariant
    obtain ⟨-, pids, rfl, keeps, log⟩ := invariant
    rw [Nat.one_mul] at inside
    refine ⟨pids, rfl, inside, by rw [Nat.mod_eq_of_lt inside], ?_,
      ⟨keeps.slots, keeps.distinct, ?_⟩, ?_⟩
    · rwa [← keeps.children]
    · intro other
      rw [Finset.mem_insert, keeps.children, List.mem_append, List.mem_singleton, or_comm]
    · change s.log ++ [.forked pids.length pid] = spawnLog (pids ++ [pid])
      rw [log, spawnLog, spawnLog, List.mapIdx_concat]
  · rw [Invariant, point] at invariant
    rw [Nat.one_mul] at inside
    rcases invariant with ⟨pids, slot, -, missing, keeps, first, restarts, log, record, account⟩ |
      ⟨first, restarts, pids, ⟨keeps, account⟩, behind⟩
    · -- the slot is that of the reaped worker
      obtain ⟨held, here⟩ := account.held inside
      have slot_eq := keeps.slots index held here
      rw [slot_eq] at same
      subst same
      obtain rfl : slot = index :=
        (List.getElem?_inj (List.getElem?_eq_some_iff.mp missing).1
          keeps.distinct).mp (missing.trans here.symm)
      have whole : (pid :: pids.eraseIdx slot).Perm (pids.set slot pid) := perm_set here
      have new : pid ∉ pids.eraseIdx slot := by rwa [← keeps.children]
      refine ⟨pids, first, restarts ++ [⟨slot, pid⟩], here, by rw [slot_eq], ?_,
        ⟨keeps.slots, keeps.distinct, ?_⟩, ?_⟩
      · rw [← whole.nodup_iff, List.nodup_cons]
        exact ⟨new, keeps.distinct.sublist (List.eraseIdx_sublist ..)⟩
      · intro other
        rw [Finset.mem_insert, keeps.children, ← whole.mem_iff, List.mem_cons]
      · change Account _ _ _ (s.log ++ [.forked slot pid]) _
        rw [record]
        exact account.restart here
    · -- behind the slot of the reaped worker no other has its pid
      obtain ⟨held, here⟩ := account.held inside
      rw [keeps.slots index held here] at same
      exact absurd (same ▸ here) (behind index le_rfl)

/-- **A worker is reaped**, and its pid is in one slot. -/
theorem Supervision.Invariant.reaped (invariant : s.Invariant args) {pid : ℤ}
    (child : pid ∈ s.unreaped) (point : s.process.point = .waiting) :
    Invariant args ⟨{ s.process with point := .scanning pid 0 }, s.unreaped.erase pid,
      s.dead.erase pid, s.log ++ [.reaped pid]⟩ := by
  rw [Invariant, point] at invariant
  obtain ⟨first, restarts, pids, keeps, account⟩ := invariant
  obtain ⟨index, held⟩ := List.getElem?_of_mem ((keeps.children pid).mp child)
  refine .inl ⟨pids, index, Nat.zero_le _, held, ⟨keeps.slots, keeps.distinct, ?_⟩, first, restarts,
    s.log, rfl, account⟩
  intro other
  rw [Finset.mem_erase, keeps.children, mem_eraseIdx_iff keeps.distinct held, and_comm]

end Steps

/-- **Every event keeps the invariant**, as long as there is a producer and `fork` succeeds. -/
theorem Supervision.Invariant.step {args : List NSQArg} (some_producer : args ≠ [])
    {s s' : Supervision} {event : SupervisionEvent} (invariant : s.Invariant args)
    (succeeds : ForkSucceeds s event) (one : Supervises 1 args s event s') : s'.Invariant args := by
  cases event with
  | proceed =>
      obtain ⟨process, goes, rfl⟩ := one.of_proceed
      exact invariant.proceed goes
  | fork pid =>
      obtain ⟨arg, index, caller, call, ⟨failed, -⟩ | ⟨-, fresh, rfl⟩⟩ := one.of_fork
      · exact absurd failed succeeds
      · exact invariant.fork call fresh
  | died pid =>
      obtain ⟨-, rfl⟩ := one.of_died
      exact invariant
  | reaped pid =>
      obtain ⟨child, point, rfl⟩ := one.of_reaped
      exact invariant.reaped child point
  | interrupted =>
      obtain rfl := one.of_interrupted
      exact invariant
  | noChild =>
      obtain ⟨childless, point, -⟩ := one.of_noChild
      rw [Supervision.Invariant, point] at invariant
      obtain ⟨first, restarts, pids, keeps, account⟩ := invariant
      -- there is a child for every producer
      have empty : pids = [] := by
        rw [List.eq_nil_iff_forall_not_mem]
        intro pid member
        have child := (keeps.children pid).mpr member
        rw [childless] at child
        exact absurd child (Finset.notMem_empty pid)
      have length := account.length
      rw [empty] at length
      exact absurd (List.length_eq_zero_iff.mp length.symm) some_producer

/-- **Supervision.** Whatever dies, whenever it is reaped and whichever pids come again, a master
that is about to wait has one worker for every producer. -/
theorem supervised {args : List NSQArg} (some_producer : args ≠ []) {pid : ℤ}
    {memory : Cells ArgPid} {events : List SupervisionEvent} {last : Supervision}
    (run : Run (guarded ForkSucceeds (Supervises 1 args)) (.initial pid memory args.length) events
      last) (waiting : last.process.point = .waiting) :
    ∃ first restarts pids, last.Supervised args first restarts pids := by
  have invariant : last.Invariant args := by
    apply run.invariant (fun _ s => s.Invariant args)
    · exact fun _ state event next here one => here.step some_producer one.1 one.2
    · have nothing : Slots args (zeroed memory args.length) [] := by
        intro k pid held
        cases held
      exact ⟨Nat.zero_le _, [], rfl,
        ⟨nothing, List.nodup_nil, fun pid => by simp [Supervision.initial]⟩, rfl⟩
  rw [Supervision.Invariant, waiting] at invariant
  exact invariant

/-- The first worker dies before the second one is started, and its pid comes again. -/
def restartedOnce : List SupervisionEvent :=
  [.fork 100, .proceed, .proceed, .died 100, .fork 101, .proceed, .proceed, .proceed, .interrupted,
    .reaped 100, .fork 100, .proceed, .proceed, .proceed, .proceed]

theorem supervised_restartedOnce :
    ∃ last, Run (guarded ForkSucceeds (Supervises 1 twoArgs))
        (.initial 99 (fun _ => ⟨7, none⟩) twoArgs.length) restartedOnce last ∧
      last.process.point = .waiting ∧
      ∃ first restarts pids, last.Supervised twoArgs first restarts pids := by
  obtain ⟨last, run, point⟩ : ∃ last, Run (guarded ForkSucceeds (Supervises 1 twoArgs))
      (.initial 99 (fun _ => ⟨7, none⟩) twoArgs.length) restartedOnce last ∧
      last.process.point = .waiting := by
    have positive : (100 : ℤ) ≠ -1 ∧ (101 : ℤ) ≠ -1 := by decide
    exact ⟨_, ⟨_, ⟨positive.1, rfl⟩, _, ⟨trivial, rfl⟩, _, ⟨trivial, rfl⟩, _, ⟨trivial, rfl⟩,
      _, ⟨positive.2, rfl⟩, _, ⟨trivial, rfl⟩, _, ⟨trivial, rfl⟩, _, ⟨trivial, rfl⟩,
      _, ⟨trivial, rfl⟩, _, ⟨trivial, rfl⟩, _, ⟨positive.1, rfl⟩, _, ⟨trivial, rfl⟩,
      _, ⟨trivial, rfl⟩, _, ⟨trivial, rfl⟩, _, ⟨trivial, rfl⟩, rfl⟩, rfl⟩
  have some_producer : twoArgs ≠ [] := List.cons_ne_nil _ _
  exact ⟨last, run, point, supervised some_producer run point⟩

end PhpNsq
