import PhpNsq.Nsq.ProcessTree
import PhpNsq.Nsq.Supervision

/-!
# Workers when fork fails

The record of a master says which worker every slot has at the moment (`serving`): the one that was
started last for it, until it is reaped. A slot whose `fork` failed has none. In the restart loop it
keeps the pid of the worker that was reaped, and the worker that gets this pid next may be that of
another slot; when that one is reaped the loop finds the pid in both slots and starts a worker for
each.

So whatever `fork` gives, no worker is started for a slot that has one, the children are the workers
of the slots, and as many slots are without a worker as forks have failed, or fewer (`staffed`).
`wait` says that there is no child only when every slot is without, which takes a failed `fork` for
every worker.
-/

set_option autoImplicit false

namespace PhpNsq

open Foundations

/-! ## The workers of the slots -/

/-- What a record changes about the workers of the slots. -/
def WorkerRecord.place (workers : ℕ → Option ℤ) : WorkerRecord → ℕ → Option ℤ
  | .forked index pid => Function.update workers index (some pid)
  | .reaped pid => fun index => if workers index = some pid then none else workers index

/-- The workers of the slots. -/
def serving (log : List WorkerRecord) : ℕ → Option ℤ :=
  log.foldl WorkerRecord.place fun _ => none

/-- A `fork` that fails. -/
def SupervisionEvent.fails : SupervisionEvent → Bool
  | .fork pid => decide (pid = -1)
  | _ => false

/-- How many forks failed. -/
def failedForks (events : List SupervisionEvent) : ℕ := events.countP SupervisionEvent.fails

section Serving

variable {log : List WorkerRecord} {index slot : ℕ} {pid other : ℤ}

theorem serving_append (log : List WorkerRecord) (record : WorkerRecord) :
    serving (log ++ [record]) = record.place (serving log) := by
  rw [serving, List.foldl_append]
  rfl

theorem serving_forked : serving (log ++ [.forked slot pid]) index = some other ↔
    index = slot ∧ other = pid ∨ index ≠ slot ∧ serving log index = some other := by
  rw [serving_append, WorkerRecord.place]
  by_cases here : index = slot
  · rw [here, Function.update_self, Option.some.injEq]
    tauto
  · rw [Function.update_of_ne here]
    tauto

theorem serving_reaped : serving (log ++ [.reaped pid]) index = some other ↔
    serving log index = some other ∧ other ≠ pid := by
  rw [serving_append]
  change (if serving log index = some pid then none else serving log index) = some other ↔ _
  split
  · next here =>
      rw [here, Option.some.injEq]
      refine iff_of_false (Option.some_ne_none _).symm ?_
      rintro ⟨rfl, apart⟩
      exact apart rfl
  · next apart =>
      refine ⟨fun there => ⟨there, ?_⟩, And.left⟩
      rintro rfl
      exact apart there

end Serving

/-! ## The invariant -/

variable {connectNum : ℕ} {args : List NSQArg} {s s' : Supervision} {failures : ℕ}

/-- The workers that are missing at a point, or will be once a slot ahead has been seen to. -/
def Supervision.Due (connectNum : ℕ) (args : List NSQArg) (s : Supervision) (failures : ℕ) :
    WorkerPoint → Prop
  | .spawning j => j ≤ connectNum * args.length ∧ j ≤ s.unreaped.card + failures
  | .waiting => connectNum * args.length ≤ s.unreaped.card + failures
  | .scanning retPid k => 0 < retPid ∧
      (connectNum * args.length ≤ s.unreaped.card + failures ∨
        connectNum * args.length ≤ s.unreaped.card + failures + 1 ∧
          ∃ index, k ≤ index ∧ index < connectNum * args.length ∧
            (s.process.argArr index).pid = retPid)
  | .left => s.unreaped = ∅ ∧ connectNum * args.length ≤ failures
  | _ => False

/-- The point where the master goes on once a worker that was started is in the table. -/
def WorkerPoint.resumed : WorkerPoint → WorkerPoint
  | .forked _ index _ caller => caller.resume index
  | .initialised _ index _ caller => caller.resume index
  | point => point

/-- The argument of a worker that was started, and its slot. -/
def WorkerPoint.argument : WorkerPoint → Option (Option NSQArg × ℕ)
  | .forked arg index _ _ => some (arg, index)
  | .initialised arg index _ _ => some (arg, index)
  | _ => none

/-- **The invariant**: a slot has the worker that serves it, each worker serves one slot and was
started when the slot had none, and what is missing is due to failed forks. -/
structure Supervision.Staffed (connectNum : ℕ) (args : List NSQArg) (s : Supervision)
    (failures : ℕ) : Prop where
  within : ∀ index pid, serving s.log index = some pid →
    index < connectNum * args.length ∧ s.process.Holds index pid
  single : ∀ first second pid, serving s.log first = some pid → serving s.log second = some pid →
    first = second
  children : ∀ pid, pid ∈ s.unreaped ↔ ∃ index, serving s.log index = some pid
  positive : ∀ pid ∈ s.unreaped, 0 < pid
  vacant : ∀ before index pid after, s.log = before ++ .forked index pid :: after →
    serving before index = none
  slots : ∀ index < connectNum * args.length,
    (s.process.argArr index).pid = 0 ∨ (s.process.argArr index).arg = args[index % args.length]?
  argument : ∀ arg index, s.process.point.argument = some (arg, index) →
    arg = args[index % args.length]?
  due : s.Due connectNum args failures s.process.point.resumed

namespace Supervision.Staffed

theorem resumed_resume (caller : Caller) (index : ℕ) :
    (caller.resume index).resumed = caller.resume index := by
  cases caller with
  | spawnLoop => rfl
  | restartLoop retPid => rfl

/-- What is due does not depend on the slots that a loop has left. -/
theorem due_resume {process : WorkerProcess} {index : ℕ} {caller : Caller}
    (due : s.Due connectNum args failures (caller.resume index))
    (kept : ∀ other, index < other → process.argArr other = s.process.argArr other) :
    Due connectNum args { s with process := process } failures (caller.resume index) := by
  cases caller with
  | spawnLoop => exact due
  | restartLoop retPid =>
      refine ⟨due.1, due.2.imp_right ?_⟩
      rintro ⟨few, other, ahead, inside, same⟩
      exact ⟨few, other, ahead, inside, (congrArg ArgPid.pid (kept other ahead)).trans same⟩

/-- **The master goes on.** -/
theorem proceed (staffed : s.Staffed connectNum args failures) {process : WorkerProcess}
    (goes : s.process.Proceeds connectNum args process) :
    Staffed connectNum args { s with process := process } failures := by
  have within : ∀ index pid, serving s.log index = some pid →
      index < connectNum * args.length ∧ process.Holds index pid := fun index pid serves =>
    ⟨(staffed.within index pid serves).1, (staffed.within index pid serves).2.proceed goes⟩
  have due := staffed.due
  cases goes with
  | spawned j point done =>
      rw [point] at due
      have all : connectNum * args.length ≤ s.unreaped.card + failures :=
        le_trans (not_lt.mp done) due.2
      exact ⟨within, staffed.single, staffed.children, staffed.positive, staffed.vacant,
        staffed.slots, by rintro _ _ ⟨⟩, all⟩
  | passed retPid k point inside other =>
      rw [point] at due
      refine ⟨within, staffed.single, staffed.children, staffed.positive, staffed.vacant,
        staffed.slots, by rintro _ _ ⟨⟩, due.1, due.2.imp_right ?_⟩
      rintro ⟨few, index, ahead, bound, same⟩
      refine ⟨few, index, ?_, bound, same⟩
      -- the slot that is to come is not this one
      have apart : index ≠ k := by
        rintro rfl
        exact other same
      omega
  | scanned retPid k point done =>
      rw [point] at due
      have all : connectNum * args.length ≤ s.unreaped.card + failures := by
        rcases due.2 with all | ⟨-, index, ahead, bound, -⟩
        · exact all
        · omega
      exact ⟨within, staffed.single, staffed.children, staffed.positive, staffed.vacant,
        staffed.slots, by rintro _ _ ⟨⟩, all⟩
  | initialised arg index pid caller point =>
      have table := WorkerProcess.init_argArr s.process
      have argument := staffed.argument
      rw [point] at due argument
      refine ⟨within, staffed.single, staffed.children, staffed.positive, staffed.vacant, ?_,
        argument, due_resume due fun other _ => congrFun table other⟩
      intro slot bound
      change (s.process.init.argArr slot).pid = 0 ∨ (s.process.init.argArr slot).arg = _
      rw [table]
      exact staffed.slots slot bound
  | inserted arg index pid caller point =>
      have argument := staffed.argument
      rw [point] at due argument
      refine ⟨within, staffed.single, staffed.children, staffed.positive, staffed.vacant, ?_, ?_, ?_⟩
      · intro slot bound
        change (s.process.argArr.store index [⟨pid, arg⟩] slot).pid = 0 ∨
          (s.process.argArr.store index [⟨pid, arg⟩] slot).arg = _
        rw [Cells.store_singleton]
        split
        · next here =>
            subst here
            exact .inr (argument arg slot rfl)
        · exact staffed.slots slot bound
      · intro other slot still
        cases caller with
        | spawnLoop => cases still
        | restartLoop retPid => cases still
      · change Due _ _ _ _ (caller.resume index).resumed
        rw [resumed_resume]
        refine due_resume due fun other ahead => ?_
        change s.process.argArr.store index [⟨pid, arg⟩] other = _
        rw [Cells.store_singleton, if_neg (by omega)]

section Fork

variable {arg : Option NSQArg} {index : ℕ} {caller : Caller} {pid : ℤ}

/-- A worker is started with the argument of its slot. -/
theorem argument_of_call (staffed : s.Staffed connectNum args failures)
    (call : s.process.startWorkerProcess connectNum args = some (arg, index, caller)) :
    arg = args[index % args.length]? := by
  obtain ⟨inside, ⟨point, rfl, rfl⟩ | ⟨retPid, point, rfl, same, rfl⟩⟩ :=
    WorkerProcess.startWorkerProcess_cases call
  · rfl
  · have due := staffed.due
    rw [point] at due
    refine (staffed.slots index inside).resolve_left fun zero => ?_
    have positive : 0 < retPid := due.1
    omega

/-- Behind a call for a slot there is one worker less that is due. -/
theorem due_of_call (staffed : s.Staffed connectNum args failures)
    (call : s.process.startWorkerProcess connectNum args = some (arg, index, caller))
    {s' : Supervision} {failures' : ℕ}
    (enough : s.unreaped.card + failures + 1 = s'.unreaped.card + failures') :
    s'.Due connectNum args failures' (caller.resume index) := by
  have due := staffed.due
  obtain ⟨inside, ⟨point, rfl, rfl⟩ | ⟨retPid, point, rfl, same, rfl⟩⟩ :=
    WorkerProcess.startWorkerProcess_cases call
  · rw [point] at due
    have few : index ≤ s.unreaped.card + failures := due.2
    exact ⟨inside, by omega⟩
  · rw [point] at due
    refine ⟨due.1, .inl ?_⟩
    rcases due.2 with all | ⟨few, -⟩
    · omega
    · omega

/-- The slot that a worker is started for has none. -/
theorem vacant_of_call (staffed : s.Staffed connectNum args failures)
    (call : s.process.startWorkerProcess connectNum args = some (arg, index, caller)) :
    serving s.log index = none := by
  rw [Option.eq_none_iff_forall_ne_some]
  intro pid serves
  exact ((staffed.within index pid serves).2.fork call).1 rfl

/-- **`fork` fails**, and the slot stays without a worker. -/
theorem forkFails (staffed : s.Staffed connectNum args failures)
    (call : s.process.startWorkerProcess connectNum args = some (arg, index, caller)) :
    Staffed connectNum args { s with process := { s.process with point := caller.resume index } }
      (failures + 1) := by
  refine ⟨?_, staffed.single, staffed.children, staffed.positive, staffed.vacant, staffed.slots,
    ?_, ?_⟩
  · intro slot pid serves
    obtain ⟨bound, holds⟩ := staffed.within slot pid serves
    obtain ⟨-, passed, held⟩ := holds.fork call
    exact ⟨bound, .inr ⟨held, passed.resume⟩⟩
  · intro other slot still
    cases caller with
    | spawnLoop => cases still
    | restartLoop retPid => cases still
  · change Due _ _ _ _ (caller.resume index).resumed
    rw [resumed_resume]
    exact staffed.due_of_call call (Nat.add_assoc ..)

/-- **`fork` gives a new child**, which serves the slot. -/
theorem forkSucceeds (staffed : s.Staffed connectNum args failures)
    (call : s.process.startWorkerProcess connectNum args = some (arg, index, caller))
    (positive : 0 < pid) (fresh : pid ∉ s.unreaped) :
    Staffed connectNum args ⟨{ s.process with point := .forked arg index pid caller },
      insert pid s.unreaped, s.dead, s.log ++ [.forked index pid]⟩ failures := by
  have unused : ∀ slot, serving s.log slot ≠ some pid := fun slot serves =>
    fresh ((staffed.children pid).mpr ⟨slot, serves⟩)
  have empty := staffed.vacant_of_call call
  refine ⟨?_, ?_, ?_, ?_, ?_, staffed.slots, ?_, ?_⟩
  · intro slot other serves
    rcases serving_forked.mp serves with ⟨rfl, rfl⟩ | ⟨apart, before⟩
    · exact ⟨(WorkerProcess.startWorkerProcess_cases call).1, .inl rfl⟩
    · obtain ⟨bound, holds⟩ := staffed.within slot other before
      obtain ⟨-, passed, held⟩ := holds.fork call
      exact ⟨bound, .inr ⟨held, apart, passed⟩⟩
  · intro first second other here there
    rcases serving_forked.mp here with ⟨rfl, rfl⟩ | ⟨-, before⟩
    · rcases serving_forked.mp there with ⟨rfl, -⟩ | ⟨-, again⟩
      · rfl
      · exact (unused second again).elim
    · rcases serving_forked.mp there with ⟨-, rfl⟩ | ⟨-, again⟩
      · exact (unused first before).elim
      · exact staffed.single first second other before again
  · intro other
    rw [Finset.mem_insert]
    constructor
    · rintro (rfl | before)
      · exact ⟨index, serving_forked.mpr (.inl ⟨rfl, rfl⟩)⟩
      · obtain ⟨slot, serves⟩ := (staffed.children other).mp before
        refine ⟨slot, serving_forked.mpr (.inr ⟨?_, serves⟩)⟩
        rintro rfl
        cases empty.symm.trans serves
    · rintro ⟨slot, serves⟩
      rcases serving_forked.mp serves with ⟨-, rfl⟩ | ⟨-, before⟩
      · exact .inl rfl
      · exact .inr ((staffed.children other).mpr ⟨slot, before⟩)
  · intro other member
    rcases Finset.mem_insert.mp member with rfl | before
    · exact positive
    · exact staffed.positive other before
  · intro before slot other after split
    rcases List.eq_nil_or_concat after with rfl | ⟨rest, last, rfl⟩
    · obtain ⟨rfl, same⟩ := List.append_inj' split rfl
      obtain ⟨rfl, -⟩ := WorkerRecord.forked.inj (List.cons.inj same).1
      exact empty
    · rw [List.concat_eq_append, ← List.cons_append, ← List.append_assoc] at split
      exact staffed.vacant before slot other rest (List.append_inj' split rfl).1
  · intro other slot same
    obtain ⟨rfl, rfl⟩ := Prod.mk.inj (Option.some.inj same)
    exact staffed.argument_of_call call
  · refine staffed.due_of_call call ?_
    change _ = (insert pid s.unreaped).card + failures
    rw [Finset.card_insert_of_notMem fresh]
    omega

end Fork

/-- **A worker is reaped**, and its slot is ahead. -/
theorem reaped (staffed : s.Staffed connectNum args failures) {pid : ℤ} (child : pid ∈ s.unreaped)
    (point : s.process.point = .waiting) :
    Staffed connectNum args ⟨{ s.process with point := .scanning pid 0 }, s.unreaped.erase pid,
      s.dead.erase pid, s.log ++ [.reaped pid]⟩ failures := by
  have table : ∀ slot other, serving s.log slot = some other →
      slot < connectNum * args.length ∧ (s.process.argArr slot).pid = other := fun slot other serves =>
    ⟨(staffed.within slot other serves).1,
      ((staffed.within slot other serves).2.held point rfl).1⟩
  refine ⟨?_, ?_, ?_, ?_, ?_, staffed.slots, by rintro _ _ ⟨⟩, ?_⟩
  · intro slot other serves
    obtain ⟨before, apart⟩ := serving_reaped.mp serves
    obtain ⟨bound, held⟩ := table slot other before
    exact ⟨bound, .inr ⟨held, fun same => absurd same apart⟩⟩
  · intro first second other here there
    exact staffed.single first second other (serving_reaped.mp here).1 (serving_reaped.mp there).1
  · intro other
    rw [Finset.mem_erase, staffed.children]
    constructor
    · rintro ⟨apart, slot, serves⟩
      exact ⟨slot, serving_reaped.mpr ⟨serves, apart⟩⟩
    · rintro ⟨slot, serves⟩
      obtain ⟨before, apart⟩ := serving_reaped.mp serves
      exact ⟨apart, slot, before⟩
  · exact fun other member => staffed.positive other (Finset.mem_of_mem_erase member)
  · intro before slot other after split
    rcases List.eq_nil_or_concat after with rfl | ⟨rest, last, rfl⟩
    · have same := (List.append_inj' split rfl).2
      cases same
    · rw [List.concat_eq_append, ← List.cons_append, ← List.append_assoc] at split
      exact staffed.vacant before slot other rest (List.append_inj' split rfl).1
  · have due := staffed.due
    rw [point] at due
    have all : connectNum * args.length ≤ s.unreaped.card + failures := due
    obtain ⟨slot, serves⟩ := (staffed.children pid).mp child
    obtain ⟨bound, held⟩ := table slot pid serves
    refine ⟨staffed.positive pid child, .inr ⟨?_, slot, Nat.zero_le _, bound, held⟩⟩
    have fewer := Finset.card_erase_add_one child
    change _ ≤ (s.unreaped.erase pid).card + failures + 1
    omega

/-- **Every event keeps the invariant.** -/
theorem step (staffed : s.Staffed connectNum args failures) {event : SupervisionEvent}
    (one : Supervises connectNum args s event s') :
    s'.Staffed connectNum args (failures + failedForks [event]) := by
  cases event with
  | proceed =>
      obtain ⟨process, goes, rfl⟩ := one.of_proceed
      exact staffed.proceed goes
  | fork pid =>
      obtain ⟨arg, index, caller, call, ⟨rfl, rfl⟩ | ⟨positive, fresh, rfl⟩⟩ := one.of_fork
      · exact staffed.forkFails call
      · have none : failedForks [.fork pid] = 0 := by
          have success : pid ≠ -1 := by omega
          simp [failedForks, SupervisionEvent.fails, success]
        rw [none]
        exact staffed.forkSucceeds call positive fresh
  | died pid =>
      obtain ⟨-, rfl⟩ := one.of_died
      exact ⟨staffed.within, staffed.single, staffed.children, staffed.positive, staffed.vacant,
        staffed.slots, staffed.argument, staffed.due⟩
  | reaped pid =>
      obtain ⟨child, point, rfl⟩ := one.of_reaped
      exact staffed.reaped child point
  | interrupted =>
      obtain rfl := one.of_interrupted
      exact staffed
  | noChild =>
      obtain ⟨childless, point, rfl⟩ := one.of_noChild
      have due := staffed.due
      rw [point] at due
      have all : connectNum * args.length ≤ s.unreaped.card + failures := due
      rw [childless, Finset.card_empty, Nat.zero_add] at all
      refine ⟨fun slot pid serves => ?_, staffed.single, staffed.children, staffed.positive,
        staffed.vacant, staffed.slots, by rintro _ _ ⟨⟩, childless, all⟩
      obtain ⟨bound, holds⟩ := staffed.within slot pid serves
      exact ⟨bound, .inr ⟨(holds.held point rfl).1, trivial⟩⟩

/-- The beginning of the spawn loop. What is behind the table has no pids in it. -/
theorem initial (pid : ℤ) {memory : Cells ArgPid}
    (blank : ∀ k, args.length ≤ k → k < connectNum * args.length → (memory k).pid = 0) :
    (Supervision.initial pid memory args.length).Staffed connectNum args 0 where
  within := by rintro index pid ⟨⟩
  single := by rintro first second pid ⟨⟩
  children := fun pid => iff_of_false (Finset.notMem_empty pid) (by rintro ⟨index, ⟨⟩⟩)
  positive := fun pid member => absurd member (Finset.notMem_empty pid)
  vacant := fun before index pid after split =>
    absurd split.symm (List.append_ne_nil_of_right_ne_nil _ (List.cons_ne_nil _ _))
  slots := by
    intro index bound
    left
    change (zeroed memory args.length index).pid = 0
    rw [zeroed]
    split
    · rfl
    · next behind => exact blank index (not_lt.mp behind) bound
  argument := by rintro arg index ⟨⟩
  due := ⟨Nat.zero_le _, Nat.zero_le _⟩

end Supervision.Staffed

/-- Along every run. -/
theorem Supervision.staffed_of_run {pid : ℤ} {memory : Cells ArgPid}
    (blank : ∀ k, args.length ≤ k → k < connectNum * args.length → (memory k).pid = 0)
    {events : List SupervisionEvent} {last : Supervision}
    (run : Run (Supervises connectNum args) (.initial pid memory args.length) events last) :
    last.Staffed connectNum args (failedForks events) := by
  apply run.invariant (fun taken s => s.Staffed connectNum args (failedForks taken))
  · intro taken state event next here one
    rw [failedForks, List.countP_append]
    exact here.step one
  · exact .initial pid blank

/-- **Supervision with forks that fail.** The memory behind the table is blank. Then in every
run a worker is only started for a slot that has none, the children are the workers of the slots,
each of one slot and, where the master waits, with the argument of its producer. The slots without a
worker are at most as many as the forks that failed, and the master leaves only when as many failed
as there are slots. -/
theorem staffed {connectNum : ℕ} {args : List NSQArg} {pid : ℤ} {memory : Cells ArgPid}
    (blank : ∀ k, args.length ≤ k → k < connectNum * args.length → (memory k).pid = 0)
    {events : List SupervisionEvent} {last : Supervision}
    (run : Run (Supervises connectNum args) (.initial pid memory args.length) events last) :
    (∀ before index worker after, last.log = before ++ .forked index worker :: after →
      serving before index = none) ∧
    (∀ worker, worker ∈ last.unreaped ↔
      ∃ index < connectNum * args.length, serving last.log index = some worker) ∧
    (∀ first second worker, serving last.log first = some worker →
      serving last.log second = some worker → first = second) ∧
    (last.process.point = .waiting →
      connectNum * args.length ≤ last.unreaped.card + failedForks events ∧
      ∀ index worker, serving last.log index = some worker →
        last.process.argArr index = ⟨worker, args[index % args.length]?⟩) ∧
    (last.process.point = .left → connectNum * args.length ≤ failedForks events) := by
  have staffed := Supervision.staffed_of_run blank run
  refine ⟨staffed.vacant, fun worker => ?_, staffed.single, fun point => ?_, fun point => ?_⟩
  · rw [staffed.children]
    exact exists_congr fun index =>
      ⟨fun serves => ⟨(staffed.within index worker serves).1, serves⟩, And.right⟩
  · have due := staffed.due
    rw [point] at due
    refine ⟨due, fun index worker serves => ?_⟩
    obtain ⟨bound, holds⟩ := staffed.within index worker serves
    have held := (holds.held point rfl).1
    have positive := staffed.positive worker ((staffed.children worker).mpr ⟨index, serves⟩)
    have argument := (staffed.slots index bound).resolve_left (by omega)
    rw [← held, ← argument]
  · have due := staffed.due
    rw [point] at due
    exact due.2

/-- The second worker is not started, and the first one dies and is not started again. -/
def neverRestarted : List SupervisionEvent :=
  [.fork 100, .proceed, .proceed, .fork (-1), .proceed, .died 100, .reaped 100, .fork (-1),
    .proceed, .proceed, .noChild]

theorem staffed_neverRestarted : ∃ last,
    Run (Supervises 1 twoArgs) (.initial 99 (fun _ => ⟨7, none⟩) twoArgs.length) neverRestarted
      last ∧ last.process.point = .left ∧ 1 * twoArgs.length ≤ failedForks neverRestarted := by
  have run : ∃ last, Run (Supervises 1 twoArgs)
      (.initial 99 (fun _ => ⟨7, none⟩) twoArgs.length) neverRestarted last ∧
      last.process.point = .left :=
    ⟨_, ⟨_, rfl, _, rfl, _, rfl, _, rfl, _, rfl, _, rfl, _, rfl, _, rfl, _, rfl, _, rfl, _, rfl,
      rfl⟩, rfl⟩
  obtain ⟨last, run, point⟩ := run
  have blank : ∀ k, twoArgs.length ≤ k → k < 1 * twoArgs.length →
      ((fun _ => ⟨7, none⟩ : Cells ArgPid) k).pid = 0 := by
    intro k low high
    omega
  exact ⟨last, run, point, (staffed blank run).2.2.2.2 point⟩

end PhpNsq
