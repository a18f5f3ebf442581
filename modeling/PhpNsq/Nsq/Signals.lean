import PhpNsq.Nsq.Supervision

/-!
# What SIGTERM is passed on to

On `SIGTERM` the master passes the signal to every pid in `child_fd`. Every worker that is started
is inserted there, and nothing is ever taken out: `child_fd` has the pids of the children and those
that were reaped (`Supervision.Records`). A worker is missing between `fork` and its insertion.

So the children are signalled, and nothing else, exactly when every pid that was reaped is that of a
child again, and no child waits to be inserted (`signalsExactly_iff`).
-/

set_option autoImplicit false

namespace PhpNsq

open Foundations

/-- The worker that was started and is not in `child_fd`. -/
def WorkerPoint.starting : WorkerPoint → Option ℤ
  | .forked _ _ pid _ => some pid
  | .initialised _ _ pid _ => some pid
  | _ => none

/-- The pids that `wait` gave. -/
def reapedPids (log : List WorkerRecord) : List ℤ :=
  log.filterMap fun
    | .reaped pid => some pid
    | .forked _ _ => none

/-- **The signal goes to the children**, and to nothing else. -/
def Supervision.SignalsExactly (s : Supervision) : Prop :=
  ∀ pid, pid ∈ s.process.signalHandle ↔ pid ∈ s.unreaped

/-- Every reaped pid has come again, and a worker that is about to be inserted has a pid that is
there already. -/
def Supervision.Current (s : Supervision) : Prop :=
  (∀ pid ∈ reapedPids s.log, pid ∈ s.unreaped) ∧
    ∀ pid, s.process.point.starting = some pid → pid ∈ s.process.childFd

/-- What is in `child_fd`, once it is initialised. -/
structure Supervision.Records (s : Supervision) : Prop where
  master : s.process.isInit = true → s.process.master = s.process.pid
  uninitialised : s.process.isInit = false → s.process.childFd = []
  installed : ∀ arg index pid caller, s.process.point = .initialised arg index pid caller →
    s.process.isInit = true
  reaped : ∀ pid ∈ reapedPids s.log, pid ∈ s.process.childFd
  children : ∀ pid ∈ s.unreaped, pid ∈ s.process.childFd ∨ s.process.point.starting = some pid
  inserted : ∀ pid ∈ s.process.childFd, pid ∈ s.unreaped ∨ pid ∈ reapedPids s.log
  starting : ∀ pid, s.process.point.starting = some pid → pid ∈ s.unreaped

namespace Supervision.Records

variable {connectNum : ℕ} {args : List NSQArg} {s s' : Supervision}

theorem initial (pid : ℤ) (memory : Cells ArgPid) (count : ℕ) :
    (Supervision.initial pid memory count).Records where
  master := fun installed => absurd installed Bool.false_ne_true
  uninitialised := fun _ => rfl
  installed := by
    intro arg index pid caller point
    cases point
  reaped := fun pid member => absurd member List.not_mem_nil
  children := fun pid member => absurd member (Finset.notMem_empty pid)
  inserted := fun pid member => absurd member List.not_mem_nil
  starting := by
    intro pid started
    cases started

/-- Where no worker is started, the children are in the table. -/
theorem table (records : s.Records) (idle : s.process.point.starting = none) :
    ∀ pid ∈ s.unreaped, pid ∈ s.process.childFd := by
  intro pid member
  rcases records.children pid member with inserted | started
  · exact inserted
  · cases idle.symm.trans started

/-- A step between points where no worker is started. -/
theorem goTo (records : s.Records) {point : WorkerPoint}
    (idle : s.process.point.starting = none) (still : point.starting = none) :
    Records { s with process := { s.process with point := point } } where
  master := records.master
  uninitialised := records.uninitialised
  installed := by
    rintro arg index pid caller rfl
    cases still
  reaped := records.reaped
  children := fun pid member => .inl (records.table idle pid member)
  inserted := records.inserted
  starting := by
    intro pid started
    cases still.symm.trans started

theorem resume_starting (index : ℕ) (caller : Caller) : (caller.resume index).starting = none := by
  cases caller with
  | spawnLoop => rfl
  | restartLoop retPid => rfl

/-- The block of `if(!is_init)` makes the process the master, and leaves the empty table empty. -/
theorem init_cases (records : s.Records) :
    s.process.init.isInit = true ∧ s.process.init.master = s.process.init.pid ∧
      s.process.init.childFd = s.process.childFd := by
  rw [WorkerProcess.init]
  split
  · next done => exact ⟨done, records.master done, rfl⟩
  · next fresh =>
      exact ⟨rfl, rfl, (records.uninitialised (Bool.not_eq_true _ ▸ fresh)).symm⟩

/-- The parent has run that block. -/
theorem initialise (records : s.Records) {arg : Option NSQArg} {index : ℕ} {pid : ℤ}
    {caller : Caller} (started : s.process.point.starting = some pid) :
    Records { s with
      process := { s.process.init with point := .initialised arg index pid caller } } := by
  obtain ⟨installed, master, table⟩ := records.init_cases
  refine ⟨fun _ => master, fun fresh => ?_, fun _ _ _ _ _ => installed, ?_, ?_, ?_, ?_⟩
  · cases installed.symm.trans fresh
  · intro other member
    exact table ▸ records.reaped other member
  · intro other member
    rcases records.children other member with inserted | same
    · exact .inl (table ▸ inserted)
    · exact .inr (started.symm.trans same)
  · intro other member
    exact records.inserted other (table ▸ member)
  · intro other same
    exact records.starting other (started.trans same)

/-- The worker that was started is inserted. -/
theorem insertWorker (records : s.Records) {arg : Option NSQArg} {index : ℕ} {pid : ℤ} {caller : Caller}
    {argArr : Cells ArgPid} (point : s.process.point = .initialised arg index pid caller) :
    Records { s with
      process := { s.process with
        point := caller.resume index
        argArr := argArr
        childFd := s.process.childFd ++ [pid] } } := by
  have started : s.process.point.starting = some pid := congrArg WorkerPoint.starting point
  have done := records.installed arg index pid caller point
  refine ⟨records.master, fun fresh => ?_, fun _ _ _ _ _ => done, ?_, ?_, ?_, ?_⟩
  · cases done.symm.trans fresh
  · intro other member
    exact List.mem_append_left _ (records.reaped other member)
  · intro other member
    rcases records.children other member with inserted | same
    · exact .inl (List.mem_append_left _ inserted)
    · obtain rfl := Option.some.inj (started.symm.trans same)
      exact .inl (List.mem_append_right _ (List.mem_singleton_self _))
  · intro other member
    rcases List.mem_append.mp member with before | here
    · exact records.inserted other before
    · obtain rfl := List.mem_singleton.mp here
      exact .inl (records.starting _ started)
  · intro other same
    rw [resume_starting] at same
    cases same

/-- The master goes on. -/
theorem proceed (records : s.Records) {process : WorkerProcess}
    (goes : s.process.Proceeds connectNum args process) :
    Records { s with process := process } := by
  cases goes with
  | spawned j point _ => exact records.goTo (congrArg WorkerPoint.starting point) rfl
  | passed retPid k point _ _ => exact records.goTo (congrArg WorkerPoint.starting point) rfl
  | scanned retPid k point _ => exact records.goTo (congrArg WorkerPoint.starting point) rfl
  | initialised arg index pid caller point =>
      exact records.initialise (congrArg WorkerPoint.starting point)
  | inserted arg index pid caller point => exact records.insertWorker point

/-- A worker is started. -/
theorem fork (records : s.Records) {arg : Option NSQArg} {index : ℕ} {caller : Caller} {pid : ℤ}
    (idle : s.process.point.starting = none) :
    Records ⟨{ s.process with point := .forked arg index pid caller }, insert pid s.unreaped,
      s.dead, s.log ++ [.forked index pid]⟩ := by
  have same : reapedPids (s.log ++ [.forked index pid]) = reapedPids s.log := by
    rw [reapedPids, List.filterMap_append]
    exact List.append_nil _
  refine ⟨records.master, records.uninitialised, ?_, ?_, ?_, ?_, ?_⟩
  · intro arg' index' pid' caller' point
    cases point
  · intro other member
    exact records.reaped other (same ▸ member)
  · intro other member
    rcases Finset.mem_insert.mp member with rfl | before
    · exact .inr rfl
    · exact .inl (records.table idle other before)
  · intro other member
    rcases records.inserted other member with child | gone
    · exact .inl (Finset.mem_insert_of_mem child)
    · exact .inr (same.symm ▸ gone)
  · intro other started
    obtain rfl := Option.some.inj started
    exact Finset.mem_insert_self ..

/-- A worker is reaped. -/
theorem reap (records : s.Records) {pid : ℤ} (child : pid ∈ s.unreaped)
    (point : s.process.point = .waiting) :
    Records ⟨{ s.process with point := .scanning pid 0 }, s.unreaped.erase pid, s.dead.erase pid,
      s.log ++ [.reaped pid]⟩ := by
  have table := records.table (congrArg WorkerPoint.starting point)
  have pids : reapedPids (s.log ++ [.reaped pid]) = reapedPids s.log ++ [pid] :=
    List.filterMap_append ..
  refine ⟨records.master, records.uninitialised, ?_, ?_, ?_, ?_, ?_⟩
  · intro arg index pid' caller at_point
    cases at_point
  · intro other member
    rw [pids] at member
    rcases List.mem_append.mp member with before | here
    · exact records.reaped other before
    · obtain rfl := List.mem_singleton.mp here
      exact table _ child
  · intro other member
    exact .inl (table other (Finset.mem_of_mem_erase member))
  · intro other member
    rw [pids, List.mem_append, List.mem_singleton, Finset.mem_erase]
    rcases records.inserted other member with child | gone
    · by_cases here : other = pid
      · exact .inr (.inr here)
      · exact .inl ⟨here, child⟩
    · exact .inr (.inl gone)
  · intro other started
    cases started

/-- **Every event keeps the account of `child_fd`.** -/
theorem step (records : s.Records) {event : SupervisionEvent}
    (one : Supervises connectNum args s event s') : s'.Records := by
  cases event with
  | proceed =>
      obtain ⟨process, goes, rfl⟩ := one.of_proceed
      exact records.proceed goes
  | fork pid =>
      obtain ⟨arg, index, caller, call, outcome⟩ := one.of_fork
      have idle : s.process.point.starting = none := by
        obtain ⟨-, ⟨point, -⟩ | ⟨retPid, point, -⟩⟩ :=
          WorkerProcess.startWorkerProcess_cases call
        · exact congrArg WorkerPoint.starting point
        · exact congrArg WorkerPoint.starting point
      rcases outcome with ⟨-, rfl⟩ | ⟨-, -, rfl⟩
      · exact records.goTo idle (resume_starting index caller)
      · exact records.fork idle
  | died pid =>
      obtain ⟨-, rfl⟩ := one.of_died
      exact ⟨records.master, records.uninitialised, records.installed, records.reaped,
        records.children, records.inserted, records.starting⟩
  | reaped pid =>
      obtain ⟨child, point, rfl⟩ := one.of_reaped
      exact records.reap child point
  | interrupted =>
      obtain rfl := one.of_interrupted
      exact records
  | noChild =>
      obtain ⟨-, point, rfl⟩ := one.of_noChild
      exact records.goTo (congrArg WorkerPoint.starting point) rfl

/-- What the signal reaches. -/
theorem signals_iff (records : s.Records) (installed : s.process.isInit = true) :
    s.SignalsExactly ↔ s.Current := by
  have table : s.process.signalHandle = s.process.childFd :=
    if_pos (records.master installed).symm
  rw [SignalsExactly, table]
  constructor
  · intro exactly
    refine ⟨fun pid gone => (exactly pid).mp (records.reaped pid gone), ?_⟩
    intro pid started
    exact (exactly pid).mpr (records.starting pid started)
  · rintro ⟨again, inserted⟩ pid
    constructor
    · intro member
      rcases records.inserted pid member with child | gone
      · exact child
      · exact again pid gone
    · intro child
      rcases records.children pid child with member | started
      · exact member
      · exact inserted pid started

end Supervision.Records

/-- **On `SIGTERM` the children are signalled, and nothing else**, in the states of a master that
are current. -/
theorem signalsExactly_iff {connectNum : ℕ} {args : List NSQArg} {pid : ℤ} {memory : Cells ArgPid}
    {events : List SupervisionEvent} {last : Supervision}
    (run : Run (Supervises connectNum args) (.initial pid memory args.length) events last)
    (installed : last.process.isInit = true) : last.SignalsExactly ↔ last.Current := by
  have records : last.Records := by
    apply run.invariant (fun _ s => s.Records)
    · exact fun _ state event next here one => here.step one
    · exact .initial pid memory args.length
  exact records.signals_iff installed

/-- Two workers are started, and nothing has happened to them. -/
def startedBoth : List SupervisionEvent :=
  [.fork 100, .proceed, .proceed, .fork 101, .proceed, .proceed, .proceed]

theorem signalsExactly_startedBoth :
    ∃ last, Run (Supervises 1 twoArgs) (.initial 99 (fun _ => ⟨7, none⟩) twoArgs.length)
        startedBoth last ∧ last.process.isInit = true ∧ last.SignalsExactly := by
  obtain ⟨last, run, installed, current⟩ : ∃ last, Run (Supervises 1 twoArgs)
      (.initial 99 (fun _ => ⟨7, none⟩) twoArgs.length) startedBoth last ∧
      last.process.isInit = true ∧ last.Current := by
    refine ⟨_, ⟨_, rfl, _, rfl, _, rfl, _, rfl, _, rfl, _, rfl, _, rfl, rfl⟩, rfl, ?_, ?_⟩
    · exact fun pid member => absurd member List.not_mem_nil
    · intro pid started
      cases started
  exact ⟨last, run, installed, (signalsExactly_iff run installed).mpr current⟩

/-- The first worker is started again under another pid. -/
def restartedOther : List SupervisionEvent :=
  startedBoth ++ [.died 100, .reaped 100, .fork 102, .proceed, .proceed]

/-- **The pid of a worker that was reaped is signalled** together with the children. -/
theorem not_signalsExactly_restartedOther :
    ∃ last, Run (Supervises 1 twoArgs) (.initial 99 (fun _ => ⟨7, none⟩) twoArgs.length)
        restartedOther last ∧ last.process.signalHandle = [100, 101, 102] ∧
      100 ∉ last.unreaped ∧ ¬ last.SignalsExactly := by
  obtain ⟨last, run, pids, gone⟩ : ∃ last, Run (Supervises 1 twoArgs)
      (.initial 99 (fun _ => ⟨7, none⟩) twoArgs.length) restartedOther last ∧
      last.process.signalHandle = [100, 101, 102] ∧ 100 ∉ last.unreaped :=
    ⟨_, ⟨_, rfl, _, rfl, _, rfl, _, rfl, _, rfl, _, rfl, _, rfl, _, rfl, _, rfl, _, rfl, _, rfl,
      _, rfl, rfl⟩, rfl, by decide⟩
  refine ⟨last, run, pids, gone, ?_⟩
  intro exactly
  apply gone
  rw [← exactly, pids]
  decide

end PhpNsq
