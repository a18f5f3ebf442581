import PhpNsq.Nsq.Methods

/-!
# The workers of Nsq::subscribe of nsq.c

Behind the lookup `subscribe` starts its workers with `start_worker_process`, once for every
producer and pass of the outer loop, and then waits for children. A pid that `wait` gives is looked
for in `arg_arr`, and the worker of every slot that has it is started again.

Parent and child come out of `fork` with the same locals and globals. The child calls
`subscribe(&arg)` of sub.c, and when that returns it goes on where `start_worker_process` was
called, like the parent. So one step function says what any of the processes does
(`WorkerProcess.step`), given what the system calls answer.

The two nested loops count `j`, respectively `k`, through all passes, and the `j`-th worker
is that of producer `j` modulo their number. `arg_arr` is the cells behind the pointer.
-/

set_option autoImplicit false

namespace PhpNsq

open Foundations

/-- The fields of `NSQArg` that are in use, with one address for `fci` and `fcc`. -/
structure NSQArg where
  msg : NSQMsg
  host : Bytes
  port : Bytes
  callback : ℕ

/-- The argument of the worker for a producer. -/
def SubscribeConfig.nsqArg (config : SubscribeConfig) (topic channel : Bytes) (callback : ℕ)
    (producer : Producer) : NSQArg where
  msg :=
    { topic := topic
      channel := channel
      frameType := 0
      size := 0
      rdy := (config.rdy.map Int64.toInt32).getD 1
      delayTime := (config.retryDelayTime.map Int64.toInt32).getD 0
      autoFinish := config.autoFinish.getD true }
  host := producer.broadcastAddress
  port := producer.tcpPort
  callback := callback

/-- The arguments for two producers. -/
def twoArgs : List NSQArg :=
  [(⟨none, none, none, none, none, none⟩ : SubscribeConfig).nsqArg (ascii "t") (ascii "c") 0
      ⟨ascii "10.0.0.1", ascii "4150"⟩,
    (⟨none, none, none, none, none, none⟩ : SubscribeConfig).nsqArg (ascii "t") (ascii "c") 0
      ⟨ascii "10.0.0.2", ascii "4150"⟩]

/-- A slot of `arg_arr`, without an argument as `memset` leaves it. -/
structure ArgPid where
  pid : ℤ
  arg : Option NSQArg

/-- The loop that calls `start_worker_process`. -/
inductive Caller where
  | spawnLoop
  | restartLoop (retPid : ℤ)
  deriving DecidableEq

/-- Where a process is. -/
inductive WorkerPoint where
  /-- At worker `j` of the spawn loop. -/
  | spawning (j : ℕ)
  /-- About to call `wait`. -/
  | waiting
  /-- At slot `k` of the restart loop. -/
  | scanning (retPid : ℤ) (k : ℕ)
  /-- The parent, behind `fork`. -/
  | forked (arg : Option NSQArg) (index : ℕ) (pid : ℤ) (caller : Caller)
  /-- The parent, with the handlers installed and `child_fd` initialised. -/
  | initialised (arg : Option NSQArg) (index : ℕ) (pid : ℤ) (caller : Caller)
  /-- The child, in `subscribe(&arg)`. -/
  | subscribed (arg : Option NSQArg) (index : ℕ) (caller : Caller)
  /-- Behind the loops. -/
  | left

/-- A process, with its pid, its copy of `arg_arr` and of the globals. -/
structure WorkerProcess where
  point : WorkerPoint
  pid : ℤ
  argArr : Cells ArgPid
  childFd : List ℤ
  isInit : Bool
  master : ℤ

/-- What a process gets to know. -/
inductive Answer where
  /-- It goes on by itself. -/
  | proceed
  /-- What `fork` returns in it. -/
  | fork (result : ℤ)
  /-- `wait` returns the pid of a child. -/
  | reaped (pid : ℤ)
  /-- `wait` returns `-1` with `EINTR`. -/
  | interrupted
  /-- `wait` returns `-1` with `ECHILD`. -/
  | noChild
  /-- `subscribe(&arg)` returns. -/
  | returned

/-- The point behind `start_worker_process`. -/
def Caller.resume (index : ℕ) : Caller → WorkerPoint
  | .spawnLoop => .spawning (index + 1)
  | .restartLoop retPid => .scanning retPid (index + 1)

/-- `arg_arr` as `emalloc` and `memset` leave it. -/
def zeroed (memory : Cells ArgPid) (count : ℕ) : Cells ArgPid := fun index =>
  if index < count then ⟨0, none⟩ else memory index

namespace WorkerProcess

/-- The process that calls `Nsq::subscribe`. -/
def initial (pid : ℤ) (memory : Cells ArgPid) (count : ℕ) : WorkerProcess where
  point := .spawning 0
  pid := pid
  argArr := zeroed memory count
  childFd := []
  isInit := false
  master := 0

variable (connectNum : ℕ) (args : List NSQArg) (s : WorkerProcess)

/-- The call of `start_worker_process` that the process is at. -/
def startWorkerProcess : Option (Option NSQArg × ℕ × Caller) :=
  match s.point with
  | .spawning j =>
      if j < connectNum * args.length then some (args[j % args.length]?, j, .spawnLoop) else none
  | .scanning retPid k =>
      if k < connectNum * args.length ∧ (s.argArr k).pid = retPid then
        some ((s.argArr k).arg, k, .restartLoop retPid)
      else none
  | _ => none

/-- Behind `fork`. -/
def afterFork (arg : Option NSQArg) (index : ℕ) (caller : Caller) (pid : ℤ) : WorkerProcess :=
  if pid = 0 then { s with point := .subscribed arg index caller }
  else if 0 < pid then { s with point := .forked arg index pid caller }
  else { s with point := caller.resume index }

/-- The block of `if(!is_init)`. -/
def init : WorkerProcess :=
  if s.isInit then s else { s with master := s.pid, childFd := [], isInit := true }

/-- What the process does by itself. -/
def proceed : Option WorkerProcess :=
  match s.point with
  | .spawning j =>
      if j < connectNum * args.length then none else some { s with point := .waiting }
  | .scanning retPid k =>
      if k < connectNum * args.length then
        if (s.argArr k).pid = retPid then none
        else some { s with point := .scanning retPid (k + 1) }
      else some { s with point := .waiting }
  | .forked arg index pid caller => some { s.init with point := .initialised arg index pid caller }
  | .initialised arg index pid caller =>
      some
        { s with
          point := caller.resume index
          argArr := s.argArr.store index [⟨pid, arg⟩]
          childFd := s.childFd ++ [pid] }
  | _ => none

/-- One step. -/
def step : Answer → Option WorkerProcess
  | .proceed => s.proceed connectNum args
  | .fork result =>
      (s.startWorkerProcess connectNum args).map fun (arg, index, caller) =>
        s.afterFork arg index caller result
  | .reaped pid =>
      match s.point with
      | .waiting => some { s with point := .scanning pid 0 }
      | _ => none
  | .interrupted =>
      match s.point with
      | .waiting => some s
      | _ => none
  | .noChild =>
      match s.point with
      | .waiting => some { s with point := .left }
      | _ => none
  | .returned =>
      match s.point with
      | .subscribed _ index caller => some { s with point := caller.resume index }
      | _ => none

/-- The pids that `signal_handle` passes to `kill` on `SIGTERM`. -/
def signalHandle : List ℤ := if s.pid = s.master then s.childFd else []

/-! ## What a process can do -/

/-- What a process does by itself, by the point that it is at. -/
inductive Proceeds (connectNum : ℕ) (args : List NSQArg) (s : WorkerProcess) :
    WorkerProcess → Prop where
  /-- The spawn loop is done. -/
  | spawned (j : ℕ) (point : s.point = .spawning j) (done : ¬ j < connectNum * args.length) :
      Proceeds connectNum args s { s with point := .waiting }
  /-- A slot does not have the pid. -/
  | passed (retPid : ℤ) (k : ℕ) (point : s.point = .scanning retPid k)
      (inside : k < connectNum * args.length) (other : (s.argArr k).pid ≠ retPid) :
      Proceeds connectNum args s { s with point := .scanning retPid (k + 1) }
  /-- The restart loop is done. -/
  | scanned (retPid : ℤ) (k : ℕ) (point : s.point = .scanning retPid k)
      (done : ¬ k < connectNum * args.length) :
      Proceeds connectNum args s { s with point := .waiting }
  | initialised (arg : Option NSQArg) (index : ℕ) (pid : ℤ) (caller : Caller)
      (point : s.point = .forked arg index pid caller) :
      Proceeds connectNum args s { s.init with point := .initialised arg index pid caller }
  | inserted (arg : Option NSQArg) (index : ℕ) (pid : ℤ) (caller : Caller)
      (point : s.point = .initialised arg index pid caller) :
      Proceeds connectNum args s
        { s with
          point := caller.resume index
          argArr := s.argArr.store index [⟨pid, arg⟩]
          childFd := s.childFd ++ [pid] }

/-- The block of `if(!is_init)` leaves the table as it is. -/
theorem init_argArr (s : WorkerProcess) : s.init.argArr = s.argArr := by
  rw [init]
  split
  · rfl
  · rfl

section Inversion

variable {connectNum : ℕ} {args : List NSQArg} {s s' : WorkerProcess}

theorem proceeds_of_proceed (one : s.proceed connectNum args = some s') :
    Proceeds connectNum args s s' := by
  rw [proceed] at one
  split at one
  · next j point =>
      split at one
      · cases one
      · next done =>
          obtain rfl := Option.some.inj one
          exact .spawned j point done
  · next retPid k point =>
      split at one
      · next inside =>
          split at one
          · cases one
          · next other =>
              obtain rfl := Option.some.inj one
              exact .passed retPid k point inside other
      · next done =>
          obtain rfl := Option.some.inj one
          exact .scanned retPid k point done
  · next arg index pid caller point =>
      obtain rfl := Option.some.inj one
      exact .initialised arg index pid caller point
  · next arg index pid caller point =>
      obtain rfl := Option.some.inj one
      exact .inserted arg index pid caller point
  · cases one

/-- **`start_worker_process` is called** from the spawn loop, or for a slot that has the pid. -/
theorem startWorkerProcess_cases {arg : Option NSQArg} {index : ℕ} {caller : Caller}
    (call : s.startWorkerProcess connectNum args = some (arg, index, caller)) :
    index < connectNum * args.length ∧
      ((s.point = .spawning index ∧ caller = .spawnLoop ∧ arg = args[index % args.length]?) ∨
        ∃ retPid, s.point = .scanning retPid index ∧ caller = .restartLoop retPid ∧
          (s.argArr index).pid = retPid ∧ arg = (s.argArr index).arg) := by
  rw [startWorkerProcess] at call
  split at call
  · next j point =>
      rw [Option.ite_none_right_eq_some] at call
      obtain ⟨rfl, rfl, rfl⟩ : args[j % args.length]? = arg ∧ j = index ∧ .spawnLoop = caller := by
        simpa using call.2
      exact ⟨call.1, .inl ⟨point, rfl, rfl⟩⟩
  · next retPid k point =>
      rw [Option.ite_none_right_eq_some] at call
      obtain ⟨rfl, rfl, rfl⟩ : (s.argArr k).arg = arg ∧ k = index ∧ .restartLoop retPid = caller := by
        simpa using call.2
      exact ⟨call.1.1, .inr ⟨retPid, point, rfl, call.1.2, rfl⟩⟩
  · cases call

theorem step_reaped {pid : ℤ} (one : s.step connectNum args (.reaped pid) = some s') :
    s.point = .waiting ∧ s' = { s with point := .scanning pid 0 } := by
  rw [step] at one
  split at one
  · next point => exact ⟨point, (Option.some.inj one).symm⟩
  · cases one

theorem step_interrupted (one : s.step connectNum args .interrupted = some s') :
    s.point = .waiting ∧ s' = s := by
  rw [step] at one
  split at one
  · next point => exact ⟨point, (Option.some.inj one).symm⟩
  · cases one

theorem step_noChild (one : s.step connectNum args .noChild = some s') :
    s.point = .waiting ∧ s' = { s with point := .left } := by
  rw [step] at one
  split at one
  · next point => exact ⟨point, (Option.some.inj one).symm⟩
  · cases one

theorem step_returned (one : s.step connectNum args .returned = some s') :
    ∃ arg index caller, s.point = .subscribed arg index caller ∧
      s' = { s with point := caller.resume index } := by
  rw [step] at one
  split at one
  · next arg index caller point => exact ⟨arg, index, caller, point, (Option.some.inj one).symm⟩
  · cases one

end Inversion

end WorkerProcess

end PhpNsq
