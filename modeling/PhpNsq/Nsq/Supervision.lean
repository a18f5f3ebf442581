import PhpNsq.Nsq.Workers

/-!
# The master and its children

The process that calls `Nsq::subscribe` has the workers as its children. A worker may die at any
time, and is a child until `wait` has given its pid. `fork` fails, or gives a pid that no such child
has; so the pid of a worker that was reaped may come again.

`Supervision` is the process with its children and a record of the workers that were started and
reaped.
-/

set_option autoImplicit false

namespace PhpNsq

open Foundations

/-- What happens to the children. -/
inductive WorkerRecord where
  | forked (index : ℕ) (pid : ℤ)
  | reaped (pid : ℤ)
  deriving DecidableEq

/-- The master, its children that have not been reaped, those of them that are dead, and the
record. -/
structure Supervision where
  process : WorkerProcess
  unreaped : Finset ℤ
  dead : Finset ℤ
  log : List WorkerRecord

inductive SupervisionEvent where
  | proceed
  /-- `fork` returns in the master. -/
  | fork (pid : ℤ)
  | died (pid : ℤ)
  /-- `wait` returns a pid. -/
  | reaped (pid : ℤ)
  | interrupted
  | noChild

namespace Supervision

/-- The master at the beginning of the spawn loop. -/
def initial (pid : ℤ) (memory : Cells ArgPid) (count : ℕ) : Supervision where
  process := .initial pid memory count
  unreaped := ∅
  dead := ∅
  log := []

variable (connectNum : ℕ) (args : List NSQArg) (s : Supervision)

/-- One event. -/
def step : SupervisionEvent → Option Supervision
  | .proceed =>
      (s.process.step connectNum args .proceed).map fun process => { s with process := process }
  | .fork pid =>
      match s.process.startWorkerProcess connectNum args with
      | none => none
      | some (arg, index, caller) =>
          if pid = -1 then some { s with process := s.process.afterFork arg index caller pid }
          else if 0 < pid ∧ pid ∉ s.unreaped then
            some
              { process := s.process.afterFork arg index caller pid
                unreaped := insert pid s.unreaped
                dead := s.dead
                log := s.log ++ [.forked index pid] }
          else none
  | .died pid => if pid ∈ s.unreaped then some { s with dead := insert pid s.dead } else none
  | .reaped pid =>
      if pid ∈ s.unreaped ∧ pid ∈ s.dead then
        (s.process.step connectNum args (.reaped pid)).map fun process =>
          { process := process
            unreaped := s.unreaped.erase pid
            dead := s.dead.erase pid
            log := s.log ++ [.reaped pid] }
      else none
  | .interrupted =>
      (s.process.step connectNum args .interrupted).map fun process =>
        { s with process := process }
  | .noChild =>
      if s.unreaped = ∅ then
        (s.process.step connectNum args .noChild).map fun process => { s with process := process }
      else none

end Supervision

/-- The events of a master. -/
def Supervises (connectNum : ℕ) (args : List NSQArg) (s : Supervision) (event : SupervisionEvent)
    (s' : Supervision) : Prop :=
  s.step connectNum args event = some s'

namespace Supervises

variable {connectNum : ℕ} {args : List NSQArg} {s s' : Supervision} {pid : ℤ}

theorem of_proceed (one : Supervises connectNum args s .proceed s') :
    ∃ process, s.process.Proceeds connectNum args process ∧
      s' = { s with process := process } := by
  obtain ⟨process, local_step, rfl⟩ := Option.map_eq_some_iff.mp one
  exact ⟨process, WorkerProcess.proceeds_of_proceed local_step, rfl⟩

/-- `fork` fails, or there is one child more. -/
theorem of_fork (one : Supervises connectNum args s (.fork pid) s') :
    ∃ arg index caller,
      s.process.startWorkerProcess connectNum args = some (arg, index, caller) ∧
      ((pid = -1 ∧ s' = { s with process := { s.process with point := caller.resume index } }) ∨
        (0 < pid ∧ pid ∉ s.unreaped ∧
          s' = ⟨{ s.process with point := .forked arg index pid caller }, insert pid s.unreaped,
            s.dead, s.log ++ [.forked index pid]⟩)) := by
  rw [Supervises, Supervision.step] at one
  split at one
  · cases one
  · next arg index caller call =>
      refine ⟨arg, index, caller, call, ?_⟩
      split at one
      · next failed =>
          subst failed
          exact .inl ⟨rfl, (Option.some.inj one).symm⟩
      · rw [Option.ite_none_right_eq_some] at one
        obtain ⟨⟨positive, free⟩, same⟩ := one
        obtain rfl := Option.some.inj same
        refine .inr ⟨positive, free, ?_⟩
        rw [WorkerProcess.afterFork, if_neg (by omega), if_pos positive]

theorem of_died (one : Supervises connectNum args s (.died pid) s') :
    pid ∈ s.unreaped ∧ s' = { s with dead := insert pid s.dead } := by
  rw [Supervises, Supervision.step, Option.ite_none_right_eq_some] at one
  exact ⟨one.1, (Option.some.inj one.2).symm⟩

/-- `wait` gives the pid of a child, and there is one child fewer. -/
theorem of_reaped (one : Supervises connectNum args s (.reaped pid) s') :
    pid ∈ s.unreaped ∧ s.process.point = .waiting ∧
      s' = ⟨{ s.process with point := .scanning pid 0 }, s.unreaped.erase pid, s.dead.erase pid,
        s.log ++ [.reaped pid]⟩ := by
  rw [Supervises, Supervision.step, Option.ite_none_right_eq_some] at one
  obtain ⟨process, local_step, rfl⟩ := Option.map_eq_some_iff.mp one.2
  obtain ⟨point, rfl⟩ := WorkerProcess.step_reaped local_step
  exact ⟨one.1.1, point, rfl⟩

theorem of_interrupted (one : Supervises connectNum args s .interrupted s') : s' = s := by
  obtain ⟨process, local_step, rfl⟩ := Option.map_eq_some_iff.mp one
  obtain ⟨-, rfl⟩ := WorkerProcess.step_interrupted local_step
  rfl

theorem of_noChild (one : Supervises connectNum args s .noChild s') :
    s.unreaped = ∅ ∧ s.process.point = .waiting ∧
      s' = { s with process := { s.process with point := .left } } := by
  rw [Supervises, Supervision.step, Option.ite_none_right_eq_some] at one
  obtain ⟨process, local_step, rfl⟩ := Option.map_eq_some_iff.mp one.2
  obtain ⟨point, rfl⟩ := WorkerProcess.step_noChild local_step
  exact ⟨one.1, point, rfl⟩

end Supervises

end PhpNsq
