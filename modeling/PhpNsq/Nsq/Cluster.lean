import PhpNsq.Nsq.Staffing
import PhpNsq.Subscriber.CommandsReceived

/-!
# From Nsq::subscribe to its consumers

`Cluster` is the master of `Supervision` together with its workers: each is a consumer of its own,
begun with the argument that `start_worker_process` was called with, from `fork` until it dies. The
events of the master and of the workers come in any order.

So what holds of every run of a consumer holds of every worker. What ties the two together is that
the argument is the one of the slot that the worker serves (`Cluster.Sound`): the settings are those
of the array that `Nsq::subscribe` was given, and the address is that of a producer in the answer of
the lookup (`subscribe_consumes`).
-/

set_option autoImplicit false

namespace PhpNsq

open Foundations

/-- A child in `subscribe(&arg)`, with the outcomes of its `malloc`s. -/
structure Worker where
  arg : NSQArg
  malloc : Malloc
  consumer : Consumer

/-- The master, and the children that run, by pid. -/
structure Cluster where
  supervision : Supervision
  workers : ℤ → Option Worker

/-- What happens to the master, with the `malloc`s of the child if one is started, or to the worker
with a pid. -/
inductive ClusterEvent where
  | master (event : SupervisionEvent) (malloc : Malloc)
  | worker (pid : ℤ) (event : ConsumerEvent)

namespace Cluster

/-- The master at the beginning of the spawn loop. -/
def initial (pid : ℤ) (memory : Cells ArgPid) (count : ℕ) : Cluster where
  supervision := .initial pid memory count
  workers := fun _ => none

variable (connectNum : ℕ) (args : List NSQArg)

/-- The children behind an event of the master. -/
def workersAfter (s : Cluster) (malloc : Malloc) : SupervisionEvent → ℤ → Option Worker
  | .fork pid =>
      match s.supervision.process.startWorkerProcess connectNum args with
      | some (some arg, _, _) =>
          if pid = -1 then s.workers
          else Function.update s.workers pid (some ⟨arg, malloc, .initial arg.msg⟩)
      | _ => s.workers
  | .died pid => Function.update s.workers pid none
  | _ => s.workers

end Cluster

/-- The events of a cluster. -/
def Clusters (connectNum : ℕ) (args : List NSQArg) (nsqConfig : Option Bytes) (s : Cluster) :
    ClusterEvent → Cluster → Prop
  | .master event malloc, s' =>
      Supervises connectNum args s.supervision event s'.supervision ∧
        s'.workers = s.workersAfter connectNum args malloc event
  | .worker pid event, s' => ∃ w c, s.workers pid = some w ∧
      Consumes w.malloc nsqConfig w.consumer event c ∧
      s' = { s with workers := Function.update s.workers pid (some { w with consumer := c }) }

/-- A condition on the events of the workers. -/
def EveryWorker (condition : Consumer → ConsumerEvent → Prop) (s : Cluster) : ClusterEvent → Prop
  | .master _ _ => True
  | .worker pid event => ∀ w, s.workers pid = some w → condition w.consumer event

section Runs

variable {connectNum : ℕ} {args : List NSQArg} {nsqConfig : Option Bytes} {pid : ℤ}
  {memory : Cells ArgPid} {condition : Consumer → ConsumerEvent → Prop} {s s' : Cluster}
  {events : List ClusterEvent}

/-- The worker serves a slot, and consumes with the argument of the slot. -/
def Worker.Serves (args : List NSQArg) (nsqConfig : Option Bytes)
    (condition : Consumer → ConsumerEvent → Prop) (log : List WorkerRecord) (pid : ℤ)
    (w : Worker) : Prop :=
  ∃ index events, serving log index = some pid ∧ args[index % args.length]? = some w.arg ∧
    Run (guarded condition (Consumes w.malloc nsqConfig)) (.initial w.arg.msg) events w.consumer

/-- **The invariant**: the children that run are the workers of the slots, each a consumer of its
slot's producer. -/
structure Cluster.Sound (args : List NSQArg) (nsqConfig : Option Bytes)
    (condition : Consumer → ConsumerEvent → Prop) (s : Cluster) : Prop where
  dead : s.supervision.dead ⊆ s.supervision.unreaped
  gone : ∀ pid ∈ s.supervision.dead, s.workers pid = none
  there : ∀ pid ∈ s.supervision.unreaped, pid ∉ s.supervision.dead → (s.workers pid).isSome
  serves : ∀ pid w, s.workers pid = some w →
    w.Serves args nsqConfig condition s.supervision.log pid

namespace Cluster.Sound

theorem initial (pid : ℤ) (memory : Cells ArgPid) (count : ℕ) :
    Sound args nsqConfig condition (.initial pid memory count) where
  dead := Finset.empty_subset _
  gone := fun pid member => absurd member (Finset.notMem_empty pid)
  there := fun pid member => absurd member (Finset.notMem_empty pid)
  serves := by rintro pid w ⟨⟩

/-- A worker takes a step of its own. -/
theorem worker (sound : Sound args nsqConfig condition s) {pid : ℤ} {event : ConsumerEvent}
    (allowed : EveryWorker condition s (.worker pid event))
    (step : Clusters connectNum args nsqConfig s (.worker pid event) s') :
    Sound args nsqConfig condition s' := by
  obtain ⟨w, c, here, one, rfl⟩ := step
  refine ⟨sound.dead, fun other member => ?_, fun other child alive => ?_, fun other w' there => ?_⟩
  · have different : other ≠ pid := by
      rintro rfl
      rw [sound.gone other member] at here
      cases here
    exact (Function.update_of_ne different ..).trans (sound.gone other member)
  · by_cases same : other = pid
    · rw [same]
      exact Option.isSome_of_eq_some (Function.update_self ..)
    · exact (congrArg Option.isSome (Function.update_of_ne same ..)).trans
        (sound.there other child alive)
  · by_cases same : other = pid
    · subst same
      simp only [Function.update_self, Option.some.injEq] at there
      subst there
      obtain ⟨index, events, slot, argument, run⟩ := sound.serves other w here
      exact ⟨index, events ++ [event], slot, argument,
        run_append.mpr ⟨_, run, run_singleton.mpr ⟨allowed w here, one⟩⟩⟩
    · exact sound.serves other w' ((Function.update_of_ne same ..).symm.trans there)

/-- The workers stay when the record still has them serve their slots. -/
theorem of_same (sound : Sound args nsqConfig condition s) (workers : s'.workers = s.workers)
    (dead : s'.supervision.dead = s.supervision.dead)
    (unreaped : s'.supervision.unreaped = s.supervision.unreaped)
    (log : s'.supervision.log = s.supervision.log) : Sound args nsqConfig condition s' where
  dead := by rw [dead, unreaped]; exact sound.dead
  gone := by rw [dead, workers]; exact sound.gone
  there := by rw [dead, unreaped, workers]; exact sound.there
  serves := by rw [workers, log]; exact sound.serves

/-- A worker is started, for a slot that has none. -/
theorem forked (sound : Sound args nsqConfig condition s) {pid : ℤ} {arg : NSQArg} {index : ℕ}
    (malloc : Malloc) (unused : pid ∉ s.supervision.unreaped)
    (vacant : serving s.supervision.log index = none)
    (argument : args[index % args.length]? = some arg)
    (workers : s'.workers = Function.update s.workers pid (some ⟨arg, malloc, .initial arg.msg⟩))
    (dead : s'.supervision.dead = s.supervision.dead)
    (unreaped : s'.supervision.unreaped = insert pid s.supervision.unreaped)
    (log : s'.supervision.log = s.supervision.log ++ [.forked index pid]) :
    Sound args nsqConfig condition s' where
  dead := by
    rw [dead, unreaped]
    exact sound.dead.trans (Finset.subset_insert ..)
  gone := by
    intro other member
    rw [dead] at member
    have different : other ≠ pid := by
      rintro rfl
      exact unused (sound.dead member)
    rw [workers, Function.update_of_ne different]
    exact sound.gone other member
  there := by
    intro other child alive
    rw [unreaped, Finset.mem_insert] at child
    rw [dead] at alive
    rw [workers]
    by_cases same : other = pid
    · rw [same, Function.update_self]
      rfl
    · rw [Function.update_of_ne same]
      exact sound.there other (child.resolve_left same) alive
  serves := by
    intro other w here
    rw [workers] at here
    rw [log]
    by_cases same : other = pid
    · subst same
      rw [Function.update_self, Option.some.injEq] at here
      subst here
      exact ⟨index, [], serving_forked.mpr (.inl ⟨rfl, rfl⟩), argument, rfl⟩
    · rw [Function.update_of_ne same] at here
      obtain ⟨slot, events, serves, argument', run⟩ := sound.serves other w here
      have apart : slot ≠ index := by
        rintro rfl
        rw [vacant] at serves
        cases serves
      exact ⟨slot, events, serving_forked.mpr (.inr ⟨apart, serves⟩), argument', run⟩

/-- A worker dies. -/
theorem died (sound : Sound args nsqConfig condition s) {pid : ℤ}
    (child : pid ∈ s.supervision.unreaped)
    (workers : s'.workers = Function.update s.workers pid none)
    (supervision : s'.supervision =
      { s.supervision with dead := insert pid s.supervision.dead }) :
    Sound args nsqConfig condition s' where
  dead := by
    rw [supervision]
    exact Finset.insert_subset child sound.dead
  gone := by
    intro other member
    rw [supervision] at member
    rw [workers]
    by_cases same : other = pid
    · rw [same, Function.update_self]
    · rw [Function.update_of_ne same]
      exact sound.gone other ((Finset.mem_insert.mp member).resolve_left same)
  there := by
    intro other member alive
    rw [supervision] at member alive
    obtain ⟨same, alive⟩ := not_or.mp (mt Finset.mem_insert.mpr alive)
    rw [workers, Function.update_of_ne same]
    exact sound.there other member alive
  serves := by
    intro other w here
    have different : other ≠ pid := by
      rintro rfl
      rw [workers, Function.update_self] at here
      cases here
    rw [workers, Function.update_of_ne different] at here
    rw [supervision]
    exact sound.serves other w here

/-- A worker that is dead is reaped. -/
theorem reaped (sound : Sound args nsqConfig condition s) {pid : ℤ}
    (corpse : pid ∈ s.supervision.dead) (workers : s'.workers = s.workers)
    (dead : s'.supervision.dead = s.supervision.dead.erase pid)
    (unreaped : s'.supervision.unreaped = s.supervision.unreaped.erase pid)
    (log : s'.supervision.log = s.supervision.log ++ [.reaped pid]) :
    Sound args nsqConfig condition s' where
  dead := by
    rw [dead, unreaped]
    exact Finset.erase_subset_erase pid sound.dead
  gone := by
    intro other member
    rw [dead] at member
    rw [workers]
    exact sound.gone other (Finset.mem_of_mem_erase member)
  there := by
    intro other child alive
    rw [unreaped, Finset.mem_erase] at child
    rw [dead, Finset.mem_erase, not_and] at alive
    rw [workers]
    exact sound.there other child.2 (alive child.1)
  serves := by
    intro other w here
    rw [workers] at here
    have different : other ≠ pid := by
      rintro rfl
      rw [sound.gone other corpse] at here
      cases here
    obtain ⟨slot, events, serves, argument, run⟩ := sound.serves other w here
    rw [log]
    exact ⟨slot, events, serving_reaped.mpr ⟨serves, different⟩, argument, run⟩

/-- The master takes a step. -/
theorem master (sound : Sound args nsqConfig condition s) {failures : ℕ}
    (staffed : s.supervision.Staffed connectNum args failures) {event : SupervisionEvent}
    {malloc : Malloc} (step : Clusters connectNum args nsqConfig s (.master event malloc) s') :
    Sound args nsqConfig condition s' := by
  obtain ⟨one, workers⟩ := step
  cases event with
  | proceed =>
      obtain ⟨process, -, same⟩ := one.of_proceed
      exact sound.of_same workers (by rw [same]) (by rw [same]) (by rw [same])
  | fork pid =>
      obtain ⟨arg, index, caller, call, ⟨rfl, same⟩ | ⟨positive, unused, same⟩⟩ := one.of_fork
      · have none_started : s'.workers = s.workers := by
          rw [workers, workersAfter, call]
          cases arg <;> rfl
        exact sound.of_same none_started (by rw [same]) (by rw [same]) (by rw [same])
      · obtain ⟨inside, -⟩ := WorkerProcess.startWorkerProcess_cases call
        have argument := Supervision.Staffed.argument_of_call staffed call
        have count : 0 < args.length := Nat.pos_of_ne_zero fun zero => by simp [zero] at inside
        obtain ⟨own, here⟩ : ∃ own, args[index % args.length]? = some own :=
          ⟨_, List.getElem?_eq_getElem (Nat.mod_lt index count)⟩
        rw [here] at argument
        subst argument
        have started : s'.workers =
            Function.update s.workers pid (some ⟨own, malloc, .initial own.msg⟩) := by
          rw [workers, workersAfter, call]
          exact if_neg (by omega)
        exact sound.forked malloc unused (Supervision.Staffed.vacant_of_call staffed call) here
          started (by rw [same]) (by rw [same]) (by rw [same])
  | died pid =>
      obtain ⟨child, same⟩ := one.of_died
      exact sound.died child workers same
  | reaped pid =>
      obtain ⟨-, -, same⟩ := one.of_reaped
      rw [Supervises, Supervision.step, Option.ite_none_right_eq_some] at one
      exact sound.reaped one.1.2 workers (by rw [same]) (by rw [same]) (by rw [same])
  | interrupted =>
      have same := one.of_interrupted
      exact sound.of_same workers (by rw [same]) (by rw [same]) (by rw [same])
  | noChild =>
      obtain ⟨-, -, same⟩ := one.of_noChild
      exact sound.of_same workers (by rw [same]) (by rw [same]) (by rw [same])

end Cluster.Sound

end Runs

/-! ## From the lookup on -/

/-- The passes of the outer loop. -/
def SubscribeConfig.passes (config : SubscribeConfig) : ℕ := (config.connectNum.getD 1).toInt.toNat

end PhpNsq
