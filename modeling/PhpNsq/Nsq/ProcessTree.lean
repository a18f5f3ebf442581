import PhpNsq.Nsq.Workers

/-!
# The processes that Nsq::subscribe starts

A child goes on in the loops of its parent when `subscribe(&arg)` returns in it. So the processes
form a tree, every one of them with its own copy of the locals and globals, and any may come to
`fork`.

`ProcessTree` numbers the processes from the one that called `Nsq::subscribe`, which has the
number zero, and records who called `fork`. While every worker whose `subscribe(&arg)` returns finds
nothing left to start (`ReturnsLast`), only that one does: the others never come to `fork`
(`WorkerProcess.Harmless`). Each of them was started for a slot, and a slot is used again only when
its worker has been reaped (`WorkerProcess.Holds`), so there are never more workers than slots.
-/

set_option autoImplicit false

namespace PhpNsq

open Foundations

/-- A process runs, is dead, or is gone. -/
inductive Life where
  | running
  | dead
  | reaped
  deriving DecidableEq

/-- A process of the tree, with the number of its parent. -/
structure TreeProcess where
  process : WorkerProcess
  parent : Option ℕ
  life : Life

/-- The processes by number, and who called `fork`. -/
structure ProcessTree where
  procs : List TreeProcess
  forkers : List ℕ

/-- What happens to a process, by its number. -/
inductive TreeEvent where
  | proceed (who : ℕ)
  /-- `fork` fails, or gives the pid of the child. -/
  | fork (who : ℕ) (pid : ℤ)
  | died (who : ℕ)
  /-- `wait` returns the pid of a child. -/
  | reaped (who child : ℕ)
  /-- A process that is dead has lost its parent. -/
  | inherited (child : ℕ)
  | interrupted (who : ℕ)
  | noChild (who : ℕ)
  /-- `subscribe(&arg)` returns. -/
  | returned (who : ℕ)

namespace ProcessTree

/-- The process that calls `Nsq::subscribe`. -/
def initial (pid : ℤ) (memory : Cells ArgPid) (count : ℕ) : ProcessTree where
  procs := [⟨.initial pid memory count, none, .running⟩]
  forkers := []

variable (connectNum : ℕ) (args : List NSQArg) (t : ProcessTree)

/-- A process that runs. -/
def running (who : ℕ) : Option TreeProcess :=
  t.procs[who]?.filter fun p => p.life = .running

/-- A process makes a step of its own. -/
def act (who : ℕ) (answer : Answer) : Option ProcessTree :=
  match t.running who with
  | none => none
  | some p =>
      (p.process.step connectNum args answer).map fun process =>
        { t with procs := t.procs.set who { p with process := process } }

/-- One event. -/
def step : TreeEvent → Option ProcessTree
  | .proceed who => t.act connectNum args who .proceed
  | .fork who pid =>
      match t.running who with
      | none => none
      | some p =>
          match p.process.startWorkerProcess connectNum args with
          | none => none
          | some (arg, index, caller) =>
              let procs :=
                t.procs.set who { p with process := p.process.afterFork arg index caller pid }
              if pid = -1 then some ⟨procs, t.forkers ++ [who]⟩
              else if 0 < pid ∧ ∀ q ∈ t.procs, q.life ≠ .reaped → q.process.pid ≠ pid then
                some
                  { procs := procs ++
                      [⟨{ p.process.afterFork arg index caller 0 with pid := pid }, some who,
                        .running⟩]
                    forkers := t.forkers ++ [who] }
              else none
  | .died who =>
      (t.running who).map fun p => { t with procs := t.procs.set who { p with life := .dead } }
  | .reaped who child =>
      match t.procs[child]? with
      | none => none
      | some c =>
          if c.life = .dead ∧ c.parent = some who then
            (t.act connectNum args who (.reaped c.process.pid)).map fun t =>
              { t with procs := t.procs.set child { c with life := .reaped } }
          else none
  | .inherited child =>
      match t.procs[child]? with
      | none => none
      | some c =>
          if c.life = .dead ∧ ∀ who ∈ c.parent, t.running who = none then
            some { t with procs := t.procs.set child { c with life := .reaped } }
          else none
  | .interrupted who => t.act connectNum args who .interrupted
  | .noChild who =>
      if ∀ c ∈ t.procs, c.parent = some who → c.life = .reaped then
        t.act connectNum args who .noChild
      else none
  | .returned who => t.act connectNum args who .returned

end ProcessTree

/-- The events of a tree. -/
def TreeSteps (connectNum : ℕ) (args : List NSQArg) (t : ProcessTree) (event : TreeEvent)
    (t' : ProcessTree) : Prop :=
  t.step connectNum args event = some t'

/-- The slot that a process works for. -/
def TreeProcess.work (p : TreeProcess) : Option ℕ :=
  match p.life, p.process.point with
  | .running, .subscribed _ index _ => some index
  | _, _ => none

/-- The slots that are worked for, one for each worker. -/
def ProcessTree.workers (t : ProcessTree) : List ℕ := t.procs.filterMap TreeProcess.work

/-- The process does not come to `fork`, unless `subscribe(&arg)` returns in it. -/
def WorkerProcess.Harmless (connectNum : ℕ) (args : List NSQArg) (s : WorkerProcess) : Prop :=
  match s.point with
  | .spawning j => connectNum * args.length ≤ j
  | .scanning retPid k => ∀ i, k ≤ i → i < connectNum * args.length → (s.argArr i).pid ≠ retPid
  | .forked _ _ _ _ => False
  | .initialised _ _ _ _ => False
  | _ => True

/-- When `subscribe(&arg)` returns, there is nothing left to start: the worker was the last of the
spawn loop, or no later slot has the pid that the restart loop looks for. -/
def ReturnsLast (connectNum : ℕ) (args : List NSQArg) (t : ProcessTree) : TreeEvent → Prop
  | .returned who => ∀ p arg index caller, t.procs[who]? = some p →
      p.process.point = .subscribed arg index caller →
      { p.process with point := caller.resume index }.Harmless connectNum args
  | _ => True

/-! ## The slots of the workers -/

/-- The loop has passed a slot, or it looks for another pid. -/
def Caller.Passed (slot index : ℕ) (pid : ℤ) : Caller → Prop
  | .spawnLoop => index < slot
  | .restartLoop retPid => pid = retPid → index < slot

/-- The process does not use a slot again while its worker is there. -/
def WorkerPoint.Passed (index : ℕ) (pid : ℤ) : WorkerPoint → Prop
  | .spawning j => index < j
  | .scanning retPid k => pid = retPid → index < k
  | .forked _ slot _ caller => index ≠ slot ∧ caller.Passed slot index pid
  | .initialised _ slot _ caller => index ≠ slot ∧ caller.Passed slot index pid
  | _ => True

/-- The worker that is about to be inserted, and its slot. -/
def WorkerPoint.inserting : WorkerPoint → Option (ℕ × ℤ)
  | .forked _ slot pid _ => some (slot, pid)
  | .initialised _ slot pid _ => some (slot, pid)
  | _ => none

/-- **The slot of a worker** has its pid, or is about to, and is not used again while the worker is
there. -/
def WorkerProcess.Holds (s : WorkerProcess) (index : ℕ) (pid : ℤ) : Prop :=
  s.point.inserting = some (index, pid) ∨
    ((s.argArr index).pid = pid ∧ s.point.Passed index pid)

section Slots

variable {connectNum : ℕ} {args : List NSQArg} {s s' : WorkerProcess} {index : ℕ} {pid : ℤ}

/-- The slot of a worker that is about to be inserted is in use. -/
theorem WorkerPoint.not_passed {point : WorkerPoint}
    (inserting : point.inserting = some (index, pid)) (other : ℤ) : ¬ point.Passed index other := by
  intro passed
  cases point with
  | forked arg slot new caller =>
      obtain ⟨rfl, rfl⟩ : slot = index ∧ new = pid := by simpa using Option.some.inj inserting
      exact passed.1 rfl
  | initialised arg slot new caller =>
      obtain ⟨rfl, rfl⟩ : slot = index ∧ new = pid := by simpa using Option.some.inj inserting
      exact passed.1 rfl
  | _ => cases inserting

/-- Where no worker is about to be inserted, the slot has the pid. -/
theorem WorkerProcess.Holds.held (holds : s.Holds index pid) {point : WorkerPoint}
    (here : s.point = point) (idle : point.inserting = none) :
    (s.argArr index).pid = pid ∧ point.Passed index pid := by
  subst here
  rcases holds with inserting | held
  · cases idle.symm.trans inserting
  · exact held

/-- **A slot has one worker.** -/
theorem WorkerProcess.Holds.unique (holds : s.Holds index pid) {other : ℤ}
    (also : s.Holds index other) : pid = other := by
  rcases holds with inserting | ⟨held, passed⟩
  · rcases also with again | ⟨-, passed⟩
    · exact congrArg Prod.snd (Option.some.inj (inserting.symm.trans again))
    · exact absurd passed (WorkerPoint.not_passed inserting other)
  · rcases also with inserting | ⟨held', -⟩
    · exact absurd passed (WorkerPoint.not_passed inserting pid)
    · exact held.symm.trans held'

theorem Caller.Passed.resume {slot : ℕ} {caller : Caller} (passed : caller.Passed slot index pid) :
    (caller.resume slot).Passed index pid := by
  cases caller with
  | spawnLoop => exact Nat.lt_succ_of_lt passed
  | restartLoop retPid => exact fun same => Nat.lt_succ_of_lt (passed same)

/-- The slot that was just used is passed. -/
theorem Caller.passed_resume (index : ℕ) (pid : ℤ) (caller : Caller) :
    (caller.resume index).Passed index pid := by
  cases caller with
  | spawnLoop => exact Nat.lt_succ_self index
  | restartLoop retPid => exact fun _ => Nat.lt_succ_self index

/-- A slot stays with its worker when the process goes on. -/
theorem WorkerProcess.Holds.proceed (holds : s.Holds index pid)
    (goes : s.Proceeds connectNum args s') : s'.Holds index pid := by
  cases goes with
  | spawned j point _ =>
      obtain ⟨held, -⟩ := holds.held point rfl
      exact .inr ⟨held, trivial⟩
  | passed retPid k point _ _ =>
      obtain ⟨held, passed⟩ := holds.held point rfl
      exact .inr ⟨held, fun same => Nat.lt_succ_of_lt (passed same)⟩
  | scanned retPid k point _ =>
      obtain ⟨held, -⟩ := holds.held point rfl
      exact .inr ⟨held, trivial⟩
  | initialised arg slot new caller point =>
      rw [Holds, point] at holds
      rcases holds with inserting | ⟨held, passed⟩
      · exact .inl inserting
      · refine .inr ⟨?_, passed⟩
        change (s.init.argArr index).pid = pid
        rw [init_argArr, held]
  | inserted arg slot new caller point =>
      rw [Holds, point] at holds
      right
      change ((s.argArr.store slot [⟨new, arg⟩]) index).pid = pid ∧
        (caller.resume slot).Passed index pid
      rw [Cells.store_singleton]
      rcases holds with inserting | ⟨held, apart, passed⟩
      · obtain ⟨rfl, rfl⟩ : slot = index ∧ new = pid := by simpa using Option.some.inj inserting
        rw [if_pos rfl]
        exact ⟨rfl, caller.passed_resume slot new⟩
      · rw [if_neg apart]
        exact ⟨held, passed.resume⟩

/-- **The slot of a new worker is free**: the others keep theirs. -/
theorem WorkerProcess.Holds.fork (holds : s.Holds index pid) {arg : Option NSQArg} {slot : ℕ}
    {caller : Caller} (call : s.startWorkerProcess connectNum args = some (arg, slot, caller)) :
    index ≠ slot ∧ caller.Passed slot index pid ∧ (s.argArr index).pid = pid := by
  obtain ⟨-, ⟨point, rfl, -⟩ | ⟨retPid, point, rfl, same, -⟩⟩ := startWorkerProcess_cases call
  · obtain ⟨held, passed⟩ := holds.held point rfl
    exact ⟨Nat.ne_of_lt passed, passed, held⟩
  · obtain ⟨held, passed⟩ := holds.held point rfl
    refine ⟨?_, passed, held⟩
    rintro rfl
    exact absurd (passed (held.symm.trans same)) (lt_irrefl _)

end Slots

/-- The process at another point. -/
def TreeProcess.goTo (p : TreeProcess) (point : WorkerPoint) : TreeProcess :=
  { p with process := { p.process with point := point } }

namespace TreeSteps

variable {connectNum : ℕ} {args : List NSQArg} {t t' : ProcessTree} {who child : ℕ} {pid : ℤ}

theorem running_eq_some {p : TreeProcess} :
    t.running who = some p ↔ t.procs[who]? = some p ∧ p.life = .running := by
  rw [ProcessTree.running, Option.filter_eq_some_iff]
  exact and_congr_right fun _ => decide_eq_true_iff

/-- A process makes a step of its own. -/
theorem of_act {answer : Answer} (one : t.act connectNum args who answer = some t') :
    ∃ p process, t.procs[who]? = some p ∧ p.life = .running ∧
      p.process.step connectNum args answer = some process ∧
      t' = { t with procs := t.procs.set who { p with process := process } } := by
  rw [ProcessTree.act] at one
  split at one
  · cases one
  · next p here =>
      obtain ⟨process, local_step, rfl⟩ := Option.map_eq_some_iff.mp one
      obtain ⟨at_who, life⟩ := running_eq_some.mp here
      exact ⟨p, process, at_who, life, local_step, rfl⟩

/-- `fork` fails, or there is one process more. -/
theorem of_fork (one : TreeSteps connectNum args t (.fork who pid) t') :
    ∃ p arg index caller, t.procs[who]? = some p ∧ p.life = .running ∧
      p.process.startWorkerProcess connectNum args = some (arg, index, caller) ∧
      (t' = ⟨t.procs.set who (p.goTo (caller.resume index)), t.forkers ++ [who]⟩ ∨
        ((∀ q ∈ t.procs, q.life ≠ .reaped → q.process.pid ≠ pid) ∧
          t' = ⟨t.procs.set who (p.goTo (.forked arg index pid caller)) ++
              [⟨{ p.process with point := .subscribed arg index caller, pid := pid }, some who,
                .running⟩], t.forkers ++ [who]⟩)) := by
  rw [TreeSteps, ProcessTree.step] at one
  split at one
  · cases one
  · next p here =>
      obtain ⟨at_who, life⟩ := running_eq_some.mp here
      split at one
      · cases one
      · next arg index caller call =>
          refine ⟨p, arg, index, caller, at_who, life, call, ?_⟩
          split at one
          · next failed =>
              subst failed
              exact .inl (Option.some.inj one).symm
          · rw [Option.ite_none_right_eq_some] at one
            obtain ⟨⟨positive, fresh⟩, same⟩ := one
            obtain rfl := Option.some.inj same
            refine .inr ⟨fresh, ?_⟩
            rw [WorkerProcess.afterFork, if_neg (by omega), if_pos positive]
            rfl

theorem of_died (one : TreeSteps connectNum args t (.died who) t') :
    ∃ p, t.procs[who]? = some p ∧ p.life = .running ∧
      t' = { t with procs := t.procs.set who { p with life := .dead } } := by
  obtain ⟨p, here, rfl⟩ := Option.map_eq_some_iff.mp one
  obtain ⟨at_who, life⟩ := running_eq_some.mp here
  exact ⟨p, at_who, life, rfl⟩

/-- A process learns the pid of a child that is dead, and the child is gone. -/
theorem of_reaped (one : TreeSteps connectNum args t (.reaped who child) t') :
    ∃ c p, t.procs[child]? = some c ∧ c.life = .dead ∧ c.parent = some who ∧
      t.procs[who]? = some p ∧ p.life = .running ∧ p.process.point = .waiting ∧
      t' = { t with
        procs := (t.procs.set who (p.goTo (.scanning c.process.pid 0))).set child
          { c with life := .reaped } } := by
  rw [TreeSteps, ProcessTree.step] at one
  split at one
  · cases one
  · next c here =>
      rw [Option.ite_none_right_eq_some] at one
      obtain ⟨⟨dead, parent⟩, one⟩ := one
      obtain ⟨middle, acted, rfl⟩ := Option.map_eq_some_iff.mp one
      obtain ⟨p, process, at_who, life, local_step, rfl⟩ := of_act acted
      obtain ⟨point, rfl⟩ := WorkerProcess.step_reaped local_step
      exact ⟨c, p, here, dead, parent, at_who, life, point, rfl⟩

theorem of_inherited (one : TreeSteps connectNum args t (.inherited child) t') :
    ∃ c, t.procs[child]? = some c ∧ c.life = .dead ∧
      t' = { t with procs := t.procs.set child { c with life := .reaped } } := by
  rw [TreeSteps, ProcessTree.step] at one
  split at one
  · cases one
  · next c here =>
      rw [Option.ite_none_right_eq_some] at one
      exact ⟨c, here, one.1.1, (Option.some.inj one.2).symm⟩

end TreeSteps

/-! ## Harmless processes -/

section Harmless

variable {connectNum : ℕ} {args : List NSQArg} {s s' : WorkerProcess}

/-- A harmless process is not at `fork`. -/
theorem WorkerProcess.Harmless.not_start (harmless : s.Harmless connectNum args) :
    s.startWorkerProcess connectNum args = none := by
  rw [Harmless] at harmless
  rw [startWorkerProcess]
  split at harmless
  · next j point =>
      rw [point]
      exact if_neg (Nat.not_lt.mpr harmless)
  · next retPid k point =>
      rw [point]
      exact if_neg fun start => harmless k le_rfl start.1 start.2
  · exact harmless.elim
  · exact harmless.elim
  · next no_spawn no_scan _ _ =>
      split
      · next j point => exact absurd point (no_spawn j)
      · next retPid k point => exact absurd point (no_scan retPid k)
      · rfl

theorem Caller.resume_not_subscribed (caller : Caller) (index : ℕ) (arg : Option NSQArg)
    (slot : ℕ) (other : Caller) : caller.resume index ≠ .subscribed arg slot other := by
  cases caller with
  | spawnLoop => exact fun same => by cases same
  | restartLoop retPid => exact fun same => by cases same

/-- A process that goes on by itself keeps its pid, and does not come to work. -/
theorem WorkerProcess.Proceeds.idle (goes : s.Proceeds connectNum args s') : s'.pid = s.pid ∧
    ∀ arg index caller, s'.point ≠ .subscribed arg index caller := by
  cases goes with
  | spawned j point done => exact ⟨rfl, fun _ _ _ same => by cases same⟩
  | passed retPid k point inside other => exact ⟨rfl, fun _ _ _ same => by cases same⟩
  | scanned retPid k point done => exact ⟨rfl, fun _ _ _ same => by cases same⟩
  | initialised arg index pid caller point =>
      refine ⟨?_, fun _ _ _ same => by cases same⟩
      change s.init.pid = s.pid
      rw [init]
      split
      · rfl
      · rfl
  | inserted arg index pid caller point => exact ⟨rfl, caller.resume_not_subscribed index⟩

/-- It stays harmless. -/
theorem WorkerProcess.Harmless.proceed (harmless : s.Harmless connectNum args)
    (goes : s.Proceeds connectNum args s') : s'.Harmless connectNum args := by
  rw [Harmless] at harmless
  cases goes with
  | spawned j point done => trivial
  | passed retPid k point inside other =>
      rw [point] at harmless
      exact fun i behind => harmless i (by omega)
  | scanned retPid k point done => trivial
  | initialised arg index pid caller point =>
      rw [point] at harmless
      exact harmless.elim
  | inserted arg index pid caller point =>
      rw [point] at harmless
      exact harmless.elim

theorem TreeProcess.work_eq_some {p : TreeProcess} {index : ℕ} (works : p.work = some index) :
    p.life = .running ∧ ∃ arg caller, p.process.point = .subscribed arg index caller := by
  rw [TreeProcess.work] at works
  split at works
  · next arg slot caller life point =>
      obtain rfl := Option.some.inj works
      exact ⟨life, arg, caller, point⟩
  · cases works

/-- A worker is there. -/
theorem TreeProcess.not_reaped {p : TreeProcess} {index : ℕ} (works : p.work = some index) :
    p.life ≠ .reaped := by
  rw [(TreeProcess.work_eq_some works).1]
  decide

theorem TreeProcess.work_eq_none {p : TreeProcess}
    (idle : ∀ arg index caller, p.process.point ≠ .subscribed arg index caller) :
    p.work = none := by
  cases works : p.work with
  | none => rfl
  | some index =>
      obtain ⟨-, arg, caller, point⟩ := TreeProcess.work_eq_some works
      exact absurd point (idle arg index caller)

end Harmless

/-! ## The invariant -/

/-- **Only the first process starts workers**: the others are its children and harmless, their pids
are distinct as long as they are there, and every worker has its slot. -/
structure ProcessTree.Ruled (connectNum : ℕ) (args : List NSQArg) (t : ProcessTree)
    (root : TreeProcess) : Prop where
  root_at : t.procs[0]? = some root
  parentless : root.parent = none
  master : ∀ arg index caller, root.process.point ≠ .subscribed arg index caller
  children : ∀ i c, t.procs[i + 1]? = some c →
    c.parent = some 0 ∧ c.process.Harmless connectNum args
  pids : ∀ (i j : ℕ) (p q : TreeProcess), t.procs[i]? = some p → t.procs[j]? = some q →
    p.life ≠ .reaped → q.life ≠ .reaped → p.process.pid = q.process.pid → i = j
  slots : ∀ i c index, t.procs[i + 1]? = some c → c.work = some index →
    index < connectNum * args.length ∧ root.process.Holds index c.process.pid
  forkers : ∀ who ∈ t.forkers, who = 0

/-- An element of a list with one element replaced. -/
theorem getElem?_set_cases {α : Type*} {list : List α} {i k : ℕ} {value found : α}
    (at_k : (list.set i value)[k]? = some found) :
    (k = i ∧ found = value) ∨ (k ≠ i ∧ list[k]? = some found) := by
  rw [List.getElem?_set] at at_k
  split at at_k
  · next here =>
      rw [Option.ite_none_right_eq_some] at at_k
      exact .inl ⟨here.symm, (Option.some.inj at_k.2).symm⟩
  · next apart => exact .inr ⟨Ne.symm apart, at_k⟩

/-- An element of a list with one element more. -/
theorem getElem?_concat_cases {α : Type*} {list : List α} {k : ℕ} {value found : α}
    (at_k : (list ++ [value])[k]? = some found) :
    list[k]? = some found ∨ (k = list.length ∧ found = value) := by
  rw [List.getElem?_append] at at_k
  split at at_k
  · exact .inl at_k
  · next behind =>
      obtain ⟨bound, rfl⟩ := List.getElem?_eq_some_iff.mp at_k
      rw [List.length_singleton] at bound
      exact .inr ⟨by omega, List.getElem_singleton _⟩

namespace ProcessTree.Ruled

variable {connectNum : ℕ} {args : List NSQArg} {t : ProcessTree} {root : TreeProcess}

/-- Pids stay distinct when a process keeps its pid. -/
theorem pids_set (ruled : t.Ruled connectNum args root) {who : ℕ} {p p' : TreeProcess}
    (here : t.procs[who]? = some p) (pid : p'.process.pid = p.process.pid)
    (life : p.life = .reaped → p'.life = .reaped) (i j : ℕ) (q r : TreeProcess)
    (at_i : (t.procs.set who p')[i]? = some q) (at_j : (t.procs.set who p')[j]? = some r)
    (there : q.life ≠ .reaped) (there' : r.life ≠ .reaped)
    (same : q.process.pid = r.process.pid) : i = j := by
  have before : ∀ (k : ℕ) (x : TreeProcess), (t.procs.set who p')[k]? = some x → x.life ≠ .reaped →
      ∃ y, t.procs[k]? = some y ∧ y.life ≠ .reaped ∧ y.process.pid = x.process.pid := by
    intro k x at_k alive
    rcases getElem?_set_cases at_k with ⟨rfl, rfl⟩ | ⟨-, at_k⟩
    · exact ⟨p, here, fun gone => alive (life gone), pid.symm⟩
    · exact ⟨x, at_k, alive, rfl⟩
  obtain ⟨y, at_y, alive, pid_y⟩ := before i q at_i there
  obtain ⟨z, at_z, alive', pid_z⟩ := before j r at_j there'
  exact ruled.pids i j y z at_y at_z alive alive' (pid_y.trans (same.trans pid_z.symm))

/-- **A child moves** without coming to work. -/
theorem child (ruled : t.Ruled connectNum args root) {i : ℕ} {c c' : TreeProcess}
    (here : t.procs[i + 1]? = some c) (parent : c'.parent = c.parent)
    (harmless : c'.process.Harmless connectNum args) (pid : c'.process.pid = c.process.pid)
    (life : c.life = .reaped → c'.life = .reaped) (idle : c'.work = none) :
    Ruled connectNum args { t with procs := t.procs.set (i + 1) c' } root where
  root_at := by
    rw [List.getElem?_set_ne (Nat.succ_ne_zero i)]
    exact ruled.root_at
  parentless := ruled.parentless
  master := ruled.master
  children := by
    intro k d at_k
    rcases getElem?_set_cases at_k with ⟨-, rfl⟩ | ⟨-, at_k⟩
    · exact ⟨parent.trans (ruled.children i c here).1, harmless⟩
    · exact ruled.children k d at_k
  pids := ruled.pids_set here pid life
  slots := by
    intro k d index at_k works
    rcases getElem?_set_cases at_k with ⟨-, rfl⟩ | ⟨-, at_k⟩
    · cases idle.symm.trans works
    · exact ruled.slots k d index at_k works
  forkers := ruled.forkers

/-- **The first process moves**, and the workers keep their slots. -/
theorem moves (ruled : t.Ruled connectNum args root) (root' : TreeProcess)
    (parent : root'.parent = root.parent)
    (master : ∀ arg index caller, root'.process.point ≠ .subscribed arg index caller)
    (pid : root'.process.pid = root.process.pid)
    (life : root.life = .reaped → root'.life = .reaped)
    (slots : ∀ i c index, t.procs[i + 1]? = some c → c.work = some index →
      root'.process.Holds index c.process.pid) {forkers : List ℕ}
    (first : ∀ who ∈ forkers, who = 0) :
    Ruled connectNum args ⟨t.procs.set 0 root', forkers⟩ root' where
  root_at := List.getElem?_set_self (List.getElem?_eq_some_iff.mp ruled.root_at).1
  parentless := parent.trans ruled.parentless
  master := master
  children := by
    intro k d at_k
    rw [List.getElem?_set_ne (Nat.succ_ne_zero k).symm] at at_k
    exact ruled.children k d at_k
  pids := ruled.pids_set ruled.root_at pid life
  slots := by
    intro k d index at_k works
    rw [List.getElem?_set_ne (Nat.succ_ne_zero k).symm] at at_k
    exact ⟨(ruled.slots k d index at_k works).1, slots k d index at_k works⟩
  forkers := first

/-- **A worker is started** for a slot. -/
theorem append (ruled : t.Ruled connectNum args root) {c : TreeProcess} {slot : ℕ}
    (parent : c.parent = some 0) (harmless : c.process.Harmless connectNum args)
    (fresh : ∀ q ∈ t.procs, q.life ≠ .reaped → q.process.pid ≠ c.process.pid)
    (work : c.work = some slot) (inside : slot < connectNum * args.length)
    (holds : root.process.Holds slot c.process.pid) :
    Ruled connectNum args { t with procs := t.procs ++ [c] } root where
  root_at := by
    rw [List.getElem?_append_left (List.getElem?_eq_some_iff.mp ruled.root_at).1]
    exact ruled.root_at
  parentless := ruled.parentless
  master := ruled.master
  children := by
    intro k d at_k
    rcases getElem?_concat_cases at_k with before | ⟨-, rfl⟩
    · exact ruled.children k d before
    · exact ⟨parent, harmless⟩
  pids := by
    intro i j p q at_i at_j there there' same
    rcases getElem?_concat_cases at_i with before | ⟨place, rfl⟩
    · rcases getElem?_concat_cases at_j with before' | ⟨-, rfl⟩
      · exact ruled.pids i j p q before before' there there' same
      · exact absurd same (fresh p (List.mem_of_getElem? before) there)
    · rcases getElem?_concat_cases at_j with before' | ⟨place', rfl⟩
      · exact absurd same.symm (fresh q (List.mem_of_getElem? before') there')
      · exact place.trans place'.symm
  slots := by
    intro k d index at_k works
    rcases getElem?_concat_cases at_k with before | ⟨-, rfl⟩
    · exact ruled.slots k d index before works
    · obtain rfl := Option.some.inj (work.symm.trans works)
      exact ⟨inside, holds⟩
  forkers := ruled.forkers

/-- A step of a process of its own, that keeps its pid and does not make it a worker. -/
theorem act (ruled : t.Ruled connectNum args root) {who : ℕ} {p : TreeProcess}
    {process : WorkerProcess} (here : t.procs[who]? = some p) (life : p.life = .running)
    (pid : process.pid = p.process.pid)
    (idle : ∀ arg index caller, process.point ≠ .subscribed arg index caller)
    (harmless : p.process.Harmless connectNum args → process.Harmless connectNum args)
    (slots : who = 0 → ∀ index pid, p.process.Holds index pid → process.Holds index pid) :
    ∃ root', Ruled connectNum args
      { t with procs := t.procs.set who { p with process := process } } root' := by
  cases who with
  | zero =>
      obtain rfl := Option.some.inj (ruled.root_at.symm.trans here)
      exact ⟨_, ruled.moves { root with process := process } rfl idle pid (fun gone => gone)
        (fun i c index at_i works => slots rfl index _ (ruled.slots i c index at_i works).2)
        ruled.forkers⟩
  | succ i =>
      have settled := harmless (ruled.children i p here).2
      exact ⟨root, ruled.child here rfl settled pid (fun gone => gone)
        (TreeProcess.work_eq_none idle)⟩

/-- **A process at `fork` is the first.** -/
theorem who_eq_zero (ruled : t.Ruled connectNum args root) {who : ℕ} {p : TreeProcess}
    (here : t.procs[who]? = some p) {call : Option NSQArg × ℕ × Caller}
    (starts : p.process.startWorkerProcess connectNum args = some call) : who = 0 := by
  cases who with
  | zero => rfl
  | succ i =>
      have never := (ruled.children i p here).2.not_start
      cases never.symm.trans starts

/-- **A worker is started**, or `fork` fails. -/
theorem fork (ruled : t.Ruled connectNum args root) {who : ℕ} {pid : ℤ} {t' : ProcessTree}
    (one : TreeSteps connectNum args t (.fork who pid) t') :
    ∃ root', t'.Ruled connectNum args root' := by
  obtain ⟨p, arg, index, caller, here, life, call, outcome⟩ := one.of_fork
  obtain rfl := ruled.who_eq_zero here call
  obtain rfl := Option.some.inj (ruled.root_at.symm.trans here)
  have first : ∀ who ∈ t.forkers ++ [0], who = 0 := by
    intro who member
    rcases List.mem_append.mp member with before | now
    · exact ruled.forkers who before
    · exact List.mem_singleton.mp now
  -- the slots of the other workers are not this one
  have others : ∀ i c slot, t.procs[i + 1]? = some c → c.work = some slot →
      slot ≠ index ∧ caller.Passed index slot c.process.pid ∧
        (root.process.argArr slot).pid = c.process.pid :=
    fun i c slot at_i works => (ruled.slots i c slot at_i works).2.fork call
  rcases outcome with rfl | ⟨fresh, rfl⟩
  · refine ⟨_, ruled.moves (root.goTo (caller.resume index)) rfl
      (caller.resume_not_subscribed index) rfl (fun gone => gone) ?_ first⟩
    intro i c slot at_i works
    obtain ⟨-, passed, held⟩ := others i c slot at_i works
    exact .inr ⟨held, passed.resume⟩
  · have moved : Ruled connectNum args
        ⟨t.procs.set 0 (root.goTo (.forked arg index pid caller)), t.forkers ++ [0]⟩
        (root.goTo (.forked arg index pid caller)) := by
      refine ruled.moves (root.goTo (.forked arg index pid caller)) rfl
        (fun _ _ _ same => by cases same) rfl (fun gone => gone) ?_ first
      intro i c slot at_i works
      obtain ⟨apart, passed, held⟩ := others i c slot at_i works
      exact .inr ⟨held, apart, passed⟩
    refine ⟨_, moved.append rfl trivial ?_ rfl
      (WorkerProcess.startWorkerProcess_cases call).1 (.inl rfl)⟩
    intro q member there
    rcases List.mem_or_eq_of_mem_set member with before | rfl
    · exact fresh q before there
    · exact fresh root (List.mem_of_getElem? ruled.root_at) there

/-- **A worker is reaped**, and no other has its pid. -/
theorem reaped (ruled : t.Ruled connectNum args root) {who child : ℕ} {t' : ProcessTree}
    (one : TreeSteps connectNum args t (.reaped who child) t') :
    ∃ root', t'.Ruled connectNum args root' := by
  obtain ⟨c, p, at_child, dead, parent, at_who, life, point, rfl⟩ := one.of_reaped
  cases child with
  | zero =>
      obtain rfl := Option.some.inj (ruled.root_at.symm.trans at_child)
      cases ruled.parentless.symm.trans parent
  | succ i =>
      obtain ⟨from_root, harmless⟩ := ruled.children i c at_child
      obtain rfl := Option.some.inj (from_root.symm.trans parent)
      obtain rfl := Option.some.inj (ruled.root_at.symm.trans at_who)
      have moved : Ruled connectNum args
          ⟨t.procs.set 0 (root.goTo (.scanning c.process.pid 0)), t.forkers⟩
          (root.goTo (.scanning c.process.pid 0)) := by
        refine ruled.moves (root.goTo (.scanning c.process.pid 0)) rfl
          (fun _ _ _ same => by cases same) rfl (fun gone => gone) ?_ ruled.forkers
        intro k d index at_k works
        obtain ⟨held, -⟩ := (ruled.slots k d index at_k works).2.held point rfl
        refine .inr ⟨held, fun same => ?_⟩
        -- a worker with the same pid would be the one that is dead
        have place := ruled.pids (k + 1) (i + 1) d c at_k at_child
          (TreeProcess.not_reaped works) (by rw [dead]; decide) same
        rw [place, at_child] at at_k
        obtain rfl := Option.some.inj at_k
        cases (TreeProcess.work_eq_some works).1.symm.trans dead
      have still : (t.procs.set 0 (root.goTo (.scanning c.process.pid 0)))[i + 1]? = some c := by
        rw [List.getElem?_set_ne (Nat.succ_ne_zero i).symm]
        exact at_child
      have gone : ({ c with life := .reaped } : TreeProcess).work = none := rfl
      exact ⟨_, moved.child still rfl harmless rfl (fun _ => rfl) gone⟩

/-- A process is dead, or gone, and nothing else about it changes. -/
theorem ends (ruled : t.Ruled connectNum args root) {who : ℕ} {p : TreeProcess} {life : Life}
    (here : t.procs[who]? = some p) (later : p.life = .reaped → life = .reaped)
    (stopped : life ≠ .running) :
    ∃ root', Ruled connectNum args { t with procs := t.procs.set who { p with life := life } }
      root' := by
  cases who with
  | zero =>
      obtain rfl := Option.some.inj (ruled.root_at.symm.trans here)
      exact ⟨_, ruled.moves { root with life := life } rfl ruled.master rfl later
        (fun i c index at_i works => (ruled.slots i c index at_i works).2) ruled.forkers⟩
  | succ i =>
      have idle : ({ p with life := life } : TreeProcess).work = none := by
        cases works : ({ p with life := life } : TreeProcess).work with
        | none => rfl
        | some index => exact absurd (TreeProcess.work_eq_some works).1 stopped
      exact ⟨root, ruled.child here rfl (ruled.children i p here).2 rfl later idle⟩

/-- **Every event keeps the invariant**, as long as workers return last. -/
theorem step (ruled : t.Ruled connectNum args root) {event : TreeEvent} {t' : ProcessTree}
    (returns : ReturnsLast connectNum args t event) (one : TreeSteps connectNum args t event t') :
    ∃ root', t'.Ruled connectNum args root' := by
  cases event with
  | proceed who =>
      obtain ⟨p, process, here, life, goes, rfl⟩ := TreeSteps.of_act one
      have moves := WorkerProcess.proceeds_of_proceed goes
      exact ruled.act here life moves.idle.1 moves.idle.2 (fun harmless => harmless.proceed moves)
        (fun _ _ _ holds => holds.proceed moves)
  | fork who pid => exact ruled.fork one
  | died who =>
      obtain ⟨p, here, life, rfl⟩ := one.of_died
      refine ruled.ends here ?_ (by decide)
      intro gone
      cases life.symm.trans gone
  | reaped who child => exact ruled.reaped one
  | inherited child =>
      obtain ⟨c, here, -, rfl⟩ := one.of_inherited
      exact ruled.ends here (fun _ => rfl) (by decide)
  | interrupted who =>
      obtain ⟨p, process, here, life, waits, rfl⟩ := TreeSteps.of_act one
      obtain ⟨point, rfl⟩ := WorkerProcess.step_interrupted waits
      exact ruled.act here life rfl (by rw [point]; exact fun _ _ _ same => by cases same)
        (fun harmless => harmless) (fun _ _ _ holds => holds)
  | noChild who =>
      rw [TreeSteps, ProcessTree.step, Option.ite_none_right_eq_some] at one
      obtain ⟨p, process, here, life, leaves, rfl⟩ := TreeSteps.of_act one.2
      obtain ⟨point, rfl⟩ := WorkerProcess.step_noChild leaves
      refine ruled.act here life rfl (fun _ _ _ same => by cases same) (fun _ => trivial) ?_
      intro _ index pid holds
      exact .inr ⟨(holds.held point rfl).1, trivial⟩
  | returned who =>
      obtain ⟨p, process, here, life, comes_back, rfl⟩ := TreeSteps.of_act one
      obtain ⟨arg, index, caller, point, rfl⟩ := WorkerProcess.step_returned comes_back
      have harmless := returns p arg index caller here point
      refine ruled.act here life rfl (caller.resume_not_subscribed index) (fun _ => harmless) ?_
      rintro rfl
      obtain rfl := Option.some.inj (ruled.root_at.symm.trans here)
      exact absurd point (ruled.master arg index caller)

/-- A process that works is not the first, and has its slot. -/
theorem slot_of_work (ruled : t.Ruled connectNum args root) {k index : ℕ} {p : TreeProcess}
    (at_k : t.procs[k]? = some p) (works : p.work = some index) :
    index < connectNum * args.length ∧ root.process.Holds index p.process.pid := by
  cases k with
  | zero =>
      obtain rfl := Option.some.inj (ruled.root_at.symm.trans at_k)
      obtain ⟨-, arg, caller, point⟩ := TreeProcess.work_eq_some works
      exact absurd point (ruled.master arg index caller)
  | succ k => exact ruled.slots k p index at_k works

/-- **No slot has two workers.** -/
theorem workers_nodup (ruled : t.Ruled connectNum args root) : t.workers.Nodup := by
  rw [ProcessTree.workers, List.Nodup, List.pairwise_filterMap, List.pairwise_iff_getElem]
  intro i j bound bound' before index works index' works' same
  subst same
  have at_i : t.procs[i]? = some t.procs[i] := List.getElem?_eq_getElem bound
  have at_j : t.procs[j]? = some t.procs[j] := List.getElem?_eq_getElem bound'
  have holds := (ruled.slot_of_work at_i works).2
  have holds' := (ruled.slot_of_work at_j works').2
  have place := ruled.pids i j _ _ at_i at_j (TreeProcess.not_reaped works)
    (TreeProcess.not_reaped works') (holds.unique holds')
  omega

/-- Every worker has a slot. -/
theorem workers_lt (ruled : t.Ruled connectNum args root) :
    ∀ index ∈ t.workers, index < connectNum * args.length := by
  intro index member
  obtain ⟨p, here, works⟩ := List.mem_filterMap.mp member
  obtain ⟨k, at_k⟩ := List.getElem?_of_mem here
  exact (ruled.slot_of_work at_k works).1

end ProcessTree.Ruled

/-- A new tree has one process. -/
theorem ProcessTree.Ruled.initial (connectNum : ℕ) (args : List NSQArg) (pid : ℤ)
    (memory : Cells ArgPid) (count : ℕ) :
    (ProcessTree.initial pid memory count).Ruled connectNum args
      ⟨.initial pid memory count, none, .running⟩ where
  root_at := rfl
  parentless := rfl
  master := fun _ _ _ same => by cases same
  children := by
    intro i c at_i
    cases at_i
  pids := by
    intro i j p q at_i at_j _ _ _
    have one : ∀ (k : ℕ) (r : TreeProcess),
        (ProcessTree.initial pid memory count).procs[k]? = some r → k = 0 := by
      intro k r at_k
      have bound := (List.getElem?_eq_some_iff.mp at_k).1
      exact Nat.lt_one_iff.mp bound
    rw [one i p at_i, one j q at_j]
  slots := by
    intro i c index at_i
    cases at_i
  forkers := fun who member => absurd member List.not_mem_nil

/-- **Only the first process calls `fork`**, and there are never more workers than slots, in every
run in which `subscribe(&arg)` returns only where nothing is left to start. -/
theorem only_first_forks {connectNum : ℕ} {args : List NSQArg} {pid : ℤ} {memory : Cells ArgPid}
    {events : List TreeEvent} {last : ProcessTree}
    (run : Run (guarded (ReturnsLast connectNum args) (TreeSteps connectNum args))
      (.initial pid memory args.length) events last) :
    (∀ who ∈ last.forkers, who = 0) ∧ last.workers.length ≤ connectNum * args.length := by
  obtain ⟨root, ruled⟩ : ∃ root, last.Ruled connectNum args root := by
    apply run.invariant (fun _ t => ∃ root, t.Ruled connectNum args root)
    · rintro taken state event next ⟨root, ruled⟩ ⟨returns, one⟩
      exact ruled.step returns one
    · exact ⟨_, .initial connectNum args pid memory args.length⟩
  refine ⟨ruled.forkers, ?_⟩
  have among : last.workers ⊆ List.range (connectNum * args.length) :=
    fun index member => List.mem_range.mpr (ruled.workers_lt index member)
  have bound := (ruled.workers_nodup.subperm among).length_le
  rwa [List.length_range] at bound

/-- The worker for the last producer comes back. -/
def lastReturns : List TreeEvent :=
  [.fork 0 100, .proceed 0, .proceed 0, .fork 0 101, .returned 2, .proceed 2, .noChild 2]

theorem only_first_forks_lastReturns :
    ∃ last, Run (guarded (ReturnsLast 1 twoArgs) (TreeSteps 1 twoArgs))
        (.initial 99 (fun _ => ⟨7, none⟩) twoArgs.length) lastReturns last ∧
      (∀ who ∈ last.forkers, who = 0) ∧ last.workers.length ≤ 1 * twoArgs.length := by
  obtain ⟨last, run⟩ : ∃ last, Run (guarded (ReturnsLast 1 twoArgs) (TreeSteps 1 twoArgs))
      (.initial 99 (fun _ => ⟨7, none⟩) twoArgs.length) lastReturns last := by
    refine ⟨_, _, ⟨trivial, rfl⟩, _, ⟨trivial, rfl⟩, _, ⟨trivial, rfl⟩, _, ⟨trivial, rfl⟩,
      _, ⟨?_, rfl⟩, _, ⟨trivial, rfl⟩, _, ⟨trivial, rfl⟩, rfl⟩
    intro p arg index caller at_who point
    obtain rfl := Option.some.inj at_who
    cases point
    exact le_refl 2
  exact ⟨last, run, only_first_forks run⟩

/-- The worker for the first producer comes back, starts one for the second, and dies. -/
def firstReturns : List TreeEvent :=
  [.fork 0 100, .returned 1, .fork 1 101, .died 1, .proceed 0, .proceed 0, .fork 0 102, .proceed 0,
    .proceed 0, .proceed 0, .reaped 0 1, .fork 0 103]

/-- **A worker that comes back early calls `fork`**, and in the end there are three workers for two
producers. -/
theorem not_only_first_forks_firstReturns :
    ∃ last, Run (TreeSteps 1 twoArgs) (.initial 99 (fun _ => ⟨7, none⟩) twoArgs.length)
        firstReturns last ∧ last.forkers = [0, 1, 0, 0] ∧ last.workers = [1, 1, 0] ∧
      (¬ ∀ who ∈ last.forkers, who = 0) ∧ ¬ last.workers.length ≤ 1 * twoArgs.length := by
  obtain ⟨last, run, forkers, workers⟩ : ∃ last, Run (TreeSteps 1 twoArgs)
      (.initial 99 (fun _ => ⟨7, none⟩) twoArgs.length) firstReturns last ∧
      last.forkers = [0, 1, 0, 0] ∧ last.workers = [1, 1, 0] :=
    ⟨_, ⟨_, rfl, _, rfl, _, rfl, _, rfl, _, rfl, _, rfl, _, rfl, _, rfl, _, rfl, _, rfl, _, rfl,
      _, rfl, rfl⟩, rfl, rfl⟩
  refine ⟨last, run, forkers, workers, ?_, ?_⟩
  · rw [forkers]
    decide
  · rw [workers]
    decide

end PhpNsq
