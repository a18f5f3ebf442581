import PhpNsq.Nsq.Workers

/-!
# The table of the workers

`arg_arr` is allocated with one entry for every producer. The spawn loop starts a worker for every
producer in each of `connect_num` passes and counts them in `j`, and the restart loop goes
through as many entries with its counter `k`. So both loops use the same indices, each of
them once (`spawnIndices`, `scanIndices`).

They are the indices that the steps of a process use (`spawning_iff`, `scanning_iff`). In every
run a process stays inside the table, and the spawn loop uses it up, exactly when
`connect_num` is one (`workerTable_iff`).
-/

set_option autoImplicit false

namespace PhpNsq

open Foundations

/-! ## The loops -/

/-- The indices that were used, and the counter. -/
structure Counting where
  used : List ℕ
  counter : ℕ

/-- The innermost body of the loops: use the counter and increment it. -/
def Counting.pass (s : Counting) : Counting := ⟨s.used ++ [s.counter], s.counter + 1⟩

/-- Two nested loops over a counter that neither of them resets. -/
def countedLoops (outer inner : ℕ) : List ℕ :=
  ((List.range outer).foldl (fun s _ => (List.range inner).foldl (fun s _ => s.pass) s)
    (⟨[], 0⟩ : Counting)).used

/-- The values of `j` that the spawn loop passes to `start_worker_process`. -/
def spawnIndices (connectNum producersCount : ℕ) : List ℕ := countedLoops connectNum producersCount

/-- The values of `k` that the restart loop looks at. -/
def scanIndices (connectNum nsqdNum : ℕ) : List ℕ := countedLoops connectNum nsqdNum

/-- The inner loop. -/
theorem counting_inner (start inner : ℕ) :
    (List.range inner).foldl (fun s _ => s.pass) (⟨List.range start, start⟩ : Counting) =
      ⟨List.range (start + inner), start + inner⟩ := by
  induction inner with
  | zero => rfl
  | succ inner ih =>
      rw [List.range_succ, List.foldl_append, ih, List.foldl_cons, List.foldl_nil, Counting.pass,
        ← List.range_succ]
      rfl

/-- **The loops count through the table.** -/
theorem countedLoops_eq (outer inner : ℕ) : countedLoops outer inner = List.range (outer * inner) := by
  have both : (List.range outer).foldl (fun s _ => (List.range inner).foldl (fun s _ => s.pass) s)
      (⟨[], 0⟩ : Counting) = ⟨List.range (outer * inner), outer * inner⟩ := by
    induction outer with
    | zero => rw [Nat.zero_mul]; rfl
    | succ outer ih =>
        rw [List.range_succ, List.foldl_append, ih, List.foldl_cons, List.foldl_nil,
          counting_inner, Nat.succ_mul]
  rw [countedLoops, both]

theorem mem_spawnIndices {connectNum producersCount index : ℕ} :
    index ∈ spawnIndices connectNum producersCount ↔ index < connectNum * producersCount := by
  rw [spawnIndices, countedLoops_eq, List.mem_range]

theorem mem_scanIndices {connectNum nsqdNum index : ℕ} :
    index ∈ scanIndices connectNum nsqdNum ↔ index < connectNum * nsqdNum := by
  rw [scanIndices, countedLoops_eq, List.mem_range]

/-! ## The steps of a process -/

namespace WorkerProcess

/-- The entry that the process is about to use: it passes the index on, reads the entry, or stores
to it. An index that is passed on counts also when `fork` then fails and nothing is stored. -/
def used (connectNum : ℕ) (args : List NSQArg) (s : WorkerProcess) : Option ℕ :=
  match s.point with
  | .spawning j => if j < connectNum * args.length then some j else none
  | .scanning _ k => if k < connectNum * args.length then some k else none
  | .initialised _ index _ _ => some index
  | _ => none

/-- The steps of a process. -/
def Steps (connectNum : ℕ) (args : List NSQArg) (s : WorkerProcess) (answer : Answer)
    (s' : WorkerProcess) : Prop :=
  s.step connectNum args answer = some s'

variable {connectNum : ℕ} {args : List NSQArg} {s s' : WorkerProcess}

/-- The spawn loop starts a worker for each of its indices. -/
theorem spawning_iff {j : ℕ} (point : s.point = .spawning j) :
    (∃ arg, s.startWorkerProcess connectNum args = some (arg, j, .spawnLoop)) ↔
      j ∈ spawnIndices connectNum args.length := by
  rw [mem_spawnIndices, startWorkerProcess, point]
  by_cases inside : j < connectNum * args.length
  · simp [inside]
  · simp [inside]

/-- The restart loop looks at each of its own. -/
theorem scanning_iff {retPid : ℤ} {k : ℕ} (point : s.point = .scanning retPid k) :
    s.used connectNum args = some k ↔ k ∈ scanIndices connectNum args.length := by
  rw [mem_scanIndices, used, point]
  by_cases inside : k < connectNum * args.length
  · simp [inside]
  · simp [inside]

/-- A worker that is being started has an index of the loops. -/
def Indexed (connectNum : ℕ) (args : List NSQArg) (s : WorkerProcess) : Prop :=
  match s.point with
  | .forked _ index _ _ => index < connectNum * args.length
  | .initialised _ index _ _ => index < connectNum * args.length
  | _ => True

/-- Behind `start_worker_process` nothing is being started. -/
theorem indexed_resume {index : ℕ} {caller : Caller} (point : s.point = caller.resume index) :
    s.Indexed connectNum args := by
  rw [Indexed, point]
  cases caller with
  | spawnLoop => trivial
  | restartLoop retPid => trivial

/-- What a process does by itself keeps to the indices of the loops. -/
theorem Indexed.proceed (indexed : s.Indexed connectNum args)
    (goes : s.Proceeds connectNum args s') : s'.Indexed connectNum args := by
  cases goes with
  | spawned j point done => trivial
  | passed retPid k point inside other => trivial
  | scanned retPid k point done => trivial
  | initialised arg index pid caller point =>
      rw [Indexed, point] at indexed
      exact indexed
  | inserted arg index pid caller point => exact indexed_resume rfl

/-- So does `fork`. -/
theorem indexed_afterFork {arg : Option NSQArg} {index : ℕ} {caller : Caller}
    (call : s.startWorkerProcess connectNum args = some (arg, index, caller)) (pid : ℤ) :
    (s.afterFork arg index caller pid).Indexed connectNum args := by
  have inside := (startWorkerProcess_cases call).1
  rw [afterFork]
  split
  · trivial
  · split
    · exact inside
    · exact indexed_resume rfl

/-- **A step keeps to the indices of the loops.** -/
theorem Indexed.step (indexed : s.Indexed connectNum args) {answer : Answer}
    (one : Steps connectNum args s answer s') : s'.Indexed connectNum args := by
  cases answer with
  | proceed => exact indexed.proceed (proceeds_of_proceed one)
  | fork result =>
      obtain ⟨⟨arg, index, caller⟩, call, rfl⟩ := Option.map_eq_some_iff.mp one
      exact indexed_afterFork call result
  | reaped pid =>
      obtain ⟨-, rfl⟩ := step_reaped one
      trivial
  | interrupted =>
      obtain ⟨-, rfl⟩ := step_interrupted one
      exact indexed
  | noChild =>
      obtain ⟨-, rfl⟩ := step_noChild one
      trivial
  | returned =>
      obtain ⟨arg, index, caller, -, rfl⟩ := step_returned one
      exact indexed_resume rfl

/-- So does a process in every run. -/
theorem used_lt {pid : ℤ} {memory : Cells ArgPid} {answers : List Answer} {last : WorkerProcess}
    (run : Run (Steps connectNum args) (.initial pid memory args.length) answers last) {index : ℕ}
    (uses : last.used connectNum args = some index) : index < connectNum * args.length := by
  have indexed : last.Indexed connectNum args := by
    apply run.invariant (fun _ s => s.Indexed connectNum args)
    · exact fun _ _ _ _ indexed one => indexed.step one
    · trivial
  rw [used] at uses
  split at uses
  · obtain ⟨inside, same⟩ := Option.ite_none_right_eq_some.mp uses
    exact Option.some.inj same ▸ inside
  · obtain ⟨inside, same⟩ := Option.ite_none_right_eq_some.mp uses
    exact Option.some.inj same ▸ inside
  · next arg index' pid caller point =>
      obtain rfl := Option.some.inj uses
      rwa [Indexed, point] at indexed
  · cases uses

end WorkerProcess

/-- **The table is right**: no process ever uses an entry outside it, the spawn loop uses each index
once, and the restart loop looks at the indices of the spawn loop. -/
structure WorkerTable (connectNum : ℕ) (args : List NSQArg) : Prop where
  inside : ∀ (pid : ℤ) (memory : Cells ArgPid) (answers : List Answer) (last : WorkerProcess),
    Run (WorkerProcess.Steps connectNum args) (.initial pid memory args.length) answers last →
    ∀ index, last.used connectNum args = some index → index < args.length
  once : (spawnIndices connectNum args.length).Nodup ∧
    ∀ index < args.length, index ∈ spawnIndices connectNum args.length
  scanned : ∀ index, index ∈ scanIndices connectNum args.length ↔
    index ∈ spawnIndices connectNum args.length

section Table

variable {connectNum : ℕ} {args : List NSQArg}

/-- Where every `fork` fails, the spawn loop goes on to any of its indices. -/
theorem exists_spawning (pid : ℤ) (memory : Cells ArgPid) {j : ℕ}
    (inside : j ≤ connectNum * args.length) :
    ∃ last, Run (WorkerProcess.Steps connectNum args) (.initial pid memory args.length)
        (List.replicate j (.fork (-1))) last ∧ last.point = .spawning j := by
  induction j with
  | zero => exact ⟨_, rfl, rfl⟩
  | succ j ih =>
      obtain ⟨middle, run, point⟩ := ih (by omega)
      obtain ⟨arg, call⟩ := (WorkerProcess.spawning_iff point).mpr (mem_spawnIndices.mpr inside)
      have failed : WorkerProcess.Steps connectNum args middle (.fork (-1))
          { middle with point := .spawning (j + 1) } := by
        rw [WorkerProcess.Steps, WorkerProcess.step, call]
        rfl
      rw [List.replicate_succ']
      exact ⟨_, run_append.mpr ⟨middle, run, run_singleton.mpr failed⟩, rfl⟩

/-- **The table of the workers** is right exactly when `connect_num` is one. -/
theorem workerTable_iff (some_producer : args ≠ []) (positive : 1 ≤ connectNum) :
    WorkerTable connectNum args ↔ connectNum = 1 := by
  have producers : 0 < args.length := List.length_pos_iff.mpr some_producer
  constructor
  · intro table
    by_contra several
    have room : args.length < connectNum * args.length := by
      have two : 2 * args.length ≤ connectNum * args.length :=
        Nat.mul_le_mul_right _ (by omega)
      omega
    obtain ⟨last, run, point⟩ := exists_spawning 1 (fun _ => ⟨0, none⟩) room.le
    have uses : last.used connectNum args = some args.length := by
      rw [WorkerProcess.used, point]
      exact if_pos room
    exact absurd (table.inside _ _ _ _ run _ uses) (Nat.lt_irrefl _)
  · rintro rfl
    constructor
    · intro pid memory answers last run index uses
      have inside := WorkerProcess.used_lt run uses
      rwa [Nat.one_mul] at inside
    · constructor
      · rw [spawnIndices, countedLoops_eq]
        exact List.nodup_range
      · intro index inside
        rwa [mem_spawnIndices, Nat.one_mul]
    · intro index
      rw [mem_scanIndices, mem_spawnIndices]

end Table

/-- Two producers, with one connection each. -/
theorem workerTable_one : WorkerTable 1 twoArgs :=
  (workerTable_iff (by simp [twoArgs]) le_rfl).mpr rfl

/-- Three workers are started. -/
def threeForks : List Answer :=
  [.fork 101, .proceed, .proceed, .fork 102, .proceed, .proceed, .fork 103, .proceed]

/-- With two connections for each of two producers, the third worker is stored behind the table. -/
theorem not_workerTable_two :
    (∃ last, Run (WorkerProcess.Steps 2 twoArgs) (.initial 99 (fun _ => ⟨7, none⟩) twoArgs.length)
        threeForks last ∧
      ∃ arg, last.point = .initialised arg 2 103 .spawnLoop) ∧
      ¬ WorkerTable 2 twoArgs := by
  obtain ⟨last, run, arg, point⟩ : ∃ last, Run (WorkerProcess.Steps 2 twoArgs)
      (.initial 99 (fun _ => ⟨7, none⟩) twoArgs.length) threeForks last ∧
        ∃ arg, last.point = .initialised arg 2 103 .spawnLoop :=
    ⟨_, ⟨_, rfl, _, rfl, _, rfl, _, rfl, _, rfl, _, rfl, _, rfl, _, rfl, rfl⟩, _, rfl⟩
  refine ⟨⟨last, run, arg, point⟩, fun table => ?_⟩
  have uses : last.used 2 twoArgs = some 2 := by rw [WorkerProcess.used, point]
  exact absurd (table.inside _ _ _ _ run _ uses) (by decide)

end PhpNsq
