import RTuinOS.Kernel
import RTuinOS.Context

/-!
The start of the kernel: `rtos_initializeTask`, called by the application's `setup()` for every
task, and `rtos_initRTOS` up to its idle loop. A failed `ASSERT` is `none`. The kernel starts with
every task suspended in index order, no due task, the idle task active and the system time at
`(uintTime_t)-1`, so that the first tick sees time 0.
-/
namespace RTuinOS
variable {w : Nat} (cfg : Config)

/-- The arguments of `rtos_initializeTask` for one task. -/
structure TaskInit (w : Nat) where
  taskFunction : Nat
  prioClass : Nat
  timeRoundRobin : BitVec w
  pStackArea : Nat
  stackSize : Nat
  startEventMask : BitVec 16
  startByAllEvents : Bool
  startTimeout : BitVec w

/-- `rtos_initializeTask` on a task's descriptor, at system time `time`. -/
def rtos_initializeTask (time : BitVec w) (t : Task w) (init : TaskInit w) : Option (Task w) :=
  let t := { t with taskFunction := init.taskFunction, pStackArea := init.pStackArea,
                    stackSize := init.stackSize, prioClass := init.prioClass }
  if init.startEventMask = 0 then none
  else
    let t := storeResumeCondition cfg time { t with cntDelay := 0, timeDueAt := 0 }
      init.startEventMask init.startByAllEvents init.startTimeout
    some { t with timeRoundRobin := init.timeRoundRobin }

theorem rtos_initializeTask_prioClass {time : BitVec w} {t t' : Task w} {init : TaskInit w}
    (ok : rtos_initializeTask cfg time t init = some t') : t'.prioClass = init.prioClass := by
  unfold rtos_initializeTask at ok
  split at ok
  · cases ok
  · cases ok; simp

/-- `rtos_initializeTask` stores the task's start condition as `rtos_waitForEvent` would. -/
theorem rtos_initializeTask_eq {time : BitVec w} {t t' : Task w} {init : TaskInit w}
    (ok : rtos_initializeTask cfg time t init = some t') :
    ∃ t0, t' = { storeResumeCondition cfg time t0 init.startEventMask init.startByAllEvents init.startTimeout with
      timeRoundRobin := init.timeRoundRobin } := by
  unfold rtos_initializeTask at ok
  split at ok
  · cases ok
  · cases ok; exact ⟨_,rfl⟩

/-- `rtos_initializeTask` takes the entry point and the stack from its arguments. -/
theorem rtos_initializeTask_fields {time : BitVec w} {t t' : Task w} {init : TaskInit w}
    (ok : rtos_initializeTask cfg time t init = some t') :
    t'.taskFunction = init.taskFunction ∧ t'.pStackArea = init.pStackArea ∧ t'.stackSize = init.stackSize := by
  unfold rtos_initializeTask at ok
  split at ok
  · cases ok
  · cases ok
    unfold storeResumeCondition
    split_ifs <;> exact ⟨rfl,rfl,rfl⟩

/-- `rtos_initializeTask` passes its assertion exactly when the task has a start event. -/
theorem rtos_initializeTask_isSome (time : BitVec w) (t : Task w) (init : TaskInit w) :
    (rtos_initializeTask cfg time t init).isSome ↔ init.startEventMask ≠ 0 := by
  unfold rtos_initializeTask
  split <;> simp_all

/-- `setup()`: the application initializes the tasks `0`..`n-1`. -/
def setupTasks (inits : Nat → TaskInit w) (time : BitVec w) : Nat → (Nat → Task w) → Option (Nat → Task w)
  | 0, ary => some ary
  | n+1, ary => do
    let ary ← setupTasks inits time n ary
    let t ← rtos_initializeTask cfg time (ary n) (inits n)
    pure (Function.update ary n t)

/-- `setup()` initializes each of its tasks from the descriptor it had before, and no other. -/
theorem setupTasks_spec {inits : Nat → TaskInit w} {time : BitVec w} : ∀ {n : Nat} {ary ary' : Nat → Task w},
    setupTasks cfg inits time n ary = some ary' →
      (∀ i < n, rtos_initializeTask cfg time (ary i) (inits i) = some (ary' i)) ∧ ∀ i, n ≤ i → ary' i = ary i
  | 0, _, _, run => by cases run; exact ⟨fun i lt => absurd lt (Nat.not_lt_zero _),fun _ _ => rfl⟩
  | n+1, ary, ary', run => by
    simp only [setupTasks,Option.bind_eq_bind,Option.bind_eq_some,Option.pure_def,Option.some.injEq] at run
    obtain ⟨ary1,run1,t,init,rfl⟩ := run
    obtain ⟨inits1,above1⟩ := setupTasks_spec run1
    refine ⟨fun i lt => ?_,fun i le => ?_⟩
    · by_cases last : i = n
      · subst last; rw [above1 i le_rfl] at init; simpa using init
      · rw [Function.update_noteq last]; exact inits1 i (by omega)
    · rw [Function.update_noteq (by omega)]; exact above1 i (by omega)

theorem setupTasks_isSome {inits : Nat → TaskInit w} {time : BitVec w} : ∀ (n : Nat) (ary : Nat → Task w),
    (setupTasks cfg inits time n ary).isSome ↔ ∀ i < n, (inits i).startEventMask ≠ 0
  | 0, _ => by simp [setupTasks]
  | n+1, ary => by
    rw [Nat.forall_lt_succ_right,← setupTasks_isSome n ary]
    simp only [setupTasks,Option.bind_eq_bind]
    cases setupTasks cfg inits time n ary with
    | none => simp
    | some ary1 =>
      simp only [Option.isSome_some,Option.some_bind,true_and,eq_self_iff_true]
      rw [← rtos_initializeTask_isSome cfg time (ary1 n)]
      cases rtos_initializeTask cfg time (ary1 n) (inits n) <;> rfl

/-- The task loop of `rtos_initRTOS` over the tasks `0`..`n-1`: check the task, seed its stack
    and suspend it. -/
def initTasks : Nat → (Nat → Task w) × (Nat → Nat) × Mem → Option ((Nat → Task w) × (Nat → Nat) × Mem)
  | 0, s => some s
  | n+1, s => do
    let (ary, suspended, mem) ← initTasks n s
    let t := ary n
    if t.taskFunction ≠ 0 ∧ t.pStackArea ≠ 0 ∧ 50 ≤ t.stackSize then
      let (mem, sp) := prepareTaskStack mem t.pStackArea t.stackSize t.taskFunction
      pure (Function.update ary n
          { t with stackPointer := sp, cntRoundRobin := 0, postedEventVec := 0, cntOverrun := 0 },
        Function.update suspended n n, mem)
    else none

/-- The task loop seeds each of its tasks' stacks, clears their counters and suspends them in
    index order. -/
theorem initTasks_spec : ∀ {n : Nat} {s s' : (Nat → Task w) × (Nat → Nat) × Mem}, initTasks n s = some s' →
    (∀ i < n, ∃ sp,
      s'.1 i = { s.1 i with stackPointer := sp, cntRoundRobin := 0, postedEventVec := 0, cntOverrun := 0 }) ∧
    (∀ i, n ≤ i → s'.1 i = s.1 i) ∧ ∀ i < n, s'.2.1 i = i
  | 0, _, _, run => by cases run; exact ⟨fun i lt => absurd lt (Nat.not_lt_zero _),fun _ _ => rfl,
      fun i lt => absurd lt (Nat.not_lt_zero _)⟩
  | n+1, s, s', run => by
    simp only [initTasks,Option.bind_eq_bind,Option.bind_eq_some] at run
    obtain ⟨⟨ary1,susp1,mem1⟩,run1,rest⟩ := run
    obtain ⟨tasks1,above1,order1⟩ := initTasks_spec run1
    dsimp only at tasks1 above1 order1
    split at rest
    · simp only [Option.pure_def,Option.some.injEq] at rest
      subst rest
      dsimp only
      refine ⟨fun i lt => ?_,fun i le => ?_,fun i lt => ?_⟩
      · by_cases last : i = n
        · subst last; exact ⟨_,by rw [Function.update_same,above1 i le_rfl]⟩
        · rw [Function.update_noteq last]; exact tasks1 i (by omega)
      · rw [Function.update_noteq (by omega)]; exact above1 i (by omega)
      · by_cases last : i = n
        · subst last; simp
        · rw [Function.update_noteq last]; exact order1 i (by omega)
    · cases rest

/-- The task loop passes its assertions exactly when every task has a task function and a stack of
    at least 50 bytes. -/
theorem initTasks_isSome : ∀ (n : Nat) (s : (Nat → Task w) × (Nat → Nat) × Mem),
    (initTasks n s).isSome ↔ ∀ i < n, (s.1 i).taskFunction ≠ 0 ∧ (s.1 i).pStackArea ≠ 0 ∧ 50 ≤ (s.1 i).stackSize
  | 0, _ => by simp [initTasks]
  | n+1, s => by
    rw [Nat.forall_lt_succ_right,← initTasks_isSome n s]
    simp only [initTasks,Option.bind_eq_bind]
    cases run : initTasks n s with
    | none => simp
    | some s1 =>
      have same := (initTasks_spec run).2.1 n le_rfl
      obtain ⟨ary,susp,mem⟩ := s1
      dsimp only at same
      simp only [Option.some_bind,Option.isSome_some,true_and,← same]
      split <;> simp_all

/-- The descriptor `rtos_initRTOS` gives the idle task. -/
def idleTask (t : Task w) : Task w :=
  { t with stackPointer := 0, timeDueAt := 0, cntDelay := 0, cntRoundRobin := 0, postedEventVec := 0,
           eventMask := 0, waitForAnyEvent := true, cntOverrun := 0 }

/-- `rtos_initRTOS` up to the idle loop, from the zero-initialized static data and the memory `mem`. -/
def rtos_initRTOS (inits : Nat → TaskInit w) (mem : Mem) : Option (Kernel w × Mem) := do
  let time : BitVec w := -1
  let ary ← setupTasks cfg inits time cfg.noTasks (fun _ => default)
  let (ary, suspended, mem) ← initTasks cfg.noTasks (ary, fun _ => 0, mem)
  pure ({ time := time
          taskAry := Function.update ary cfg.idleTaskId (idleTask (ary cfg.idleTaskId))
          pActiveTask := cfg.idleTaskId
          pSuspendedTask := cfg.idleTaskId
          pDueTaskAryAry := fun _ _ => 0
          noDueTasksAry := fun _ => 0
          pSuspendedTaskAry := suspended
          noSuspendedTasks := cfg.noTasks }, mem)

/-- After `rtos_initRTOS` every application task is suspended in index order with the condition
    `rtos_initializeTask` stored, nothing is due and the idle task is active. -/
theorem rtos_initRTOS_spec {inits : Nat → TaskInit w} {mem mem' : Mem} {k : Kernel w}
    (ok : rtos_initRTOS cfg inits mem = some (k,mem')) :
    k.time = -1 ∧ k.pActiveTask = cfg.idleTaskId ∧ k.suspendedList = List.range cfg.noTasks ∧
      (∀ c, k.noDueTasksAry c = 0) ∧ k.task cfg.idleTaskId = idleTask default ∧
      ∀ i < cfg.noTasks, ∃ t sp, rtos_initializeTask cfg (-1) default (inits i) = some t ∧
        k.task i = { t with stackPointer := sp, cntRoundRobin := 0, postedEventVec := 0, cntOverrun := 0 } := by
  simp only [rtos_initRTOS,Option.bind_eq_bind,Option.bind_eq_some,Option.pure_def,Option.some.injEq] at ok
  obtain ⟨ary,setup,⟨ary1,susp1,mem1⟩,run,rfl,-⟩ := ok
  obtain ⟨inits1,above1⟩ := setupTasks_spec cfg setup
  obtain ⟨tasks1,above2,order1⟩ := initTasks_spec run
  dsimp only at tasks1 above2 order1
  refine ⟨rfl,rfl,?_,fun _ => rfl,?_,fun i lt => ?_⟩
  · simp only [Kernel.suspendedList,aryList]
    exact List.map_congr_left (fun i mem => order1 i (List.mem_range.mp mem)) |>.trans (List.map_id _)
  · simp only [Kernel.task,Function.update_same]
    exact congrArg idleTask ((above2 _ (le_refl _)).trans (above1 _ (le_refl _)))
  · obtain ⟨sp,task⟩ := tasks1 i lt
    refine ⟨ary i,sp,inits1 i lt,?_⟩
    simp only [Kernel.task,Function.update_noteq (show i ≠ cfg.idleTaskId from Nat.ne_of_lt lt)]
    exact task

/-- After `rtos_initRTOS` no task has an event posted. -/
theorem rtos_initRTOS_unposted {inits : Nat → TaskInit w} {mem mem' : Mem} {k : Kernel w}
    (ok : rtos_initRTOS cfg inits mem = some (k,mem')) (T : Nat) :
    (k.task T).postedEventVec = 0 := by
  simp only [rtos_initRTOS,Option.bind_eq_bind,Option.bind_eq_some,Option.pure_def,Option.some.injEq] at ok
  obtain ⟨ary,setup,⟨ary1,susp1,mem1⟩,run,rfl,-⟩ := ok
  obtain ⟨-,above⟩ := setupTasks_spec cfg setup
  obtain ⟨tasks,above1,-⟩ := initTasks_spec run
  dsimp only at tasks above1
  simp only [Kernel.task]
  by_cases idle : T = cfg.idleTaskId
  · rw [idle,Function.update_same]
    rfl
  · rw [Function.update_noteq idle]
    rcases Nat.lt_or_ge T cfg.noTasks with lt | ge
    · obtain ⟨sp,task⟩ := tasks T lt
      rw [task]
    · rw [above1 T ge,above T ge]
      rfl

/-- `rtos_initRTOS` starts the kernel exactly when every task passes its assertions: a start event
    for `rtos_initializeTask`, and a task function and a stack of at least 50 bytes for the task
    loop. -/
theorem rtos_initRTOS_isSome (inits : Nat → TaskInit w) (mem : Mem) :
    (rtos_initRTOS cfg inits mem).isSome ↔ ∀ i < cfg.noTasks, (inits i).startEventMask ≠ 0 ∧
      (inits i).taskFunction ≠ 0 ∧ (inits i).pStackArea ≠ 0 ∧ 50 ≤ (inits i).stackSize := by
  simp only [rtos_initRTOS,Option.bind_eq_bind]
  cases setup : setupTasks cfg inits (-1) cfg.noTasks (fun _ => default) with
  | none =>
    have masks := (@setupTasks_isSome w cfg inits (-1) cfg.noTasks (fun _ => default)).not.mp
      (by rw [setup]; exact Bool.false_ne_true)
    simp only [Option.none_bind,Option.isSome_none,Bool.false_eq_true,false_iff]
    exact fun valid => masks fun i lt => (valid i lt).1
  | some ary =>
    obtain ⟨inits1,-⟩ := setupTasks_spec cfg setup
    have masks := (@setupTasks_isSome w cfg inits (-1) cfg.noTasks (fun _ => default)).mp (by rw [setup]; rfl)
    have fields : (∀ i < cfg.noTasks, (inits i).startEventMask ≠ 0 ∧ (inits i).taskFunction ≠ 0 ∧
        (inits i).pStackArea ≠ 0 ∧ 50 ≤ (inits i).stackSize) ↔
        ∀ i < cfg.noTasks, (ary i).taskFunction ≠ 0 ∧ (ary i).pStackArea ≠ 0 ∧ 50 ≤ (ary i).stackSize :=
      forall₂_congr fun i lt => by
        obtain ⟨f,p,sz⟩ := rtos_initializeTask_fields cfg (inits1 i lt)
        rw [f,p,sz]
        exact and_iff_right (masks i lt)
    rw [fields,Option.some_bind]
    refine Iff.trans ?_ (initTasks_isSome cfg.noTasks (ary,fun _ => 0,mem))
    cases initTasks cfg.noTasks (ary,fun _ => 0,mem) <;> rfl

end RTuinOS
