import RTuinOS.Scheduler

/-!
The states the kernel reaches: the one `rtos_initRTOS` sets up from the application's tasks, and
those after any sequence of kernel entries. The scheduler's invariant holds in each of them, so no
task is ever lost or duplicated, every entry the application may make runs within the arrays,
and the active task is the first task of the highest class with a due task.
-/
namespace RTuinOS
variable {w : Nat} (cfg : Config)

/-- The tasks an application passes to `rtos_initializeTask`, as the configuration promises them:
    every class below `RTOS_NO_PRIO_CLASSES`, none with more than
    `RTOS_MAX_NO_TASKS_IN_PRIO_CLASS` tasks. -/
structure Application (w : Nat) where
  inits : Nat → TaskInit w
  prioClass_lt : ∀ i < cfg.noTasks, (inits i).prioClass < cfg.noPrioClasses
  classFit : ∀ c < cfg.noPrioClasses,
    ((List.range cfg.noTasks).filter (fun i => decide ((inits i).prioClass = c))).length ≤ cfg.maxNoTasksInPrioClass

/-- The kernel states of an application: `rtos_initRTOS`'s, and every kernel entry's from one. -/
inductive Reachable (app : Application cfg w) : Kernel w → Prop
  | init {mem mem' : Mem} {k : Kernel w} : rtos_initRTOS cfg app.inits mem = some (k,mem') → Reachable app k
  | step {k k' : Kernel w} (a : Action w) : Reachable app k → step cfg a k = some k' → Reachable app k'

theorem Reachable.run {app : Application cfg w} : ∀ {as : List (Action w)} {k k' : Kernel w},
    Reachable cfg app k → run cfg as k = some k' → Reachable cfg app k'
  | [], _, _, reach, ran => by cases ran; exact reach
  | a :: as, k, k', reach, ran => by
    simp only [RTuinOS.run,Option.bind_eq_bind,Option.bind_eq_some] at ran
    obtain ⟨k1,stepped,rest⟩ := ran
    exact Reachable.run (reach.step a stepped) rest

/-- `rtos_initRTOS` establishes the scheduler's invariant. -/
theorem rtos_initRTOS_inv (app : Application cfg w) {mem mem' : Mem} {k : Kernel w}
    (ok : rtos_initRTOS cfg app.inits mem = some (k,mem')) : SchedInv cfg k := by
  obtain ⟨_,active,susp,noDue,idle,tasks⟩ := rtos_initRTOS_spec cfg ok
  have cls : ∀ i < cfg.noTasks, (k.task i).prioClass = (app.inits i).prioClass := fun i lt => by
    obtain ⟨t,sp,init,task⟩ := tasks i lt
    rw [task,← rtos_initializeTask_prioClass cfg init]
  have empty : ∀ c, k.dueList c = [] := fun c => by simp [Kernel.dueList,aryList,noDue]
  have none : allDue cfg k = [] := by simp [allDue,empty]
  refine ⟨⟨?_,fun c _ t mem => by simp [empty] at mem,fun t lt => ?_,fun c lt => ?_,by rw [idle]; rfl⟩,?_⟩
  · rw [susp,none,List.append_nil]
  · rw [cls t lt]; exact app.prioClass_lt t lt
  · have same : classTasks cfg k c = (List.range cfg.noTasks).filter (fun i => decide ((app.inits i).prioClass = c)) :=
      List.filter_congr (fun i mem => by rw [cls i (List.mem_range.mp mem)])
    rw [same]; exact app.classFit c lt
  · rw [active]; simp [activeOf,findDueClass_eq_none.mpr (fun c _ => noDue c)]

theorem reachable_inv {app : Application cfg w} {k : Kernel w} (reach : Reachable cfg app k) : SchedInv cfg k := by
  induction reach with
  | init ok => exact rtos_initRTOS_inv cfg app ok
  | step a _ stepped inv => exact step_inv cfg inv stepped

/-- A small application: task `i` runs in class `i` with a slice of two ticks and starts waiting
    for a delay of ten ticks, task 1 also for event 0. -/
def demoApplication : Application demoConfig 8 where
  inits i := { taskFunction := 0x100 + i, prioClass := i, timeRoundRobin := 2, pStackArea := 0x200 + 0x40 * i,
               stackSize := 50, startEventMask := if i = 0 then 0x8000 else 0x8001, startByAllEvents := false,
               startTimeout := 10 }
  prioClass_lt := by decide
  classFit := by decide

/-- No task of the small application starts in "all" mode. -/
theorem demoApplication_starts : ∀ i < demoConfig.noTasks, (demoApplication.inits i).startByAllEvents = true →
    (demoApplication.inits i).startEventMask &&& ~~~demoConfig.timerEvtMask ≠ 0 := fun _ _ all => by
  cases all

/-- The small application after its first entry: `rtos_setEvent(1)` releases task 1, which becomes
    the active task and the only due task of class 1, while task 0 stays suspended. -/
theorem demo_released : ∃ k, Reachable demoConfig demoApplication k ∧ k.pActiveTask = 1 ∧
    k.suspendedList = [0] ∧ k.dueList 1 = [1] :=
  ⟨_,.step (.setEvent 1) (@Reachable.init 8 demoConfig demoApplication (fun _ => 0) _ _ rfl) rfl,rfl,rfl,rfl⟩

/-- `_noDueTasksAry[0] + ... + _noDueTasksAry[n-1]`. -/
def sumDue (noDueTasksAry : Nat → Nat) : Nat → Nat
  | 0 => 0
  | n+1 => sumDue noDueTasksAry n + noDueTasksAry n

theorem length_flatMap_dueList (k : Kernel w) (n : Nat) :
    ((List.range n).flatMap k.dueList).length = sumDue k.noDueTasksAry n := by
  induction n with
  | zero => rfl
  | succ n ih => simp [List.range_succ,List.flatMap_append,ih,sumDue,Kernel.length_dueList]

/-- In every reachable state the suspended list and the due lists hold every application task
    once and never the idle task, each due task in the list of its class. So the counters add up to
    the number of tasks, every entry the application may make runs within the arrays, and the
    class of a suspending task has a due task to remove. -/
theorem reachable_tasks_conserved {app : Application cfg w} {k : Kernel w} (reach : Reachable cfg app k) :
    (k.suspendedList ++ allDue cfg k).Perm (List.range cfg.noTasks) ∧
      cfg.idleTaskId ∉ k.suspendedList ++ allDue cfg k ∧
      (∀ c < cfg.noPrioClasses, ∀ t ∈ k.dueList c, (k.task t).prioClass = c) ∧
      k.noSuspendedTasks + sumDue k.noDueTasksAry cfg.noPrioClasses = cfg.noTasks ∧
      (∀ a : Action w, a.allowed cfg k → ∃ k', step cfg a k = some k') ∧
      (k.pActiveTask ≠ cfg.idleTaskId → 0 < k.noDueTasksAry (k.task k.pActiveTask).prioClass) := by
  have inv := reachable_inv cfg reach
  refine ⟨inv.perm,fun mem => Nat.lt_irrefl _ (inv.mem_lt mem),inv.dueClass,?_,fun a allowed => ?_,fun busy => ?_⟩
  · have total := inv.perm.length_eq
    rwa [List.length_append,Kernel.length_suspendedList,allDue,length_flatMap_dueList,List.length_range] at total
  · obtain ⟨k1,switch,result,_⟩ := logic_inv cfg inv a allowed
    exact ⟨_,by simp only [step,result,Option.bind_eq_bind,Option.some_bind]; rfl⟩
  · rw [← Kernel.length_dueList,(inv.active_head busy).2]; exact Nat.succ_pos _

theorem demo_tasks_conserved : ∃ k : Kernel 8, Reachable demoConfig demoApplication k ∧ k.suspendedList = [0] ∧
    (k.suspendedList ++ allDue demoConfig k).Perm (List.range 2) :=
  let ⟨k,reach,_,suspended,_⟩ := demo_released
  ⟨k,reach,suspended,(reachable_tasks_conserved demoConfig reach).1⟩

/-- In every reachable state the active task is the head of the highest class with a due task,
    and the idle task exactly when no task is due; so no due task is of a higher class. Every
    kernel entry switches exactly when it changes the active task, records the task it left, and
    never resumes a task that suspends. -/
theorem reachable_priority {app : Application cfg w} {k : Kernel w} (reach : Reachable cfg app k) :
    ((∃ c < cfg.noPrioClasses, 0 < k.noDueTasksAry c ∧
        (∀ c', c < c' → c' < cfg.noPrioClasses → k.noDueTasksAry c' = 0) ∧ k.pActiveTask = k.pDueTaskAryAry c 0) ∨
      ((∀ c < cfg.noPrioClasses, k.noDueTasksAry c = 0) ∧ k.pActiveTask = cfg.idleTaskId)) ∧
    (k.pActiveTask = cfg.idleTaskId ↔ ∀ c < cfg.noPrioClasses, k.noDueTasksAry c = 0) ∧
    (∀ c < cfg.noPrioClasses, ∀ t ∈ k.dueList c, c ≤ (k.task k.pActiveTask).prioClass) ∧
    ∀ (a : Action w) (k' : Kernel w) (switch : Bool), a.logic cfg k = some (k',switch) →
      (switch = true ↔ k'.pActiveTask ≠ k.pActiveTask) ∧ (switch = true → k'.pSuspendedTask = k.pActiveTask) ∧
      ∀ eventMask all timeout, a = .waitForEvent eventMask all timeout → k'.pActiveTask ≠ k.pActiveTask := by
  have inv := reachable_inv cfg reach
  refine ⟨inv.selection,inv.idle_iff,fun c lt t mem => inv.due_le_active lt mem,fun a k' switch result => ?_⟩
  obtain ⟨_,change,left⟩ := logic_exit cfg inv result
  refine ⟨change,left,fun eventMask all timeout waits => change.mp ?_⟩
  subst waits
  exact logic_waitForEvent_switch cfg inv result

theorem demo_priority : ∃ k : Kernel 8, Reachable demoConfig demoApplication k ∧ k.pActiveTask = 1 ∧
    (k.pActiveTask = demoConfig.idleTaskId ↔ ∀ c < 2, k.noDueTasksAry c = 0) :=
  let ⟨k,reach,active,_⟩ := demo_released
  ⟨k,reach,active,(reachable_priority demoConfig reach).2.1⟩

namespace SchedInv
variable {cfg} {k : Kernel w} (inv : SchedInv cfg k)
include inv

/-- A task due in a class keeps the scheduler busy. -/
theorem busy_of_mem {c t : Nat} (lt : c < cfg.noPrioClasses) (mem : t ∈ k.dueList c) :
    k.pActiveTask ≠ cfg.idleTaskId := fun idle => by
  have empty := inv.idle_iff.mp idle c lt
  rw [← Kernel.length_dueList,List.length_eq_zero] at empty
  simp [empty] at mem

/-- The active task belongs to a class only as that class's head. -/
theorem head_active {c A : Nat} (head : (k.dueList c).head? = some A) (busy : k.pActiveTask ≠ cfg.idleTaskId)
    (same : (k.task k.pActiveTask).prioClass = c) : k.pActiveTask = A := by
  rw [← same,(inv.active_head busy).2] at head
  simpa using head

/-- A task `A` due in a class other than as the active task: the active task is of that class or a
    higher one, and of a higher one where `A` comes first. -/
theorem class_le_of_due {c A : Nat} (lt : c < cfg.noPrioClasses) (other : k.pActiveTask ≠ A) {l r : List Nat}
    (due : k.dueList c = l ++ r) (mem : A ∈ l) :
    c ≤ (k.task k.pActiveTask).prioClass ∧ (l.head? = some A → c < (k.task k.pActiveTask).prioClass) := by
  have mem1 : A ∈ k.dueList c := by
    rw [due]
    exact List.mem_append_left _ mem
  have le := inv.due_le_active lt mem1
  refine ⟨le,fun first => lt_of_le_of_ne le fun same => other (inv.head_active ?_ (inv.busy_of_mem lt mem1) same.symm)⟩
  rw [due,List.head?_append,first]
  rfl

end SchedInv

/-- A timer tick or `setEvent` switches away from a running application task only to a task of a
    strictly higher class, or, at a tick that ends the running task's round-robin slice, to
    another task of its own class: a task released in the running task's class or a lower one
    never preempts it, as released tasks queue behind the running one. -/
theorem preempts_only_higher {app : Application cfg w} {k k1 : Kernel w} (reach : Reachable cfg app k)
    (busy : k.pActiveTask ≠ cfg.idleTaskId) {a : Action w} (posts : a = .timerTic ∨ ∃ eventVec, a = .setEvent eventVec)
    (result : a.logic cfg k = some (k1,true)) :
    (k.task k.pActiveTask).prioClass < (k1.task k1.pActiveTask).prioClass ∨
      (a = .timerTic ∧ cfg.roundRobinModeSupported = true ∧ sliceExpires (k.task k.pActiveTask) ∧
        (k1.task k1.pActiveTask).prioClass = (k.task k.pActiveTask).prioClass) := by
  have inv := reachable_inv cfg reach
  obtain ⟨⟨inv1,change,-⟩,effect⟩ := logic_cases cfg inv result
  have moved : k1.pActiveTask ≠ k.pActiveTask := change.mp rfl
  have lt := inv.active_prioClass_lt busy
  have head := (inv.active_head busy).2
  rcases effect with ⟨rfl,k2,-,⟨-,-,-,due2⟩,⟨-,due1,-,-⟩⟩ | ⟨eventVec,rfl,⟨-,due1,-,-⟩⟩ | ⟨_,_,_,rfl,-⟩
  · have due := due1 (k.task k.pActiveTask).prioClass
    by_cases rot : cfg.roundRobinModeSupported ∧ (sliceExpires (k.task k.pActiveTask) ∧
        1 < k.noDueTasksAry (k.task k.pActiveTask).prioClass)
    · rw [due2,if_pos ⟨rot.1,rot.2,rfl⟩] at due
      obtain ⟨le,-⟩ := inv1.class_le_of_due lt moved due (List.mem_append_right _ (List.mem_singleton_self _))
      rcases Nat.lt_or_eq_of_le le with above | same
      · exact .inl above
      · exact .inr ⟨rfl,rot.1,rot.2.1,same.symm⟩
    · rw [due2,if_neg fun ⟨rr,expires,_⟩ => rot ⟨rr,expires⟩,head] at due
      exact .inl ((inv1.class_le_of_due lt moved due (List.mem_cons_self _ _)).2 rfl)
  · have due := due1 (k.task k.pActiveTask).prioClass
    rw [Kernel.mapTasks_dueList,head] at due
    exact .inl ((inv1.class_le_of_due lt moved due (List.mem_cons_self _ _)).2 rfl)
  · simp at posts

/-- Two tasks, each released by its own event: task 0 in class 0 by event 0, task 1 in class 1 by
    event 1. -/
def eventApplication : Application demoConfig 8 where
  inits i := { taskFunction := 0x100 + i, prioClass := i, timeRoundRobin := 2, pStackArea := 0x200 + 0x40 * i,
               stackSize := 50, startEventMask := if i = 0 then 1 else 2, startByAllEvents := false,
               startTimeout := 0 }
  prioClass_lt := by decide
  classFit := by decide

/-- Task 0 runs after event 0; event 1 releases task 1 of the higher class, which preempts it. -/
theorem demo_preempted_by_higher : ∃ k k1 : Kernel 8, Reachable demoConfig eventApplication k ∧ k.pActiveTask = 0 ∧
    (Action.setEvent 2).logic demoConfig k = some (k1,true) ∧
    (k.task k.pActiveTask).prioClass < (k1.task k1.pActiveTask).prioClass :=
  let ⟨_,_,ok,k,first,active,k1,result⟩ : ∃ (k0 : Kernel 8) (mem : Mem),
      rtos_initRTOS demoConfig eventApplication.inits (fun _ => 0) = some (k0,mem) ∧
      ∃ k, step demoConfig (.setEvent 1) k0 = some k ∧ k.pActiveTask = 0 ∧
      ∃ k1, (Action.setEvent 2).logic demoConfig k = some (k1,true) :=
    ⟨_,_,rfl,_,rfl,rfl,_,rfl⟩
  let reach := Reachable.step (.setEvent 1) (.init ok) first
  ⟨k,k1,reach,active,result,(preempts_only_higher demoConfig reach (by rw [active]; decide) (.inr ⟨2,rfl⟩)
    result).resolve_right fun ⟨tick,_⟩ => by cases tick⟩

end RTuinOS
