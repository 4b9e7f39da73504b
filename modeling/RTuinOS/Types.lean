import Mathlib.Data.BitVec
import RTuinOS.Arrays

/-!
The data of the kernel: the compile-time configuration, the task descriptor `task_t` and the
global variables of `rtos.c`. A pointer to a task descriptor is its index into `_taskAry`, the
idle task being the last one, `IDLE_TASK_ID = RTOS_NO_TASKS`. The system time and the timer
counters are `uintTime_t`, a `BitVec w`; event vectors are `uint16_t`.
-/
namespace RTuinOS

/-- The configuration of `rtos_config.h` and the timer event bits of `rtos.h`. The two bounds
    are the ranges of the `uint8_t` task counters and of the `int8_t` class index in `rtos.c`. -/
structure Config where
  noTasks : Nat
  noPrioClasses : Nat
  maxNoTasksInPrioClass : Nat
  evtAbsoluteTimer : BitVec 16
  evtDelayTimer : BitVec 16
  roundRobinModeSupported : Bool
  noTasks_lt : noTasks < 256
  noPrioClasses_le : noPrioClasses ≤ 128

/-- A small configuration: two tasks, two classes of one task each, round robin compiled in, and
    the timer events in the two top bits. -/
def demoConfig : Config where
  noTasks := 2
  noPrioClasses := 2
  maxNoTasksInPrioClass := 1
  evtAbsoluteTimer := 0x4000
  evtDelayTimer := 0x8000
  roundRobinModeSupported := true
  noTasks_lt := by decide
  noPrioClasses_le := by decide

/-- `IDLE_TASK_ID`. -/
def Config.idleTaskId (cfg : Config) : Nat := cfg.noTasks

/-- `RTOS_EVT_ABSOLUTE_TIMER | RTOS_EVT_DELAY_TIMER`. -/
def Config.timerEvtMask (cfg : Config) : BitVec 16 := cfg.evtAbsoluteTimer ||| cfg.evtDelayTimer

/-- The task descriptor `task_t`, with the round-robin fields of the feature switched on. -/
structure Task (w : Nat) where
  stackPointer : Nat
  prioClass : Nat
  taskFunction : Nat
  timeDueAt : BitVec w
  timeRoundRobin : BitVec w
  pStackArea : Nat
  stackSize : Nat
  cntDelay : BitVec w
  cntRoundRobin : BitVec w
  postedEventVec : BitVec 16
  eventMask : BitVec 16
  waitForAnyEvent : Bool
  cntOverrun : BitVec 8
  deriving DecidableEq, Inhabited

/-- The global variables of `rtos.c` that the scheduler uses. -/
structure Kernel (w : Nat) where
  time : BitVec w
  taskAry : Nat → Task w
  pActiveTask : Nat
  pSuspendedTask : Nat
  pDueTaskAryAry : Nat → Nat → Nat
  noDueTasksAry : Nat → Nat
  pSuspendedTaskAry : Nat → Nat
  noSuspendedTasks : Nat

namespace Kernel
variable {w : Nat}

/-- The task with index `i`. -/
def task (k : Kernel w) (i : Nat) : Task w := k.taskAry i

/-- The suspended tasks in array order. -/
def suspendedList (k : Kernel w) : List Nat := aryList k.pSuspendedTaskAry k.noSuspendedTasks

/-- The due tasks of priority class `c` in array order. -/
def dueList (k : Kernel w) (c : Nat) : List Nat := aryList (k.pDueTaskAryAry c) (k.noDueTasksAry c)

theorem length_suspendedList (k : Kernel w) : k.suspendedList.length = k.noSuspendedTasks := by
  simp [suspendedList]

theorem length_dueList (k : Kernel w) (c : Nat) : (k.dueList c).length = k.noDueTasksAry c := by
  simp [dueList]

/-- The kernel with the descriptor of task `i` replaced. -/
def setTask (k : Kernel w) (i : Nat) (t : Task w) : Kernel w :=
  { k with taskAry := Function.update k.taskAry i t }

@[simp] theorem setTask_task_same (k : Kernel w) (i : Nat) (t : Task w) : (k.setTask i t).task i = t := by
  simp [setTask,task]

theorem setTask_task_other (k : Kernel w) {i j : Nat} (t : Task w) (other : j ≠ i) :
    (k.setTask i t).task j = k.task j := by
  simp [setTask,task,Function.update_noteq other]

@[simp] theorem setTask_suspendedList (k : Kernel w) (i : Nat) (t : Task w) :
    (k.setTask i t).suspendedList = k.suspendedList := rfl

@[simp] theorem setTask_dueList (k : Kernel w) (i : Nat) (t : Task w) (c : Nat) :
    (k.setTask i t).dueList c = k.dueList c := rfl

@[simp] theorem setTask_pActiveTask (k : Kernel w) (i : Nat) (t : Task w) :
    (k.setTask i t).pActiveTask = k.pActiveTask := rfl

@[simp] theorem setTask_noDueTasksAry (k : Kernel w) (i : Nat) (t : Task w) :
    (k.setTask i t).noDueTasksAry = k.noDueTasksAry := rfl

@[simp] theorem setTask_pDueTaskAryAry (k : Kernel w) (i : Nat) (t : Task w) :
    (k.setTask i t).pDueTaskAryAry = k.pDueTaskAryAry := rfl

@[simp] theorem setTask_pSuspendedTaskAry (k : Kernel w) (i : Nat) (t : Task w) :
    (k.setTask i t).pSuspendedTaskAry = k.pSuspendedTaskAry := rfl

@[simp] theorem setTask_noSuspendedTasks (k : Kernel w) (i : Nat) (t : Task w) :
    (k.setTask i t).noSuspendedTasks = k.noSuspendedTasks := rfl

@[simp] theorem setTask_pSuspendedTask (k : Kernel w) (i : Nat) (t : Task w) :
    (k.setTask i t).pSuspendedTask = k.pSuspendedTask := rfl

@[simp] theorem setTask_time (k : Kernel w) (i : Nat) (t : Task w) : (k.setTask i t).time = k.time := rfl

end Kernel

end RTuinOS
