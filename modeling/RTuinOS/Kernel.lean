import RTuinOS.Types

/-!
The C logic of the kernel as functions on its data: the release condition and the release loop of
`checkForTaskActivation`, the timer and round-robin phases of `onTimerTic`, `setEvent`,
`storeResumeCondition` and `waitForEvent`. Each returns `none` exactly where the C code indexes an
array out of bounds or a loop runs out of its fuel, and otherwise the new data together with the
flag that asks the calling entry for a context switch.
-/
namespace RTuinOS
variable {w : Nat} (cfg : Config)

/-- The release condition of `checkForTaskActivation`: in "any" mode some posted event; in "all"
    mode every non-timer event of the mask, or some timer event of the mask. -/
def isReleased (t : Task w) : Bool :=
  (t.waitForAnyEvent && t.postedEventVec != 0) ||
    (!t.waitForAnyEvent &&
      (((t.postedEventVec ^^^ t.eventMask) &&& ~~~cfg.timerEvtMask) == 0 ||
        (t.postedEventVec &&& t.eventMask &&& cfg.timerEvtMask) != 0))

/-- A released task: its mask is cleared and, with round robin compiled in, its slice reloaded. -/
def releaseTask (t : Task w) : Task w :=
  { t with eventMask := 0,
           cntRoundRobin := if cfg.roundRobinModeSupported then t.timeRoundRobin else t.cntRoundRobin }

/-- The `while` loop of `checkForTaskActivation` from `idxSuspTask` on, for at most `fuel`
    iterations. A released task is appended to the due list of its class and the suspended array is
    compacted over it, the index staying where it is; a task that stays suspended is stepped over. -/
def releaseLoop : Nat → Kernel w → Nat → Bool → Option (Kernel w × Bool)
  | 0, k, idxSuspTask, isNewActiveTask =>
    if idxSuspTask < k.noSuspendedTasks then none else some (k, isNewActiveTask)
  | fuel+1, k, idxSuspTask, isNewActiveTask =>
    if idxSuspTask < k.noSuspendedTasks then do
      let pT ← readAry cfg.noTasks k.pSuspendedTaskAry idxSuspTask
      let t := k.task pT
      if isReleased cfg t then do
        let prio := t.prioClass
        let noDue ← readAry cfg.noPrioClasses k.noDueTasksAry prio
        let row ← writeAry cfg.maxNoTasksInPrioClass (k.pDueTaskAryAry prio) noDue pT
        let noSuspendedTasks := decU8 k.noSuspendedTasks
        let suspended ← shiftDown cfg.noTasks k.pSuspendedTaskAry idxSuspTask
          (noSuspendedTasks - idxSuspTask)
        releaseLoop fuel
          { k.setTask pT (releaseTask cfg t) with
            pDueTaskAryAry := Function.update k.pDueTaskAryAry prio row
            noDueTasksAry := Function.update k.noDueTasksAry prio (incU8 noDue)
            pSuspendedTaskAry := suspended
            noSuspendedTasks := noSuspendedTasks } idxSuspTask true
      else releaseLoop fuel k (idxSuspTask+1) isNewActiveTask
    else some (k, isNewActiveTask)

/-- `for(idxPrio=RTOS_NO_PRIO_CLASSES-1; idxPrio>=0; --idxPrio)`: the highest class below
    `idxPrio` with a due task. -/
def findDueClass (noDueTasksAry : Nat → Nat) : Nat → Option Nat
  | 0 => none
  | c+1 => if noDueTasksAry c > 0 then some c else findDueClass noDueTasksAry c

/-- `checkForTaskActivation`: release what the posted events release; if that, or the caller's
    hint, may have changed the active task, make the head of the highest non-empty class active,
    recording the left task in `_pSuspendedTask`. -/
def checkForTaskActivation (k : Kernel w) (isNewActiveTask : Bool) : Option (Kernel w × Bool) := do
  let (k, isNewActiveTask) ← releaseLoop cfg k.noSuspendedTasks k 0 isNewActiveTask
  if isNewActiveTask then
    match findDueClass k.noDueTasksAry cfg.noPrioClasses with
    | some idxPrio => do
      let head ← readAry cfg.maxNoTasksInPrioClass (k.pDueTaskAryAry idxPrio) 0
      pure ({ k with pSuspendedTask := k.pActiveTask, pActiveTask := head }, head != k.pActiveTask)
    | none => pure (k, isNewActiveTask)
  else pure (k, isNewActiveTask)

/-- `for(idxSuspTask=first; ...; ++idxSuspTask)`, applying `body` to the descriptor of each of
    `count` suspended tasks. -/
def forEachSuspended (body : Task w → Task w) : Kernel w → Nat → Nat → Option (Kernel w)
  | k, _, 0 => some k
  | k, first, count+1 => do
    let pT ← readAry cfg.noTasks k.pSuspendedTaskAry first
    forEachSuspended body (k.setTask pT (body (k.task pT))) (first+1) count

/-- The timer phase of `onTimerTic` for one suspended task, at the already advanced `time`. -/
def ticTask (time : BitVec w) (t : Task w) : Task w :=
  let t := if time = t.timeDueAt then
      { t with postedEventVec := t.postedEventVec ||| (cfg.evtAbsoluteTimer &&& t.eventMask) }
    else t
  if t.cntDelay > 0 then
    if t.cntDelay - 1 = 0 then
      { t with cntDelay := t.cntDelay - 1,
               postedEventVec := t.postedEventVec ||| (cfg.evtDelayTimer &&& t.eventMask) }
    else { t with cntDelay := t.cntDelay - 1 }
  else t

@[simp] theorem ticTask_prioClass (time : BitVec w) (t : Task w) : (ticTask cfg time t).prioClass = t.prioClass := by
  simp only [ticTask]; split_ifs <;> rfl

@[simp] theorem ticTask_timeRoundRobin (time : BitVec w) (t : Task w) :
    (ticTask cfg time t).timeRoundRobin = t.timeRoundRobin := by
  simp only [ticTask]; split_ifs <;> rfl

/-- The round-robin phase of `onTimerTic`: the active task's slice runs down; when it expires it is
    reloaded and, if other tasks of the class are due, the class is rolled by one task. -/
def roundRobin (k : Kernel w) : Option (Kernel w × Bool) :=
  let pA := k.pActiveTask
  let t := k.task pA
  if t.cntRoundRobin > 0 then
    if t.cntRoundRobin - 1 = 0 then do
      let k := k.setTask pA { t with cntRoundRobin := t.timeRoundRobin }
      let prio := t.prioClass
      let noTasks ← readAry cfg.noPrioClasses k.noDueTasksAry prio
      if noTasks > 1 then do
        let row ← shiftDown cfg.maxNoTasksInPrioClass (k.pDueTaskAryAry prio) 0 (noTasks - 1)
        let row ← writeAry cfg.maxNoTasksInPrioClass row (noTasks - 1) pA
        pure ({ k with pDueTaskAryAry := Function.update k.pDueTaskAryAry prio row }, true)
      else pure (k, false)
    else pure (k.setTask pA { t with cntRoundRobin := t.cntRoundRobin - 1 }, false)
  else pure (k, false)

/-- `onTimerTic`: advance the time, run the timers of the suspended tasks, the round-robin phase
    when compiled in, and `checkForTaskActivation`. -/
def onTimerTic (k : Kernel w) : Option (Kernel w × Bool) := do
  let k := { k with time := k.time + 1 }
  let k ← forEachSuspended cfg (ticTask cfg k.time) k 0 k.noSuspendedTasks
  let (k, isNewActiveTask) ← if cfg.roundRobinModeSupported then roundRobin cfg k else pure (k, false)
  checkForTaskActivation cfg k isNewActiveTask

/-- The events a suspended task receives from `setEvent`: those of its mask. -/
def postEvents (eventVec : BitVec 16) (t : Task w) : Task w :=
  { t with postedEventVec := t.postedEventVec ||| (eventVec &&& t.eventMask) }

@[simp] theorem postEvents_prioClass (eventVec : BitVec 16) (t : Task w) :
    (postEvents eventVec t).prioClass = t.prioClass := rfl

/-- `setEvent`: post the non-timer events to every suspended task and check for released tasks. -/
def setEvent (postedEventVec : BitVec 16) (k : Kernel w) : Option (Kernel w × Bool) := do
  let eventVec := postedEventVec &&& ~~~cfg.timerEvtMask
  let k ← forEachSuspended cfg (postEvents eventVec) k 0 k.noSuspendedTasks
  checkForTaskActivation cfg k false

/-- `storeResumeCondition` at system time `time`: load the absolute timer, detecting an overrun,
    or the delay counter, and store the mask and the mode. -/
def storeResumeCondition (time : BitVec w) (t : Task w) (eventMask : BitVec 16) (all : Bool)
    (timeout : BitVec w) : Task w :=
  let t :=
    if eventMask &&& cfg.evtAbsoluteTimer ≠ 0 then
      if (t.timeDueAt + timeout - time).toInt ≤ 0 then
        { t with cntOverrun := if t.cntOverrun < 0xff then t.cntOverrun + 1 else t.cntOverrun,
                 timeDueAt := time + 1 }
      else { t with timeDueAt := t.timeDueAt + timeout }
    else { t with cntDelay := if timeout + 1 ≠ 0 then timeout + 1 else timeout }
  { t with eventMask := eventMask, waitForAnyEvent := !all }

@[simp] theorem storeResumeCondition_prioClass (time : BitVec w) (t : Task w) (eventMask : BitVec 16) (all : Bool)
    (timeout : BitVec w) : (storeResumeCondition cfg time t eventMask all timeout).prioClass = t.prioClass := by
  unfold storeResumeCondition; split_ifs <;> rfl

@[simp] theorem storeResumeCondition_timeRoundRobin (time : BitVec w) (t : Task w) (eventMask : BitVec 16)
    (all : Bool) (timeout : BitVec w) :
    (storeResumeCondition cfg time t eventMask all timeout).timeRoundRobin = t.timeRoundRobin := by
  unfold storeResumeCondition; split_ifs <;> rfl

/-- `waitForEvent`: the active task leaves the head of its class for the end of the suspended list
    with its resume condition, and the head of the highest non-empty class, or else the idle task,
    becomes active. The calling entry always switches. -/
def waitForEvent (eventMask : BitVec 16) (all : Bool) (timeout : BitVec w) (k : Kernel w) :
    Option (Kernel w × Bool) := do
  let pT := k.pActiveTask
  let t := k.task pT
  let prio := t.prioClass
  let noDue ← readAry cfg.noPrioClasses k.noDueTasksAry prio
  let noDueNow := decU8 noDue
  let row ← shiftDown cfg.maxNoTasksInPrioClass (k.pDueTaskAryAry prio) 0 noDueNow
  let k := { k.setTask pT (storeResumeCondition cfg k.time t eventMask all timeout) with
    noDueTasksAry := Function.update k.noDueTasksAry prio noDueNow
    pDueTaskAryAry := Function.update k.pDueTaskAryAry prio row }
  let suspended ← writeAry cfg.noTasks k.pSuspendedTaskAry k.noSuspendedTasks pT
  let k := { k with pSuspendedTaskAry := suspended, noSuspendedTasks := incU8 k.noSuspendedTasks,
                    pSuspendedTask := pT }
  match findDueClass k.noDueTasksAry cfg.noPrioClasses with
  | some idxPrio => do
    let head ← readAry cfg.maxNoTasksInPrioClass (k.pDueTaskAryAry idxPrio) 0
    pure ({ k with pActiveTask := head }, true)
  | none => pure ({ k with pActiveTask := cfg.idleTaskId }, true)

/-- What `PUSH_RET_CODE_OF_CONTEXT_SWITCH` does to the kernel's data: a non-zero event vector of
    the entered task is handed over as the return code of its suspend command, and cleared. -/
def retCodeOfContextSwitch (k : Kernel w) : Kernel w × Option (BitVec 16) :=
  let t := k.task k.pActiveTask
  if t.postedEventVec > 0 then
    (k.setTask k.pActiveTask { t with postedEventVec := 0 }, some t.postedEventVec)
  else (k, none)

/-- Handing over the return code clears the entered task's event vector and changes nothing else. -/
theorem retCodeOfContextSwitch_fst (k : Kernel w) :
    (retCodeOfContextSwitch k).1 = k.setTask k.pActiveTask { k.task k.pActiveTask with postedEventVec := 0 } := by
  simp only [retCodeOfContextSwitch]
  split
  · rfl
  · next quiet =>
    have zero : (k.task k.pActiveTask).postedEventVec = 0 := by
      rw [gt_iff_lt,BitVec.lt_def,Nat.not_lt] at quiet
      exact BitVec.eq_of_toNat_eq (by simp at quiet ⊢; omega)
    have same : { k.task k.pActiveTask with postedEventVec := 0 } = k.task k.pActiveTask := by rw [← zero]
    rw [same]
    simp [Kernel.setTask,Kernel.task]

/-- The ways into the kernel: the system timer interrupt, `rtos_setEvent` (through which the
    application interrupts post their event) and `rtos_waitForEvent`. -/
inductive Action (w : Nat) where
  | timerTic
  | setEvent (eventVec : BitVec 16)
  | waitForEvent (eventMask : BitVec 16) (all : Bool) (timeout : BitVec w)

/-- The C logic of a kernel entry. The idle task must not suspend: the code would crash. -/
def Action.logic : Action w → Kernel w → Option (Kernel w × Bool)
  | .timerTic, k => onTimerTic cfg k
  | .setEvent eventVec, k => RTuinOS.setEvent cfg eventVec k
  | .waitForEvent eventMask all timeout, k =>
    if k.pActiveTask = cfg.idleTaskId then none else RTuinOS.waitForEvent cfg eventMask all timeout k

/-- A kernel entry as the kernel's data sees it: the logic and, on a switch, the return code. -/
def step (a : Action w) (k : Kernel w) : Option (Kernel w) := do
  let (k, switch) ← a.logic cfg k
  pure (if switch then (retCodeOfContextSwitch k).1 else k)

/-- A sequence of kernel entries. -/
def run : List (Action w) → Kernel w → Option (Kernel w)
  | [], k => some k
  | a :: as, k => do run as (← step cfg a k)

end RTuinOS
