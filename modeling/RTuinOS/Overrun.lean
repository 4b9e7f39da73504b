import RTuinOS.Reachable
import RTuinOS.Timers

/-!
The overrun counters. `storeResumeCondition` counts an overrun, saturating at 255, when a task
suspends for the absolute timer with its next due time not ahead of the current time, and
`rtos_getTaskOverrunCounter` reads a counter and may reset it. No other code touches a counter: along
every run, with the application's calls of `rtos_getTaskOverrunCounter` in between, each counter
reads the number of the task's late suspensions since its last reset, saturated at 255.
-/
namespace RTuinOS
variable {w : Nat} (cfg : Config)

/-- `rtos_getTaskOverrunCounter`: the overrun counter of task `idxTask`, reset in the same critical
    section if `doReset`. -/
def rtos_getTaskOverrunCounter (idxTask : Nat) (doReset : Bool) (k : Kernel w) : BitVec 8 × Kernel w :=
  if doReset then ((k.task idxTask).cntOverrun, k.setTask idxTask { k.task idxTask with cntOverrun := 0 })
  else ((k.task idxTask).cntOverrun, k)

/-- Whether an entry finds task `T` late: `T` runs and suspends for the absolute timer, its next due
    time not ahead of the current time. -/
def Action.late (k : Kernel w) (T : Nat) : Action w → Bool
  | .waitForEvent eventMask _ timeout => decide (T = k.pActiveTask ∧ eventMask &&& cfg.evtAbsoluteTimer ≠ 0 ∧
      ((k.task T).timeDueAt + timeout - k.time).toInt ≤ 0)
  | _ => false

@[simp] theorem ticTask_cntOverrun (time : BitVec w) (t : Task w) :
    (ticTask cfg time t).cntOverrun = t.cntOverrun := by
  simp only [ticTask]; split_ifs <;> rfl

theorem storeResumeCondition_cntOverrun (time : BitVec w) (t : Task w) (eventMask : BitVec 16) (all : Bool)
    (timeout : BitVec w) : (storeResumeCondition cfg time t eventMask all timeout).cntOverrun.toNat =
      if eventMask &&& cfg.evtAbsoluteTimer ≠ 0 ∧ (t.timeDueAt + timeout - time).toInt ≤ 0 then
        min (t.cntOverrun.toNat + 1) 255 else t.cntOverrun.toNat := by
  dsimp only [storeResumeCondition]
  by_cases absolute : eventMask &&& cfg.evtAbsoluteTimer ≠ 0
  · by_cases late : (t.timeDueAt + timeout - time).toInt ≤ 0
    · have both : eventMask &&& cfg.evtAbsoluteTimer ≠ 0 ∧ (t.timeDueAt + timeout - time).toInt ≤ 0 := ⟨absolute,late⟩
      rw [if_pos both,if_pos absolute,if_pos late]
      exact saturating_toNat _
    · have both : ¬(eventMask &&& cfg.evtAbsoluteTimer ≠ 0 ∧ (t.timeDueAt + timeout - time).toInt ≤ 0) :=
        fun both => late both.2
      rw [if_neg both,if_pos absolute,if_neg late]
  · have both : ¬(eventMask &&& cfg.evtAbsoluteTimer ≠ 0 ∧ (t.timeDueAt + timeout - time).toInt ≤ 0) :=
      fun both => absolute both.1
    rw [if_neg both,if_neg absolute]

theorem retCodeOfContextSwitch_cntOverrun (k : Kernel w) (T : Nat) :
    ((retCodeOfContextSwitch k).1.task T).cntOverrun = (k.task T).cntOverrun := by
  rw [retCodeOfContextSwitch_fst]
  by_cases entered : T = k.pActiveTask
  · rw [entered,Kernel.setTask_task_same]
  · rw [Kernel.setTask_task_other _ _ entered]

theorem Released.cntOverrun {k k1 : Kernel w} (released : Released cfg k k1) (T : Nat) :
    (k1.task T).cntOverrun = (k.task T).cntOverrun := by
  rw [released.2.2.1]
  split <;> rfl

theorem Ticked.cntOverrun {k k2 : Kernel w} (ticked : Ticked cfg k k2) (T : Nat) :
    (k2.task T).cntOverrun = (k.task T).cntOverrun := by
  rw [ticked.2.2.1]
  split_ifs <;> simp

/-- A kernel entry counts an overrun for a task exactly when it finds the task late. -/
theorem step_cntOverrun {k k' : Kernel w} (inv : SchedInv cfg k) {a : Action w} (stepped : step cfg a k = some k')
    (T : Nat) : (k'.task T).cntOverrun.toNat =
      if a.late cfg k T then min ((k.task T).cntOverrun.toNat + 1) 255 else (k.task T).cntOverrun.toNat := by
  obtain ⟨k1,switch,-,rfl,effect⟩ := step_cases cfg inv stepped
  have handOver : ((if switch then (retCodeOfContextSwitch k1).1 else k1).task T).cntOverrun = (k1.task T).cntOverrun := by
    split
    · exact retCodeOfContextSwitch_cntOverrun k1 T
    · rfl
  rw [handOver]
  rcases effect with ⟨rfl,k2,-,ticked,released⟩ | ⟨eventVec,rfl,released⟩ |
    ⟨eventMask,all,timeout,rfl,-,-,-,tasks,-⟩
  · rw [released.cntOverrun,ticked.cntOverrun]
    rfl
  · rw [released.cntOverrun,Kernel.mapTasks_task]
    split <;> rfl
  · have task : k1.task T = if T = k.pActiveTask then
        storeResumeCondition cfg k.time (k.task k.pActiveTask) eventMask all timeout else k.task T := by
      simp only [Kernel.task,tasks,Function.update_apply]
    rw [task]
    by_cases running : T = k.pActiveTask
    · subst running
      simp only [if_true,storeResumeCondition_cntOverrun,Action.late,true_and,decide_eq_true_eq]
    · simp [running,Action.late]

/-- The kernel states of an application with, for each task, its late suspensions since its counter
    was last reset: the start, every kernel entry, and every call of `rtos_getTaskOverrunCounter`. -/
inductive Overruns (app : Application cfg w) : Kernel w → (Nat → Nat) → Prop
  | init {mem mem' : Mem} {k : Kernel w} : rtos_initRTOS cfg app.inits mem = some (k,mem') →
      Overruns app k fun _ => 0
  | step {k k' : Kernel w} {n : Nat → Nat} (a : Action w) : Overruns app k n → step cfg a k = some k' →
      Overruns app k' fun T => if a.late cfg k T then n T + 1 else n T
  | poll {k : Kernel w} {n : Nat → Nat} (idxTask : Nat) (doReset : Bool) : Overruns app k n →
      Overruns app (rtos_getTaskOverrunCounter idxTask doReset k).2 (if doReset then Function.update n idxTask 0 else n)

section Runs
variable {app : Application cfg w}

/-- Along every run the scheduler's invariant holds and every counter, the idle task's included,
    is the count of late suspensions since its reset, saturated at 255. -/
theorem Overruns.counted {k : Kernel w} {n : Nat → Nat} (run : Overruns cfg app k n) :
    SchedInv cfg k ∧ ∀ T ≤ cfg.noTasks, (k.task T).cntOverrun.toNat = min (n T) 255 := by
  induction run with
  | @init mem mem' k ok =>
    obtain ⟨-,-,-,-,idle,tasks⟩ := rtos_initRTOS_spec cfg ok
    refine ⟨rtos_initRTOS_inv cfg app ok,fun T le => ?_⟩
    rcases Nat.lt_or_eq_of_le le with lt | rfl
    · obtain ⟨t,sp,-,task⟩ := tasks T lt
      rw [task]
      rfl
    · show (k.task cfg.idleTaskId).cntOverrun.toNat = _
      rw [idle]
      rfl
  | @step k k' n a _ stepped ih =>
    obtain ⟨inv,counted⟩ := ih
    refine ⟨step_inv cfg inv stepped,fun T le => ?_⟩
    rw [step_cntOverrun cfg inv stepped,counted T le]
    by_cases late : a.late cfg k T = true
    · simp only [late,if_true]
      omega
    · simp only [late,Bool.false_eq_true,if_false]
  | @poll k n idxTask doReset _ ih =>
    obtain ⟨inv,counted⟩ := ih
    cases doReset
    · exact ⟨inv,counted⟩
    · refine ⟨inv.setTask rfl rfl,fun T le => ?_⟩
      by_cases polled : T = idxTask
      · subst polled
        simp [rtos_getTaskOverrunCounter]
      · simp only [rtos_getTaskOverrunCounter,if_true,Kernel.setTask_task_other _ _ polled,
          Function.update_noteq polled]
        exact counted T le

/-- Along every run of an application, with its calls of `rtos_getTaskOverrunCounter` in between,
    the counter of every task reads the number of times the task suspended late for its absolute
    timer since the counter was last reset, saturated at 255. -/
theorem overrun_counter {k : Kernel w} {n : Nat → Nat} (run : Overruns cfg app k n) {idxTask : Nat}
    (lt : idxTask ≤ cfg.noTasks) (doReset : Bool) :
    (rtos_getTaskOverrunCounter idxTask doReset k).1.toNat = min (n idxTask) 255 := by
  rw [← (run.counted cfg).2 idxTask lt]
  cases doReset <;> rfl

/-- Task 0 of the event application, released by event 0 at time 255, suspends for the absolute
    timer 200 ticks after its due time 0, which is 55 ticks late: its counter reads 1. -/
theorem demo_overrun_counter : ∃ (k : Kernel 8) (n : Nat → Nat), Overruns demoConfig eventApplication k n ∧
    n 0 = 1 ∧ (rtos_getTaskOverrunCounter 0 true k).1.toNat = 1 := by
  obtain ⟨k,n,run,late⟩ : ∃ (k : Kernel 8) (n : Nat → Nat), Overruns demoConfig eventApplication k n ∧ n 0 = 1 :=
    ⟨_,_,.step (.waitForEvent demoConfig.evtAbsoluteTimer false 200)
      (.step (.setEvent 1) (@Overruns.init 8 demoConfig eventApplication (fun _ => 0) _ _ rfl) rfl) rfl,rfl⟩
  refine ⟨k,n,run,late,?_⟩
  rw [overrun_counter demoConfig run (Nat.zero_le _) true,late]
  rfl

end Runs

end RTuinOS
