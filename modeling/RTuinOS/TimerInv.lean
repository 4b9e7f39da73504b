import RTuinOS.Reachable
import RTuinOS.Timers

/-!
The timers over whole runs. What a suspended task's timers are measured against is not recorded by
the kernel: the timeout of the task's last suspension and the ticks since. A history beside the
reachable states keeps them. In every reachable state every suspended task waiting for one timer
alone has it running: the delay counter has counted one tick down per tick since the task
suspended without reaching 0, and the due time lies strictly ahead. So the timer event is posted
in exactly the tick in which the timeout ends, and that tick releases the task.
-/
namespace RTuinOS
variable {w : Nat} (cfg : Config)

/-- For every task, the timeout of its last suspension and the ticks since. -/
structure History (w : Nat) where
  timeout : Nat → BitVec w
  ticks : Nat → Nat

/-- The history at `rtos_initRTOS`: every task suspended with its start timeout, no tick yet. -/
def History.initial (app : Application cfg w) : History w := ⟨fun i => (app.inits i).startTimeout,fun _ => 0⟩

/-- The history after a kernel entry from `k`. -/
def History.step (h : History w) (k : Kernel w) : Action w → History w
  | .timerTic => { h with ticks := fun i => h.ticks i + 1 }
  | .setEvent _ => h
  | .waitForEvent _ _ timeout =>
    ⟨Function.update h.timeout k.pActiveTask timeout,Function.update h.ticks k.pActiveTask 0⟩

/-- The reachable states with their history. -/
inductive Timed (app : Application cfg w) : Kernel w → History w → Prop
  | init {mem mem' : Mem} {k : Kernel w} :
      rtos_initRTOS cfg app.inits mem = some (k,mem') → Timed app k (History.initial cfg app)
  | step {k k' : Kernel w} {h : History w} (a : Action w) :
      Timed app k h → step cfg a k = some k' → Timed app k' (h.step k a)

theorem Timed.reachable {app : Application cfg w} {k : Kernel w} {h : History w} (timed : Timed cfg app k h) :
    Reachable cfg app k := by
  induction timed with
  | init ok => exact .init ok
  | step a _ stepped reach => exact .step a reach stepped

/-- Every reachable state has a history. -/
theorem Reachable.timed {app : Application cfg w} {k : Kernel w} (reach : Reachable cfg app k) :
    ∃ h, Timed cfg app k h := by
  induction reach with
  | init ok => exact ⟨_,.init ok⟩
  | step a _ stepped ih =>
    obtain ⟨h,timed⟩ := ih
    exact ⟨_,.step a timed stepped⟩

/-- The timers of every suspended task. -/
def SuspendedTimers (k : Kernel w) (h : History w) : Prop :=
  ∀ T ∈ k.suspendedList, TaskTimers cfg k.time (k.task T) (h.timeout T) (h.ticks T)

/-- The timer invariant: the running task has no event pending, and every suspended task's timers
    run. -/
structure TimerInv (k : Kernel w) (h : History w) : Prop where
  activeUnposted : (k.task k.pActiveTask).postedEventVec = 0
  suspended : SuspendedTimers cfg k h

/-- At a kernel exit a switch clears the entered task's event vector and touches no suspended task. -/
theorem TimerInv.exit {k1 : Kernel w} {h : History w} {switch : Bool} (inv1 : SchedInv cfg k1)
    (susp : SuspendedTimers cfg k1 h) (quiet : switch = false → (k1.task k1.pActiveTask).postedEventVec = 0) :
    TimerInv cfg (if switch then (retCodeOfContextSwitch k1).1 else k1) h := by
  cases switch
  · exact ⟨quiet rfl,susp⟩
  · simp only [if_true,retCodeOfContextSwitch_fst]
    refine ⟨by simp,fun T mem => ?_⟩
    simp only [Kernel.setTask_suspendedList,Kernel.setTask_time] at mem ⊢
    have other : T ≠ k1.pActiveTask := fun same => inv1.active_not_mem_suspended (same ▸ mem)
    rw [Kernel.setTask_task_other _ _ other]
    exact susp T mem

theorem TimerInv.initial (wide : 2 ≤ w) (app : Application cfg w) {mem mem' : Mem} {k : Kernel w}
    (ok : rtos_initRTOS cfg app.inits mem = some (k,mem')) : TimerInv cfg k (History.initial cfg app) := by
  obtain ⟨time,active,susp,_,idle,tasks⟩ := rtos_initRTOS_spec cfg ok
  refine ⟨by rw [active,idle]; rfl,fun T mem => ?_⟩
  rw [susp,List.mem_range] at mem
  obtain ⟨t,sp,init,task⟩ := tasks T mem
  obtain ⟨t0,rfl⟩ := rtos_initializeTask_eq cfg init
  rw [task,time]
  exact TaskTimers.of_store wide t0 (app.inits T).startEventMask (app.inits T).startByAllEvents rfl rfl rfl rfl

/-- Every kernel entry keeps the timer invariant. -/
theorem TimerInv.step (wide : 2 ≤ w) {k k' : Kernel w} {h : History w} (inv : SchedInv cfg k)
    (timers : TimerInv cfg k h) {a : Action w} (stepped : step cfg a k = some k') : TimerInv cfg k' (h.step k a) := by
  cases a with
  | timerTic =>
    obtain ⟨k1,switch,result,⟨inv1,change,_⟩,k2,_,⟨time2,susp2,task2,_⟩,⟨susp1,_,task1,time1⟩⟩ := onTimerTic_inv cfg inv
    simp only [RTuinOS.step,Action.logic,result,Option.bind_eq_bind,Option.some_bind,Option.pure_def,Option.some.injEq] at stepped
    subst stepped
    have released : ∀ T ∈ releasedOf cfg k2 k2.suspendedList, T ∈ k.suspendedList := fun T mem =>
      susp2 ▸ List.mem_of_mem_filter mem
    refine TimerInv.exit cfg inv1 (fun T mem => ?_) (fun quiet => ?_)
    · rw [susp1] at mem
      obtain ⟨mem2,kept⟩ := List.mem_filter.mp mem
      have stays : T ∉ releasedOf cfg k2 k2.suspendedList := fun rel => by
        simp [(List.mem_filter.mp rel).2] at kept
      rw [susp2] at mem2
      have tic : k2.task T = ticTask cfg (k.time + 1) (k.task T) := by rw [task2,if_pos mem2]
      rw [task1,if_neg stays,tic,time1,time2]
      exact (timers.suspended T mem2).tic wide (by rw [← tic]; simpa using kept)
    · have same : k1.pActiveTask = k.pActiveTask := by simpa [quiet] using change
      have out : k.pActiveTask ∉ k.suspendedList := inv.active_not_mem_suspended
      rw [same,task1,if_neg (fun rel => out (released _ rel)),task2,if_neg out]
      split
      · exact timers.activeUnposted
      · exact timers.activeUnposted
  | setEvent eventVec =>
    obtain ⟨k1,switch,result,⟨inv1,change,_⟩,⟨susp1,_,task1,time1⟩⟩ := setEvent_inv cfg inv eventVec
    simp only [RTuinOS.step,Action.logic,result,Option.bind_eq_bind,Option.some_bind,Option.pure_def,Option.some.injEq] at stepped
    subst stepped
    refine TimerInv.exit cfg inv1 (fun T mem => ?_) (fun quiet => ?_)
    · rw [susp1] at mem
      obtain ⟨mem2,kept⟩ := List.mem_filter.mp mem
      have stays : T ∉ releasedOf cfg (k.mapTasks k.suspendedList (postEvents (eventVec &&& ~~~cfg.timerEvtMask)))
          k.suspendedList := fun rel => by simp [(List.mem_filter.mp rel).2] at kept
      rw [Kernel.mapTasks_suspendedList] at mem2
      rw [task1,Kernel.mapTasks_suspendedList,if_neg stays,Kernel.mapTasks_task,if_pos mem2,time1]
      exact (timers.suspended T mem2).post _ (by simpa [Kernel.mapTasks_task,mem2] using kept)
    · have same : k1.pActiveTask = k.pActiveTask := by simpa [quiet] using change
      have out : k.pActiveTask ∉ k.suspendedList := inv.active_not_mem_suspended
      rw [same,task1,Kernel.mapTasks_suspendedList,
        if_neg (show k.pActiveTask ∉ releasedOf cfg _ k.suspendedList from fun rel => out (List.mem_of_mem_filter rel)),
        Kernel.mapTasks_task,if_neg out]
      exact timers.activeUnposted
  | waitForEvent eventMask all timeout =>
    by_cases idle : k.pActiveTask = cfg.idleTaskId
    · simp [RTuinOS.step,Action.logic,idle] at stepped
    obtain ⟨k1,result,inv1,_,_,susp1,_,ary,time1⟩ := inv.waitForEvent_inv idle eventMask all timeout
    simp only [RTuinOS.step,Action.logic,if_neg idle,result,Option.bind_eq_bind,Option.some_bind,Option.pure_def,
      Option.some.injEq] at stepped
    subst stepped
    refine @TimerInv.exit w cfg k1 _ true inv1 (fun T mem => ?_) (fun quiet => absurd quiet (by simp))
    rw [susp1,List.mem_append,List.mem_singleton] at mem
    simp only [History.step,time1]
    rcases mem with old | new
    · have other : T ≠ k.pActiveTask := fun same => inv.active_not_mem_suspended (same ▸ old)
      rw [task_of_update_other ary other,Function.update_noteq other,Function.update_noteq other]
      exact timers.suspended T old
    · subst new
      rw [Function.update_same,Function.update_same]
      have task : k1.task k.pActiveTask = storeResumeCondition cfg k.time (k.task k.pActiveTask) eventMask all timeout := by
        simp [Kernel.task,ary]
      rw [task]
      exact TaskTimers.of_store wide _ _ _ (by simpa using timers.activeUnposted) (by simp) rfl rfl

theorem timed_inv (wide : 2 ≤ w) {app : Application cfg w} {k : Kernel w} {h : History w}
    (timed : Timed cfg app k h) : TimerInv cfg k h := by
  induction timed with
  | init ok => exact TimerInv.initial cfg wide app ok
  | step a timed stepped timers => exact TimerInv.step cfg wide (reachable_inv cfg timed.reachable) timers stepped

/-- In every reachable state, a suspended task waiting for the delay timer alone has a counter of
    at least 1 that adds up with the ticks since it suspended to `timeout+1`, or `timeout` where that
    wraps; the next tick posts the delay event exactly when that many ticks have passed, and then
    releases the task. A task waiting for the absolute timer alone has its due time strictly ahead;
    the next tick posts the event exactly when the time reaches it, and then releases the task. -/
theorem timed_timers (wide : 2 ≤ w) {app : Application cfg w} {k : Kernel w} {h : History w}
    (timed : Timed cfg app k h) {T : Nat} (suspended : T ∈ k.suspendedList) :
    (DelayOnly cfg (k.task T).eventMask →
      1 ≤ (k.task T).cntDelay.toNat ∧ (k.task T).cntDelay.toNat + h.ticks T = (delayReload (h.timeout T)).toNat ∧
      ∃ k' switch, onTimerTic cfg k = some (k',switch) ∧
        ((k'.task T).postedEventVec &&& (k.task T).eventMask &&& cfg.evtDelayTimer ≠ 0 ↔
          h.ticks T + 1 = (delayReload (h.timeout T)).toNat) ∧
        (h.ticks T + 1 = (delayReload (h.timeout T)).toNat → T ∉ k'.suspendedList)) ∧
    (AbsoluteOnly cfg (k.task T).eventMask →
      1 ≤ ((k.task T).timeDueAt - k.time).toInt ∧
      ∃ k' switch, onTimerTic cfg k = some (k',switch) ∧
        ((k'.task T).postedEventVec &&& (k.task T).eventMask &&& cfg.evtAbsoluteTimer ≠ 0 ↔
          k.time + 1 = (k.task T).timeDueAt) ∧
        (k.time + 1 = (k.task T).timeDueAt → T ∉ k'.suspendedList)) := by
  obtain ⟨clean,delay,absolute⟩ := (timed_inv cfg wide timed).suspended T suspended
  obtain ⟨k1,switch,result,_,k2,_,⟨_,susp2,task2,_⟩,⟨susp1,_,task1,_⟩⟩ :=
    onTimerTic_inv cfg (reachable_inv cfg timed.reachable)
  have tic : k2.task T = ticTask cfg (k.time + 1) (k.task T) := by rw [task2,if_pos suspended]
  have posted : (k1.task T).postedEventVec = (ticTask cfg (k.time + 1) (k.task T)).postedEventVec := by
    rw [task1,← tic]; split <;> rfl
  have leaves : isReleased cfg (ticTask cfg (k.time + 1) (k.task T)) = true → T ∉ k1.suspendedList := by
    intro released mem
    rw [susp1] at mem
    have stays := (List.mem_filter.mp mem).2
    rw [tic,released] at stays
    cases stays
  refine ⟨fun only => ?_,fun only => ?_⟩
  · obtain ⟨pos,count⟩ := delay only
    obtain ⟨fires,releases,_⟩ := @ticTask_delay w cfg (k.time + 1) (k.task T) clean only pos
    refine ⟨pos,count,k1,switch,result,?_,fun last => leaves (releases (by omega))⟩
    rw [posted,fires]
    constructor <;> intro <;> omega
  · obtain ⟨fires,releases⟩ := @ticTask_absolute w cfg (k.time + 1) (k.task T) clean only
    exact ⟨absolute only,k1,switch,result,by rw [posted,fires],fun due => leaves (releases due)⟩

theorem demo_timers : ∃ (k : Kernel 8) (h : History 8), Timed demoConfig demoApplication k h ∧
    1 ≤ (k.task 0).cntDelay.toNat :=
  let timed := @Timed.init 8 demoConfig demoApplication (fun _ => 0) _ _ rfl
  ⟨_,_,timed,((timed_timers demoConfig (by decide) timed (by decide)).1 (by decide)).1⟩

end RTuinOS
