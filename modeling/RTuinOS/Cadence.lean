import RTuinOS.TimerInv
import RTuinOS.RoundRobin
import RTuinOS.Events

/-!
The absolute timer over runs. Across a kernel entry a suspended task that the release scan keeps
is changed only by the entry's own phase: a tick runs its timer phase at the advanced time, a post
posts the vector's non-timer events, and another task's wait leaves it alone. A task waiting in
"any" mode for the absolute timer alone gets nothing from a post, and from a tick only its timer
event, in the tick that reaches its due time. So it stays suspended, due at the same time, through
every entry up to that tick, which releases it. After a call in time, `L` ticks after its due time
`d` with period `p`, the release comes at `d + p`, after `p - L` more ticks: the task's releases
are exactly `p` ticks apart. The wait is in "any" mode: in "all" mode a mask of timer events alone
is met by the first release scan.
-/
namespace RTuinOS
variable {w : Nat} (cfg : Config)

/-- What an entry from `k` does to a suspended task before the release scan. -/
def Action.onSuspended (k : Kernel w) : Action w → Task w → Task w
  | .timerTic => ticTask cfg (k.time + 1)
  | .setEvent eventVec => postEvents (eventVec &&& ~~~cfg.timerEvtMask)
  | .waitForEvent .. => id

/-- The system time after an entry from `k`. -/
def Action.nextTime (k : Kernel w) : Action w → BitVec w
  | .timerTic => k.time + 1
  | _ => k.time

/-- Whether an entry from `k` is the tick that brings the system time to `due`. -/
def Action.reaches (k : Kernel w) (due : BitVec w) : Action w → Bool
  | .timerTic => decide (k.time + 1 = due)
  | _ => false

section Frame
variable {cfg} {k k1 k2 : Kernel w} {T : Nat}

/-- The release scan keeps a suspended task it does not release as it is. -/
theorem Released.kept (released : Released cfg k2 k1) (mem : T ∈ k2.suspendedList)
    (kept : isReleased cfg (k2.task T) = false) : T ∈ k1.suspendedList ∧ k1.task T = k2.task T := by
  refine ⟨by rw [released.1,keptOf,List.mem_filter]; simp [mem,kept],?_⟩
  rw [released.2.2.1,if_neg]
  simp [releasedOf,kept]

/-- Handing over to the entered task touches no suspended task. -/
theorem handOver_task (inv1 : SchedInv cfg k1) (switch : Bool) (mem : T ∈ k1.suspendedList) :
    (if switch then (retCodeOfContextSwitch k1).1 else k1).task T = k1.task T := by
  have other : T ≠ k1.pActiveTask := fun same => inv1.active_not_mem_suspended (same ▸ mem)
  split
  · rw [retCodeOfContextSwitch_fst,Kernel.setTask_task_other _ _ other]
  · rfl

theorem handOver_time (switch : Bool) : (if switch then (retCodeOfContextSwitch k1).1 else k1).time = k1.time := by
  split <;> simp [retCodeOfContextSwitch_fst]

/-- Across a kernel entry a suspended task becomes what the entry's phase makes of it, and the
    release scan keeps it suspended exactly when that is not released. A task whose condition is
    unmet is kept by another task's wait. -/
theorem step_suspended (inv : SchedInv cfg k) {a : Action w} {k' : Kernel w} (stepped : step cfg a k = some k')
    (mem : T ∈ k.suspendedList) (unmet : isReleased cfg (k.task T) = false) :
    k'.time = a.nextTime k ∧
      (isReleased cfg (a.onSuspended cfg k (k.task T)) = false →
        T ∈ k'.suspendedList ∧ k'.task T = a.onSuspended cfg k (k.task T)) ∧
      (isReleased cfg (a.onSuspended cfg k (k.task T)) = true → T ∉ k'.suspendedList) := by
  obtain ⟨k1,switch,⟨inv1,-,-⟩,rfl,effect⟩ := step_cases cfg inv stepped
  rw [handOver_time,handOver_suspendedList]
  have kept : ∀ t, T ∈ k1.suspendedList ∧ k1.task T = t →
      T ∈ k1.suspendedList ∧ (if switch then (retCodeOfContextSwitch k1).1 else k1).task T = t :=
    fun t ⟨mem1,task1⟩ => ⟨mem1,(handOver_task inv1 switch mem1).trans task1⟩
  rcases effect with ⟨rfl,k2,-,ticked,released⟩ | ⟨eventVec,rfl,released⟩ |
    ⟨eventMask,all,timeout,rfl,-,susp,-,ary,time⟩
  · have task2 : k2.task T = Action.onSuspended cfg k .timerTic (k.task T) := by rw [ticked.2.2.1,if_pos mem]; rfl
    have mem2 : T ∈ k2.suspendedList := ticked.2.1 ▸ mem
    refine ⟨released.2.2.2.trans ticked.1,fun stays => kept _ ?_,fun rel => ?_⟩
    · rw [← task2]; exact released.kept mem2 (task2 ▸ stays)
    · exact (released.not_mem_iff cfg mem2).mpr (task2 ▸ rel)
  · have task2 : (k.mapTasks k.suspendedList (postEvents (eventVec &&& ~~~cfg.timerEvtMask))).task T =
        Action.onSuspended cfg k (.setEvent eventVec) (k.task T) := by rw [Kernel.mapTasks_task,if_pos mem]; rfl
    refine ⟨released.2.2.2,fun stays => kept _ ?_,fun rel => ?_⟩
    · rw [← task2]; exact released.kept mem (task2 ▸ stays)
    · exact (released.not_mem_iff cfg mem).mpr (task2 ▸ rel)
  · have other : T ≠ k.pActiveTask := fun same => inv.active_not_mem_suspended (same ▸ mem)
    refine ⟨time,fun _ => kept _ ⟨by rw [susp]; exact List.mem_append_left _ mem,task_of_update_other ary other⟩,
      fun rel => ?_⟩
    rw [Action.onSuspended,id,unmet] at rel
    cases rel

end Frame

/-- A task waiting in "any" mode for the absolute timer alone, due at `due`, with nothing posted. -/
structure AbsoluteWaiter (due : BitVec w) (t : Task w) : Prop where
  mask : t.eventMask = cfg.evtAbsoluteTimer
  any : t.waitForAnyEvent = true
  dueAt : t.timeDueAt = due
  unposted : t.postedEventVec = 0

/-- Task `T` is suspended, waiting in "any" mode for the absolute timer alone, due at `due`, with
    nothing posted. -/
structure AbsoluteWait (T : Nat) (due : BitVec w) (k : Kernel w) : Prop where
  suspended : T ∈ k.suspendedList
  waiter : AbsoluteWaiter cfg due (k.task T)

theorem isReleased_of_any {t : Task w} (any : t.waitForAnyEvent = true) :
    isReleased cfg t = (t.postedEventVec != 0) := by
  simp [isReleased,any]

/-- The tick that brings the time to `x` leaves one tick between them. -/
theorem toNat_sub_le_one {x y : BitVec w} (next : y + 1 = x) : (x - y).toNat ≤ 1 := by
  rw [← next,add_sub_cancel_left]
  show (BitVec.ofNat w 1).toNat ≤ 1
  rw [BitVec.toNat_ofNat]
  exact Nat.mod_le 1 _

/-- One tick between `y` and `x`: the next tick brings the time to `x`. -/
theorem add_one_eq_of_toNat_sub {x y : BitVec w} (one : (x - y).toNat = 1) : y + 1 = x := by
  have pos : 0 < w := Nat.pos_of_ne_zero fun zero => by
    subst zero
    have := (x - y).isLt
    simp at this; omega
  have diff : x - y = 1 := BitVec.eq_of_toNat_eq (by rw [one,toNat_one pos])
  rw [← diff,add_sub_cancel]

/-- Called in time, `late` ticks after its due time with period `timeout`, both below half the
    cycle, a task suspending for the absolute timer is due one period after its last due time. -/
theorem storeResumeCondition_advances (t : Task w) {time timeout late : BitVec w} (all : Bool)
    (absBit : cfg.evtAbsoluteTimer ≠ 0) (lateness : 0 ≤ late.toInt) (inTime : late.toInt < timeout.toInt)
    (since : time = t.timeDueAt + late) :
    (storeResumeCondition cfg time t cfg.evtAbsoluteTimer all timeout).timeDueAt = t.timeDueAt + timeout := by
  have signed : (t.timeDueAt + timeout - time).toInt = timeout.toInt - late.toInt := by
    rw [since,add_sub_add_left_eq_sub,toInt_sub_of_nonneg (by omega) lateness]
  simp only [storeResumeCondition,BitVec.and_self,if_pos absBit,signed]
  rw [if_neg (by omega)]

/-- A call `rtos_waitForEvent(RTOS_EVT_ABSOLUTE_TIMER, false, p)` in time, `L` ticks after the
    caller's due time `d` with `0 ≤ L < p`, leaves the caller waiting for the absolute timer alone,
    due at `d + p`. -/
theorem absoluteWait_of_call (absBit : cfg.evtAbsoluteTimer ≠ 0) {k k1 : Kernel w} (inv : SchedInv cfg k)
    (unposted : (k.task k.pActiveTask).postedEventVec = 0) {p L : BitVec w} (lateness : 0 ≤ L.toInt)
    (inTime : L.toInt < p.toInt) (since : k.time = (k.task k.pActiveTask).timeDueAt + L)
    (called : step cfg (.waitForEvent cfg.evtAbsoluteTimer false p) k = some k1) :
    AbsoluteWait cfg k.pActiveTask ((k.task k.pActiveTask).timeDueAt + p) k1 ∧ k1.time = k.time := by
  obtain ⟨k2,switch,⟨inv2,-,-⟩,rfl,effect⟩ := step_cases cfg inv called
  rcases effect with ⟨wrong,-⟩ | ⟨_,wrong,-⟩ | ⟨eventMask,all,timeout,same,-,susp,-,ary,time⟩
  · cases wrong
  · cases wrong
  cases same
  have mem : k.pActiveTask ∈ k2.suspendedList := by rw [susp]; exact List.mem_append_right _ (List.mem_singleton_self _)
  have task : k2.task k.pActiveTask =
      storeResumeCondition cfg k.time (k.task k.pActiveTask) cfg.evtAbsoluteTimer false p := by
    simp [Kernel.task,ary]
  refine ⟨⟨by rwa [handOver_suspendedList],?_⟩,by rw [handOver_time,time]⟩
  rw [handOver_task inv2 switch mem,task]
  exact ⟨storeResumeCondition_eventMask .., by simp,
    storeResumeCondition_advances cfg _ false absBit lateness inTime since,
    by rw [storeResumeCondition_postedEventVec,unposted]⟩

section Waits
variable {cfg} (apart : cfg.evtAbsoluteTimer &&& cfg.evtDelayTimer = 0) (absBit : cfg.evtAbsoluteTimer ≠ 0)
include apart absBit

/-- An entry's phase posts to a task waiting for the absolute timer alone its timer event in the
    tick that reaches its due time, and nothing otherwise. -/
theorem AbsoluteWaiter.onSuspended {due : BitVec w} {t : Task w} (waiter : AbsoluteWaiter cfg due t) (k : Kernel w)
    (a : Action w) : isReleased cfg (a.onSuspended cfg k t) = a.reaches k due ∧
      (a.reaches k due = false → AbsoluteWaiter cfg due (a.onSuspended cfg k t)) := by
  obtain ⟨mask,any,dueAt,unposted⟩ := waiter
  cases a with
  | timerTic =>
    have posted : (ticTask cfg (k.time + 1) t).postedEventVec = if k.time + 1 = due then cfg.evtAbsoluteTimer else 0 := by
      rw [ticTask_postedEventVec,unposted,mask,dueAt,BitVec.and_self,BitVec.and_comm,apart]
      split <;> simp
    have released := isReleased_of_any cfg (t := ticTask cfg (k.time + 1) t) (by rw [ticTask_waitForAnyEvent,any])
    have fires : isReleased cfg (Action.onSuspended cfg k .timerTic t) = decide (k.time + 1 = due) := by
      rw [Action.onSuspended,released,posted]
      by_cases reached : k.time + 1 = due
      · rw [if_pos reached,decide_eq_true reached]; exact bne_iff_ne.mpr absBit
      · rw [if_neg reached,decide_eq_false reached]; rfl
    refine ⟨fires,fun early => ?_⟩
    show AbsoluteWaiter cfg due (ticTask cfg (k.time + 1) t)
    exact ⟨by rw [ticTask_eventMask,mask],by rw [ticTask_waitForAnyEvent,any],by rw [ticTask_timeDueAt,dueAt],
      by rw [posted,if_neg (of_decide_eq_false early)]⟩
  | setEvent eventVec =>
    have posted : (postEvents (eventVec &&& ~~~cfg.timerEvtMask) t).postedEventVec = 0 := by
      rw [postEvents,unposted,mask,BitVec.and_assoc,BitVec.and_comm (~~~cfg.timerEvtMask),absoluteTimer_and_not]
      simp
    have released := isReleased_of_any cfg (t := postEvents (eventVec &&& ~~~cfg.timerEvtMask) t) any
    exact ⟨by rw [Action.onSuspended,released,posted]; rfl,fun _ => ⟨mask,any,dueAt,posted⟩⟩
  | waitForEvent =>
    exact ⟨by rw [Action.onSuspended,id,isReleased_of_any cfg any,unposted]; rfl,fun _ => ⟨mask,any,dueAt,unposted⟩⟩

/-- An entry keeps a task waiting for the absolute timer alone, due at `due`, unless it is the tick
    that reaches `due`, which releases it. -/
theorem AbsoluteWait.step {T : Nat} {due : BitVec w} {k k' : Kernel w} (wait : AbsoluteWait cfg T due k)
    (inv : SchedInv cfg k) {a : Action w} (stepped : step cfg a k = some k') :
    k'.time = a.nextTime k ∧ (a.reaches k due = true → T ∉ k'.suspendedList) ∧
      (a.reaches k due = false → AbsoluteWait cfg T due k') := by
  have unmet : isReleased cfg (k.task T) = false := by
    rw [isReleased_of_any cfg wait.waiter.any,wait.waiter.unposted]; rfl
  obtain ⟨time,kept,left⟩ := step_suspended inv stepped wait.suspended unmet
  obtain ⟨released,waiter⟩ := wait.waiter.onSuspended apart absBit k a
  refine ⟨time,fun reaches => left (released.trans reaches),fun early => ?_⟩
  obtain ⟨mem,task⟩ := kept (released.trans early)
  exact ⟨mem,task ▸ waiter early⟩

/-- Along every run with fewer ticks than are left to `due`, a task waiting for the absolute timer
    alone stays waiting, due at `due`, and each tick brings the time one closer to it. -/
theorem AbsoluteWait.run {T : Nat} {due : BitVec w} {as : List (Action w)} :
    ∀ {k k' : Kernel w}, AbsoluteWait cfg T due k → SchedInv cfg k → run cfg as k = some k' →
      tickCount as < (due - k.time).toNat →
      AbsoluteWait cfg T due k' ∧ (due - k'.time).toNat + tickCount as = (due - k.time).toNat := by
  induction as with
  | nil =>
    intro k k' wait _ ran _
    cases ran
    exact ⟨wait,rfl⟩
  | cons a as ih =>
    intro k k' wait inv ran early
    obtain ⟨k1,stepped,rest⟩ : ∃ k1, RTuinOS.step cfg a k = some k1 ∧ RTuinOS.run cfg as k1 = some k' := by
      simpa [RTuinOS.run,Option.bind_eq_some] using ran
    obtain ⟨time,-,stays⟩ := wait.step apart absBit inv stepped
    have inv1 := step_inv cfg inv stepped
    cases a with
    | timerTic =>
      simp only [tickCount] at early ⊢
      have notDue : ¬ k.time + 1 = due := fun reached => by
        have := toNat_sub_le_one reached; omega
      have closer : (due - k1.time).toNat = (due - k.time).toNat - 1 := by
        rw [time,Action.nextTime,sub_add_eq_sub_sub,toNat_sub_one (by omega)]
      obtain ⟨wait1,count⟩ := ih (stays (decide_eq_false notDue)) inv1 rest (by omega)
      exact ⟨wait1,by omega⟩
    | setEvent | waitForEvent =>
      simp only [Action.nextTime] at time
      rw [← time] at early ⊢
      exact ih (stays rfl) inv1 rest early

end Waits

/-- The absolute timer's period over runs. A task that calls
    `rtos_waitForEvent(RTOS_EVT_ABSOLUTE_TIMER, false, p)` `L` ticks after its due time `d`, in time
    (`0 ≤ L < p`, below half the cycle), stays suspended and due at `d + p` along every following
    run of kernel entries with fewer than `p - L` ticks. After `p - L - 1` ticks the time is one
    short of `d + p`, and the next tick releases it. So its release ticks, at `d` and at `d + p`,
    are exactly `p` ticks apart. -/
theorem absolute_timer_period (wide : 2 ≤ w) (apart : cfg.evtAbsoluteTimer &&& cfg.evtDelayTimer = 0)
    (absBit : cfg.evtAbsoluteTimer ≠ 0) {app : Application cfg w} {k k1 : Kernel w} (reach : Reachable cfg app k)
    {p L : BitVec w} (lateness : 0 ≤ L.toInt) (inTime : L.toInt < p.toInt)
    (since : k.time = (k.task k.pActiveTask).timeDueAt + L)
    (called : step cfg (.waitForEvent cfg.evtAbsoluteTimer false p) k = some k1)
    {as : List (Action w)} {k' : Kernel w} (ran : run cfg as k1 = some k') (early : tickCount as < (p - L).toNat) :
    k.pActiveTask ∈ k'.suspendedList ∧ (k'.task k.pActiveTask).timeDueAt = (k.task k.pActiveTask).timeDueAt + p ∧
      (tickCount as + 1 = (p - L).toNat → k'.time + 1 = (k.task k.pActiveTask).timeDueAt + p ∧
        ∃ k'', step cfg .timerTic k' = some k'' ∧ k.pActiveTask ∉ k''.suspendedList) := by
  have inv := reachable_inv cfg reach
  obtain ⟨_,timed⟩ := reach.timed cfg
  obtain ⟨wait1,time1⟩ := absoluteWait_of_call cfg absBit inv (timed_inv cfg wide timed).activeUnposted
    lateness inTime since called
  have left : ((k.task k.pActiveTask).timeDueAt + p - k1.time).toNat = (p - L).toNat := by
    rw [time1,since,add_sub_add_left_eq_sub]
  obtain ⟨wait',count⟩ := wait1.run apart absBit (step_inv cfg inv called) ran (left ▸ early)
  refine ⟨wait'.suspended,wait'.waiter.dueAt,fun last => ?_⟩
  have next : k'.time + 1 = (k.task k.pActiveTask).timeDueAt + p := add_one_eq_of_toNat_sub (by omega)
  have inv' := reachable_inv cfg ((reach.step _ called).run cfg ran)
  obtain ⟨k2,switch,result,-⟩ := onTimerTic_inv cfg inv'
  have ticked : step cfg .timerTic k' = some (if switch then (retCodeOfContextSwitch k2).1 else k2) := by
    simp only [RTuinOS.step,Action.logic,result,Option.bind_eq_bind,Option.some_bind,Option.pure_def]
  exact ⟨next,_,ticked,(wait'.step apart absBit inv' ticked).2.1 (decide_eq_true next)⟩

/-- Task 0 of the event application runs at time 0, its due time, and suspends for the absolute
    timer with period 3: it stays suspended through two ticks, after which the time is 2, and the
    third tick releases it. -/
theorem demo_absolute_period : ∃ k k1 k' : Kernel 8, Reachable demoConfig eventApplication k ∧
    step demoConfig (.waitForEvent demoConfig.evtAbsoluteTimer false 3) k = some k1 ∧
    run demoConfig [.timerTic,.timerTic] k1 = some k' ∧ 0 ∈ k'.suspendedList ∧ k'.time + 1 = 3 ∧
    ∃ k'', step demoConfig .timerTic k' = some k'' ∧ 0 ∉ k''.suspendedList := by
  obtain ⟨k,k1,k',reach,active,due,since,called,ran⟩ : ∃ k k1 k' : Kernel 8,
      Reachable demoConfig eventApplication k ∧ k.pActiveTask = 0 ∧ (k.task 0).timeDueAt = 0 ∧
      k.time = (k.task k.pActiveTask).timeDueAt + 0 ∧
      step demoConfig (.waitForEvent demoConfig.evtAbsoluteTimer false 3) k = some k1 ∧
      run demoConfig [.timerTic,.timerTic] k1 = some k' :=
    ⟨_,_,_,.step .timerTic (.step (.setEvent 1)
      (@Reachable.init 8 demoConfig eventApplication (fun _ => 0) _ _ rfl) rfl) rfl,rfl,rfl,rfl,rfl,rfl⟩
  obtain ⟨suspended,-,release⟩ := absolute_timer_period demoConfig (by decide) (by decide) (by decide) reach
    (by decide) (by decide) since called ran (by decide)
  obtain ⟨next,k'',ticked,released⟩ := release (by decide)
  rw [active] at suspended next released
  rw [due,zero_add] at next
  exact ⟨k,k1,k',reach,called,ran,suspended,next,k'',ticked,released⟩

end RTuinOS
