import RTuinOS.Switch

/-!
Event delivery over whole runs. For a suspended task the kernel keeps only the events of its mask
that were posted, and it clears the mask when it releases the task. A ghost record beside the
reachable states keeps, for every task, the condition of its last suspension, the events posted
since and whether it still waits for its return code. As long as every wait in "all" mode names a
non-timer event, every suspended task holds exactly the non-timer events of its mask posted since
it suspended and does not meet its condition yet; `setEvent` releases it exactly when the events
posted so far meet the condition, and a tick exactly when one of its timers fires; and the return
code a resumed task receives is non-zero, lies in its mask, carries exactly the non-timer events of
its mask posted while it was suspended and meets its condition, while a task that was only
preempted receives none.
-/
namespace RTuinOS
variable {w : Nat} (cfg : Config)

/-- The release condition as `rtos_waitForEvent` documents it, for a wait for the events `mask`, in
    "all" mode if `all`: in "any" mode some event; in "all" mode every non-timer event of the mask,
    or some timer event of the mask. -/
def Satisfies (mask : BitVec 16) (all : Bool) (v : BitVec 16) : Prop :=
  if all then mask &&& ~~~cfg.timerEvtMask &&& ~~~v = 0 ∨ v &&& mask &&& cfg.timerEvtMask ≠ 0 else v ≠ 0

instance (mask : BitVec 16) (all : Bool) (v : BitVec 16) : Decidable (Satisfies cfg mask all v) :=
  inferInstanceAs (Decidable (if all then _ else _))

section Bits
variable {p m e v x a : BitVec 16}

/-- Within the mask, the exclusive or of `checkForTaskActivation` leaves the events not posted. -/
theorem xor_and_not (within : p &&& ~~~m = 0) : (p ^^^ m) &&& ~~~x = m &&& ~~~x &&& ~~~p := by
  ext i
  have bit := congrArg (fun u => u.getLsbD i) within
  simp only [BitVec.getLsbD_and,BitVec.getLsbD_xor,BitVec.getLsbD_not,BitVec.getLsbD_zero,i.isLt,
    decide_True,Bool.true_and] at bit ⊢
  revert bit
  cases p.getLsbD i <;> cases m.getLsbD i <;> cases x.getLsbD i <;> simp

theorem and_of_within (within : p &&& ~~~m = 0) : p &&& m &&& x = p &&& x := by
  ext i
  have bit := congrArg (fun u => u.getLsbD i) within
  simp only [BitVec.getLsbD_and,BitVec.getLsbD_not,BitVec.getLsbD_zero,i.isLt,decide_True,Bool.true_and] at bit ⊢
  revert bit
  cases p.getLsbD i <;> cases m.getLsbD i <;> simp

/-- A vector without timer events is its own non-timer part. -/
theorem eq_and_not_of_and (noTimer : p &&& x = 0) : p = p &&& ~~~x := by
  ext i
  have bit := congrArg (fun u => u.getLsbD i) noTimer
  simp only [BitVec.getLsbD_and,BitVec.getLsbD_not,BitVec.getLsbD_zero,i.isLt,decide_True,Bool.true_and] at bit ⊢
  revert bit
  cases p.getLsbD i <;> cases x.getLsbD i <;> simp

/-- The non-timer events of the mask posted since suspending lie in the mask and are their own
    non-timer part. -/
theorem exact_within : e &&& m &&& ~~~x &&& ~~~m = 0 ∧ e &&& m &&& ~~~x &&& ~~~x = e &&& m &&& ~~~x ∧
    e &&& m &&& ~~~x &&& x = 0 := by
  refine ⟨?_,?_,?_⟩ <;> ext i <;>
    simp only [BitVec.getLsbD_and,BitVec.getLsbD_not,BitVec.getLsbD_zero,i.isLt,decide_True,Bool.true_and] <;>
    cases e.getLsbD i <;> cases m.getLsbD i <;> cases x.getLsbD i <;> simp

/-- `setEvent` adds the non-timer events of the mask it posts. -/
theorem post_exact : e &&& m &&& ~~~x ||| v &&& ~~~x &&& m = (e ||| v) &&& m &&& ~~~x := by
  ext i
  simp only [BitVec.getLsbD_and,BitVec.getLsbD_or,BitVec.getLsbD_not,i.isLt,decide_True,Bool.true_and]
  cases e.getLsbD i <;> cases m.getLsbD i <;> cases x.getLsbD i <;> cases v.getLsbD i <;> simp

/-- Posting timer events of the mask keeps a vector in the mask and its non-timer part as it is. -/
theorem or_timer (within : p &&& ~~~m = 0) (timer : a &&& ~~~x = 0) :
    (p ||| a &&& m) &&& ~~~m = 0 ∧ (p ||| a &&& m) &&& ~~~x = p &&& ~~~x := by
  constructor <;> ext i <;> have bit := congrArg (fun u => u.getLsbD i) within <;>
    have tbit := congrArg (fun u => u.getLsbD i) timer <;>
    simp only [BitVec.getLsbD_and,BitVec.getLsbD_or,BitVec.getLsbD_not,BitVec.getLsbD_zero,i.isLt,decide_True,
      Bool.true_and] at bit tbit ⊢ <;> revert bit tbit <;>
    cases p.getLsbD i <;> cases m.getLsbD i <;> cases x.getLsbD i <;> cases a.getLsbD i <;> simp

theorem or_eq_zero_iff : p ||| a = 0 ↔ p = 0 ∧ a = 0 := by
  constructor
  · intro zero
    constructor <;> ext i <;> have bit := congrArg (fun u => u.getLsbD i) zero <;>
      simp only [BitVec.getLsbD_or,BitVec.ofNat_eq_ofNat,BitVec.getLsbD_zero,Bool.or_eq_false_iff] at bit ⊢ <;>
      simp [bit]
  · rintro ⟨rfl,rfl⟩
    rfl

/-- Timer events posted to a vector without one meet a wait that was not met exactly when there
    are some. -/
theorem not_satisfies_or_timer_iff_aux (noTimer : p &&& x = 0) (timer : a &&& ~~~(m &&& x) = 0) :
    m &&& ~~~x &&& ~~~(p ||| a) = m &&& ~~~x &&& ~~~p ∧ (p ||| a) &&& m &&& x = a := by
  constructor <;> ext i <;> have bit := congrArg (fun u => u.getLsbD i) noTimer <;>
    have tbit := congrArg (fun u => u.getLsbD i) timer <;>
    simp only [BitVec.getLsbD_and,BitVec.getLsbD_or,BitVec.getLsbD_not,BitVec.ofNat_eq_ofNat,BitVec.getLsbD_zero,
      i.isLt,decide_True,Bool.true_and] at bit tbit ⊢ <;> revert bit tbit <;>
    cases p.getLsbD i <;> cases m.getLsbD i <;> cases x.getLsbD i <;> cases a.getLsbD i <;> simp

theorem timer_and_within (timer : a &&& ~~~x = 0) : a &&& m &&& ~~~(m &&& x) = 0 := by
  ext i
  have bit := congrArg (fun u => u.getLsbD i) timer
  simp only [BitVec.getLsbD_and,BitVec.getLsbD_not,BitVec.ofNat_eq_ofNat,BitVec.getLsbD_zero,i.isLt,decide_True,
    Bool.true_and] at bit ⊢
  revert bit
  cases a.getLsbD i <;> cases m.getLsbD i <;> cases x.getLsbD i <;> simp

theorem or_within (first : p &&& ~~~m = 0) (second : a &&& ~~~m = 0) : (p ||| a) &&& ~~~m = 0 := by
  ext i
  have bit := congrArg (fun u => u.getLsbD i) first
  have abit := congrArg (fun u => u.getLsbD i) second
  simp only [BitVec.getLsbD_and,BitVec.getLsbD_or,BitVec.getLsbD_not,BitVec.ofNat_eq_ofNat,BitVec.getLsbD_zero,i.isLt,
    decide_True,Bool.true_and] at bit abit ⊢
  revert bit abit
  cases p.getLsbD i <;> cases m.getLsbD i <;> cases a.getLsbD i <;> simp

theorem ite_or_ite_ne_zero (c d : Prop) [Decidable c] [Decidable d] :
    ((if c then p else 0) ||| if d then a else 0) ≠ 0 ↔ (c ∧ p ≠ 0) ∨ (d ∧ a ≠ 0) := by
  rw [Ne,or_eq_zero_iff]
  by_cases first : c <;> by_cases second : d <;> simp [first,second,not_and_or,imp_iff_not_or]

theorem ite_timer_within (c : Prop) [Decidable c] (timer : a &&& ~~~x = 0) :
    (if c then a &&& m else 0) &&& ~~~(m &&& x) = 0 := by
  split
  · exact timer_and_within timer
  · exact BitVec.zero_and

theorem or_timer_if (c : Prop) [Decidable c] (within : p &&& ~~~m = 0) (timer : a &&& ~~~x = 0) :
    (p ||| if c then a &&& m else 0) &&& ~~~m = 0 ∧ (p ||| if c then a &&& m else 0) &&& ~~~x = p &&& ~~~x := by
  split
  · exact or_timer within timer
  · simpa using within

end Bits

theorem absoluteTimer_and_not : cfg.evtAbsoluteTimer &&& ~~~cfg.timerEvtMask = 0 := by
  ext i
  simp only [Config.timerEvtMask,BitVec.getLsbD_and,BitVec.getLsbD_or,BitVec.getLsbD_not,BitVec.getLsbD_zero,i.isLt,
    decide_True,Bool.true_and]
  cases cfg.evtAbsoluteTimer.getLsbD i <;> simp

theorem delayTimer_and_not : cfg.evtDelayTimer &&& ~~~cfg.timerEvtMask = 0 := by
  ext i
  simp only [Config.timerEvtMask,BitVec.getLsbD_and,BitVec.getLsbD_or,BitVec.getLsbD_not,BitVec.getLsbD_zero,i.isLt,
    decide_True,Bool.true_and]
  cases cfg.evtDelayTimer.getLsbD i <;> simp

/-- The code's release condition is the documented one, for a task that holds only events of its
    mask. -/
theorem isReleased_iff_satisfies {t : Task w} (within : t.postedEventVec &&& ~~~t.eventMask = 0) :
    isReleased cfg t = true ↔ Satisfies cfg t.eventMask (!t.waitForAnyEvent) t.postedEventVec := by
  cases any : t.waitForAnyEvent <;> simp [isReleased,Satisfies,any,xor_and_not within]

/-- With nothing posted, a wait that names some event is not met. -/
theorem not_satisfies_zero {mask : BitVec 16} {all : Bool}
    (named : all = true → mask &&& ~~~cfg.timerEvtMask ≠ 0) : ¬ Satisfies cfg mask all 0 := by
  have nothing : mask &&& ~~~cfg.timerEvtMask &&& ~~~(0 : BitVec 16) = mask &&& ~~~cfg.timerEvtMask := by
    ext i
    simp only [BitVec.getLsbD_and,BitVec.getLsbD_not,BitVec.ofNat_eq_ofNat,BitVec.getLsbD_zero,i.isLt,decide_True,Bool.true_and,
      Bool.not_false,Bool.and_true]
  cases all
  · simp [Satisfies]
  · rw [Satisfies,if_pos rfl,nothing]
    simpa using named rfl

/-- The wait of a task: the condition of its last suspension, the events posted since it suspended,
    and whether it waits for its return code, having suspended and not run since. -/
structure Wait where
  mask : BitVec 16
  all : Bool
  events : BitVec 16
  pending : Bool

/-- The waits at `rtos_initRTOS`: every task `0`..`N-1` suspended with the start condition given
    to `rtos_initializeTask`, nothing posted yet. -/
def Wait.initial (inits : Nat → TaskInit w) (i : Nat) : Wait :=
  ⟨(inits i).startEventMask,(inits i).startByAllEvents,0,decide (i < cfg.noTasks)⟩

/-- What the logic of an entry from `k` adds to the waits: `setEvent` posts its events to every
    suspended task, and `rtos_waitForEvent` suspends the running task with its condition. -/
def Wait.post (h : Nat → Wait) (k : Kernel w) : Action w → Nat → Wait
  | .timerTic => h
  | .setEvent eventVec => fun T => if T ∈ k.suspendedList then { h T with events := (h T).events ||| eventVec } else h T
  | .waitForEvent eventMask all _ => Function.update h k.pActiveTask ⟨eventMask,all,0,true⟩

/-- The task an entry enters no longer waits for its return code. -/
def Wait.resume (h : Nat → Wait) (T : Nat) : Nat → Wait := Function.update h T { h T with pending := false }

/-- A vector of the events of the mask whose non-timer events are exactly those posted since the
    suspension. -/
def PostedSince (x : Wait) (v : BitVec 16) : Prop :=
  v &&& ~~~x.mask = 0 ∧ v &&& ~~~cfg.timerEvtMask = x.events &&& x.mask &&& ~~~cfg.timerEvtMask

/-- A task that waits for the condition of its last suspension, which names a non-timer event in
    "all" mode, holding the events of its mask posted since. -/
structure Waiter (x : Wait) (t : Task w) : Prop where
  pending : x.pending = true
  mask : t.eventMask = x.mask
  mode : t.waitForAnyEvent = !x.all
  named : x.all = true → x.mask &&& ~~~cfg.timerEvtMask ≠ 0
  since : PostedSince cfg x t.postedEventVec

/-- A suspended task: a waiter without a timer event, whose condition is not met yet. -/
structure Suspended (x : Wait) (t : Task w) extends Waiter cfg x t : Prop where
  noTimer : t.postedEventVec &&& cfg.timerEvtMask = 0
  unmet : ¬ Satisfies cfg x.mask x.all t.postedEventVec

/-- The event vector of a task that is not suspended: if it waits for its return code, a non-zero
    vector posted since it suspended that meets its condition; otherwise nothing. -/
def Ready (x : Wait) (v : BitVec 16) : Prop :=
  if x.pending then v ≠ 0 ∧ PostedSince cfg x v ∧ Satisfies cfg x.mask x.all v else v = 0

/-- The events of the tasks measured against their waits. -/
structure Waiting (k : Kernel w) (h : Nat → Wait) : Prop where
  suspended : ∀ T ∈ k.suspendedList, Suspended cfg (h T) (k.task T)
  ready : ∀ T ∉ k.suspendedList, Ready cfg (h T) (k.task T).postedEventVec

/-- The delivery invariant: the events measured against the waits, and the running task not
    waiting for a return code. -/
structure Delivered (k : Kernel w) (h : Nat → Wait) extends Waiting cfg k h : Prop where
  active : (h k.pActiveTask).pending = false

/-- A suspended task holds exactly the non-timer events of its mask posted since it suspended. -/
theorem Suspended.posted_eq {x : Wait} {t : Task w} (susp : Suspended cfg x t) :
    t.postedEventVec = x.events &&& x.mask &&& ~~~cfg.timerEvtMask :=
  (eq_and_not_of_and susp.noTimer).trans susp.since.2

/-- The release scan after a posting phase: a waiter stays suspended exactly when its condition is
    not met, and is otherwise released, waiting for its return code with a non-zero vector. -/
theorem Released.waiting {k2 k1 : Kernel w} {h : Nat → Wait}
    (waiters : ∀ T ∈ k2.suspendedList, Waiter cfg (h T) (k2.task T))
    (ready : ∀ T ∉ k2.suspendedList, Ready cfg (h T) (k2.task T).postedEventVec)
    (released : Released cfg k2 k1) : Waiting cfg k1 h := by
  obtain ⟨kept,-,tasks,-⟩ := released
  have iff : ∀ T ∈ k2.suspendedList,
      isReleased cfg (k2.task T) = true ↔ Satisfies cfg (h T).mask (h T).all (k2.task T).postedEventVec :=
    fun T mem => by
      have waiter := waiters T mem
      rw [isReleased_iff_satisfies cfg (waiter.mask ▸ waiter.since.1),waiter.mask,waiter.mode,Bool.not_not]
  refine ⟨fun T mem => ?_,fun T out => ?_⟩
  · rw [kept,keptOf,List.mem_filter,Bool.not_eq_true'] at mem
    obtain ⟨mem2,stays⟩ := mem
    have task : k1.task T = k2.task T := by
      rw [tasks,if_neg fun rel => by simp [(List.mem_filter.mp rel).2] at stays]
    have waiter := waiters T mem2
    rw [task]
    refine ⟨waiter,?_,fun met => by simp [(iff T mem2).mpr met] at stays⟩
    rw [← and_of_within (waiter.mask ▸ waiter.since.1)]
    exact unposted_of_kept cfg stays
  · by_cases rel : T ∈ releasedOf cfg k2 k2.suspendedList
    · obtain ⟨mem2,isRel⟩ := List.mem_filter.mp rel
      have waiter := waiters T mem2
      rw [tasks,if_pos rel]
      simp only [Ready,waiter.pending,if_true,releaseTask]
      refine ⟨posted_of_released cfg isRel fun any => ?_,waiter.since,(iff T mem2).mp isRel⟩
      rw [waiter.mask]
      exact waiter.named (by rw [waiter.mode] at any; simpa using any)
    · have out2 : T ∉ k2.suspendedList := fun mem2 => out (by
        rw [kept,keptOf,List.mem_filter]
        exact ⟨mem2,by simpa [releasedOf,mem2] using rel⟩)
      rw [tasks,if_neg rel]
      exact ready T out2

/-- The release scan releases a suspended task exactly when the code's condition holds. -/
theorem Released.not_mem_iff {k2 k1 : Kernel w} (released : Released cfg k2 k1) {T : Nat}
    (mem : T ∈ k2.suspendedList) : T ∉ k1.suspendedList ↔ isReleased cfg (k2.task T) = true := by
  rw [released.1,keptOf,List.mem_filter]
  simp [mem]

/-- The timer phase of a tick posts only timer events of the mask. -/
theorem ticTask_since (time : BitVec w) {t : Task w} (within : t.postedEventVec &&& ~~~t.eventMask = 0) :
    (ticTask cfg time t).postedEventVec &&& ~~~t.eventMask = 0 ∧
      (ticTask cfg time t).postedEventVec &&& ~~~cfg.timerEvtMask = t.postedEventVec &&& ~~~cfg.timerEvtMask := by
  rw [ticTask_postedEventVec]
  obtain ⟨within1,same1⟩ := or_timer_if (time = t.timeDueAt) within (absoluteTimer_and_not cfg)
  obtain ⟨within2,same2⟩ := or_timer_if (t.cntDelay > 0 ∧ t.cntDelay - 1 = 0) within1 (delayTimer_and_not cfg)
  exact ⟨within2,same2.trans same1⟩

section Phases
variable {k : Kernel w} {h : Nat → Wait}

/-- The timer phase of a tick keeps every suspended task a waiter and leaves the others' events. -/
theorem Waiting.tick {k2 : Kernel w} (waiting : Waiting cfg k h) (ticked : Ticked cfg k k2) :
    (∀ T ∈ k2.suspendedList, Waiter cfg (h T) (k2.task T)) ∧
      ∀ T ∉ k2.suspendedList, Ready cfg (h T) (k2.task T).postedEventVec := by
  obtain ⟨-,susp,tasks,-⟩ := ticked
  refine ⟨fun T mem => ?_,fun T out => ?_⟩
  · rw [susp] at mem
    have suspended := waiting.suspended T mem
    obtain ⟨within,same⟩ := ticTask_since cfg (k.time + 1) (suspended.mask ▸ suspended.since.1)
    rw [tasks,if_pos mem]
    refine ⟨suspended.pending,by rw [ticTask_eventMask,suspended.mask],by rw [ticTask_waitForAnyEvent,suspended.mode],
      suspended.named,?_,same.trans suspended.since.2⟩
    rw [← suspended.mask]
    exact within
  · rw [susp] at out
    rw [tasks,if_neg out]
    split <;> exact waiting.ready T out

/-- `setEvent` posts to every suspended task the non-timer events of its mask, as the waits
    record them. -/
theorem Waiting.postEvents (waiting : Waiting cfg k h) (eventVec : BitVec 16) :
    (∀ T ∈ k.suspendedList, Waiter cfg (Wait.post h k (.setEvent eventVec) T)
      ((k.mapTasks k.suspendedList (postEvents (eventVec &&& ~~~cfg.timerEvtMask))).task T)) ∧
    ∀ T ∉ k.suspendedList, Ready cfg (Wait.post h k (.setEvent eventVec) T)
      ((k.mapTasks k.suspendedList (postEvents (eventVec &&& ~~~cfg.timerEvtMask))).task T).postedEventVec := by
  refine ⟨fun T mem => ?_,fun T out => ?_⟩
  · have suspended := waiting.suspended T mem
    simp only [Wait.post,if_pos mem,Kernel.mapTasks_task]
    refine ⟨suspended.pending,suspended.mask,suspended.mode,suspended.named,?_⟩
    simp only [PostedSince,RTuinOS.postEvents,suspended.posted_eq,suspended.mask,post_exact]
    exact ⟨exact_within.1,exact_within.2.1⟩
  · simp only [Wait.post,if_neg out,Kernel.mapTasks_task]
    exact waiting.ready T out

end Phases

/-- `rtos_waitForEvent` suspends the running task with nothing posted and its condition unmet. -/
theorem Delivered.suspend {k k1 : Kernel w} {h : Nat → Wait} (delivered : Delivered cfg k h) (inv : SchedInv cfg k)
    {eventMask : BitVec 16} {all : Bool} {timeout : BitVec w} (named : all = true → eventMask &&& ~~~cfg.timerEvtMask ≠ 0)
    (susp : k1.suspendedList = k.suspendedList ++ [k.pActiveTask])
    (tasks : k1.taskAry = Function.update k.taskAry k.pActiveTask
      (storeResumeCondition cfg k.time (k.task k.pActiveTask) eventMask all timeout)) :
    Waiting cfg k1 (Wait.post h k (.waitForEvent eventMask all timeout)) := by
  have task : ∀ T, k1.task T = if T = k.pActiveTask then
      storeResumeCondition cfg k.time (k.task k.pActiveTask) eventMask all timeout else k.task T := fun T => by
    simp only [Kernel.task,tasks,Function.update_apply]
  have running := inv.active_not_mem_suspended
  have unposted : (k.task k.pActiveTask).postedEventVec = 0 := by
    simpa [Ready,delivered.active] using delivered.ready _ running
  refine ⟨fun T mem => ?_,fun T out => ?_⟩
  · simp only [Wait.post,Function.update_apply,task]
    split
    · refine ⟨⟨rfl,by simp,by simp,named,?_⟩,by simp [unposted],?_⟩
      · simp [PostedSince,unposted]
      · simpa [unposted] using not_satisfies_zero cfg named
    · next other =>
      rw [susp,List.mem_append,List.mem_singleton] at mem
      exact delivered.suspended T (mem.resolve_right other)
  · have other : T ≠ k.pActiveTask := fun same => out (by simp [susp,same])
    simp only [Wait.post,Function.update_noteq other,task,if_neg other]
    exact delivered.ready T fun mem => out (by simp [susp,mem])

/-- What the logic of an entry leaves: the events measured against the waits the entry adds. -/
theorem Delivered.logic {k k1 : Kernel w} {h : Nat → Wait} (delivered : Delivered cfg k h) (inv : SchedInv cfg k)
    {a : Action w} (waits : a.waitsForEvent cfg) {switch : Bool} (result : a.logic cfg k = some (k1,switch)) :
    Waiting cfg k1 (Wait.post h k a) := by
  obtain ⟨-,effect⟩ := logic_cases cfg inv result
  rcases effect with ⟨rfl,k2,-,ticked,released⟩ | ⟨eventVec,rfl,released⟩ |
    ⟨eventMask,all,timeout,rfl,-,susp,-,tasks,-⟩
  · obtain ⟨waiters,ready⟩ := delivered.tick cfg ticked
    exact Released.waiting cfg waiters ready released
  · obtain ⟨waiters,ready⟩ := delivered.postEvents cfg eventVec
    exact Released.waiting cfg waiters ready released
  · exact delivered.suspend cfg inv waits susp tasks

/-- The exit of an entry: on a switch the entered task's vector is handed over and it no longer
    waits for a return code; without one the running task stays, waiting for none. -/
theorem Waiting.exit {k1 : Kernel w} {h : Nat → Wait} {switch : Bool} (waiting : Waiting cfg k1 h)
    (out : k1.pActiveTask ∉ k1.suspendedList) (stays : switch = false → (h k1.pActiveTask).pending = false) :
    Delivered cfg (if switch then (retCodeOfContextSwitch k1).1 else k1) (Wait.resume h k1.pActiveTask) := by
  cases switch
  · have same : Wait.resume h k1.pActiveTask = h := by
      rw [Wait.resume,← stays rfl]
      exact Function.update_eq_self _ _
    rw [if_neg Bool.false_ne_true,same]
    exact ⟨waiting,stays rfl⟩
  · rw [if_pos rfl,retCodeOfContextSwitch_fst]
    refine ⟨⟨fun T mem => ?_,fun T notIn => ?_⟩,by simp [Wait.resume]⟩
    · have other : T ≠ k1.pActiveTask := fun same => out (same ▸ mem)
      simp only [Kernel.setTask_suspendedList] at mem
      simp only [Wait.resume,Function.update_noteq other,Kernel.setTask_task_other _ _ other]
      exact waiting.suspended T mem
    · simp only [Kernel.setTask_suspendedList] at notIn
      by_cases entered : T = k1.pActiveTask
      · subst entered
        simp [Wait.resume,Ready]
      · simp only [Wait.resume,Function.update_noteq entered,Kernel.setTask_task_other _ _ entered]
        exact waiting.ready T notIn

/-- A kernel entry keeps the delivery invariant, with its wait recorded and the entered task no
    longer waiting for a return code. -/
theorem Delivered.step {k k1 : Kernel w} {h : Nat → Wait} (delivered : Delivered cfg k h) (inv : SchedInv cfg k)
    {a : Action w} (waits : a.waitsForEvent cfg) {switch : Bool} (result : a.logic cfg k = some (k1,switch)) :
    Delivered cfg (if switch then (retCodeOfContextSwitch k1).1 else k1) (Wait.resume (Wait.post h k a) k1.pActiveTask) := by
  obtain ⟨⟨inv1,change,-⟩,-⟩ := logic_cases cfg inv result
  refine (delivered.logic cfg inv waits result).exit cfg inv1.active_not_mem_suspended fun quiet => ?_
  subst quiet
  have same : k1.pActiveTask = k.pActiveTask := by
    by_contra moved
    cases change.mpr moved
  rw [same]
  cases a with
  | timerTic => exact delivered.active
  | setEvent eventVec =>
    simp only [Wait.post,if_neg inv.active_not_mem_suspended]
    exact delivered.active
  | waitForEvent => cases logic_waitForEvent_switch cfg inv result

/-- A suspended task's wait met once timer events of its mask are posted: exactly when some are. -/
theorem Suspended.satisfies_or_timer_iff {x : Wait} {t : Task w} (susp : Suspended cfg x t) {a : BitVec 16}
    (timer : a &&& ~~~(x.mask &&& cfg.timerEvtMask) = 0) :
    Satisfies cfg x.mask x.all (t.postedEventVec ||| a) ↔ a ≠ 0 := by
  obtain ⟨nonTimer,timers⟩ := not_satisfies_or_timer_iff_aux susp.noTimer timer
  have unmet := susp.unmet
  cases all : x.all <;> simp only [Satisfies,all,if_true,if_false,Bool.false_eq_true] at unmet ⊢
  · rw [not_not.mp unmet]
    simp
  · rw [nonTimer,timers]
    exact ⟨fun met => met.resolve_left (fun full => unmet (.inl full)),.inr⟩

/-- The reachable states with their waits: the start, and every kernel entry whose wait in "all"
    mode names a non-timer event. -/
inductive Delivery (app : Application cfg w) : Kernel w → (Nat → Wait) → Prop
  | init {mem mem' : Mem} {k : Kernel w} : rtos_initRTOS cfg app.inits mem = some (k,mem') →
      Delivery app k (Wait.initial cfg app.inits)
  | step {k k1 : Kernel w} {h : Nat → Wait} {a : Action w} {switch : Bool} : Delivery app k h → a.waitsForEvent cfg →
      a.logic cfg k = some (k1,switch) →
      Delivery app (if switch then (retCodeOfContextSwitch k1).1 else k1) (Wait.resume (Wait.post h k a) k1.pActiveTask)

section Runs
variable {app : Application cfg w}
  (starts : ∀ i < cfg.noTasks, (app.inits i).startByAllEvents = true →
    (app.inits i).startEventMask &&& ~~~cfg.timerEvtMask ≠ 0)

theorem Delivery.reachable {k : Kernel w} {h : Nat → Wait} (run : Delivery cfg app k h) : Reachable cfg app k := by
  induction run with
  | init ok => exact .init ok
  | @step k k1 h a switch _ _ result reach => exact .step a reach (by simp [RTuinOS.step,result])

/-- The small application started, and the interrupt that posts event 0 to task 1, which leaves
    task 0 suspended and enters task 1. -/
theorem demo_delivery_start : ∃ (k k1 : Kernel 8),
    Delivery demoConfig demoApplication k (Wait.initial demoConfig demoApplication.inits) ∧
    k.suspendedList = [0,1] ∧ (Action.setEvent 1).logic demoConfig k = some (k1,true) ∧ k1.pActiveTask = 1 ∧
    k1.suspendedList = [0] :=
  let ⟨k,_,ok,susp,k1,result,entered,susp1⟩ : ∃ (k : Kernel 8) (mem : Mem),
      rtos_initRTOS demoConfig demoApplication.inits (fun _ => 0) = some (k,mem) ∧ k.suspendedList = [0,1] ∧
      ∃ k1, (Action.setEvent 1).logic demoConfig k = some (k1,true) ∧ k1.pActiveTask = 1 ∧ k1.suspendedList = [0] :=
    ⟨_,_,rfl,rfl,_,rfl,rfl,rfl⟩
  ⟨k,k1,.init ok,susp,result,entered,susp1⟩

theorem demo_posts_only : (Action.setEvent 1 : Action 8).waitsForEvent demoConfig := trivial

include starts in
/-- `rtos_initRTOS` leaves every task suspended with nothing posted and its start condition unmet. -/
theorem rtos_initRTOS_delivered {mem mem' : Mem} {k : Kernel w} (ok : rtos_initRTOS cfg app.inits mem = some (k,mem')) :
    Delivered cfg k (Wait.initial cfg app.inits) := by
  obtain ⟨-,active,suspended,-,-,tasks⟩ := rtos_initRTOS_spec cfg ok
  refine ⟨⟨fun T mem => ?_,fun T out => ?_⟩,?_⟩
  · rw [suspended,List.mem_range] at mem
    obtain ⟨t,sp,init,task⟩ := tasks T mem
    obtain ⟨t0,rfl⟩ := rtos_initializeTask_eq cfg init
    have named := starts T mem
    rw [task]
    exact ⟨⟨by simp [Wait.initial,mem],by simp [Wait.initial],by simp [Wait.initial],named,by simp [PostedSince,Wait.initial]⟩,
      by simp,by simpa using not_satisfies_zero cfg named⟩
  · rw [suspended,List.mem_range] at out
    simp [Ready,Wait.initial,out,rtos_initRTOS_unposted cfg ok T]
  · simp [active,Wait.initial,Config.idleTaskId]

include starts in
/-- The delivery invariant holds along every run. -/
theorem Delivery.delivered {k : Kernel w} {h : Nat → Wait} (run : Delivery cfg app k h) : Delivered cfg k h := by
  induction run with
  | init ok => exact rtos_initRTOS_delivered cfg starts ok
  | step run waits result delivered => exact delivered.step cfg (reachable_inv cfg run.reachable) waits result

include starts in
/-- Along every run whose waits in "all" mode name a non-timer event, the kernel keeps for every
    suspended task the condition of its last suspension and exactly the non-timer events of its
    mask posted since, and that condition is not met; a task released and not yet resumed holds a
    non-zero vector of its mask, with exactly the non-timer events posted while it was suspended,
    that meets its condition; every other task holds no event. -/
theorem delivery_events {k : Kernel w} {h : Nat → Wait} (run : Delivery cfg app k h) :
    (∀ T ∈ k.suspendedList, (k.task T).eventMask = (h T).mask ∧ (k.task T).waitForAnyEvent = !(h T).all ∧
      (k.task T).postedEventVec = (h T).events &&& (h T).mask &&& ~~~cfg.timerEvtMask ∧
      ¬ Satisfies cfg (h T).mask (h T).all (k.task T).postedEventVec) ∧
    (∀ T ∉ k.suspendedList, (h T).pending = true → (k.task T).postedEventVec ≠ 0 ∧
      PostedSince cfg (h T) (k.task T).postedEventVec ∧ Satisfies cfg (h T).mask (h T).all (k.task T).postedEventVec) ∧
    ∀ T ∉ k.suspendedList, (h T).pending = false → (k.task T).postedEventVec = 0 := by
  have delivered := run.delivered cfg starts
  refine ⟨fun T mem => ?_,fun T out pending => ?_,fun T out quiet => ?_⟩
  · have suspended := delivered.suspended T mem
    exact ⟨suspended.mask,suspended.mode,suspended.posted_eq,suspended.unmet⟩
  · simpa [Ready,pending] using delivered.ready T out
  · simpa [Ready,quiet] using delivered.ready T out

theorem demo_delivery_events : ∃ (k : Kernel 8) (h : Nat → Wait), Delivery demoConfig demoApplication k h ∧
    0 ∈ k.suspendedList ∧ (k.task 0).postedEventVec = (h 0).events &&& (h 0).mask &&& ~~~demoConfig.timerEvtMask := by
  obtain ⟨k,k1,start,-,result,-,susp1⟩ := demo_delivery_start
  have run := start.step demo_posts_only result
  have mem : 0 ∈ (if true = true then (retCodeOfContextSwitch k1).1 else k1).suspendedList := by
    simp [retCodeOfContextSwitch_fst,susp1]
  exact ⟨_,_,run,mem,((delivery_events demoConfig demoApplication_starts run).1 0 mem).2.2.1⟩

include starts in
/-- Every entry that switches hands the entered task, if it suspended since it last ran, a non-zero
    return code of its mask with exactly the non-timer events posted while it was suspended, this
    entry's included, which meets its condition; a task that was only preempted receives none. -/
theorem switch_retCode {k : Kernel w} {h : Nat → Wait} (run : Delivery cfg app k h) {a : Action w}
    (waits : a.waitsForEvent cfg) {k1 : Kernel w} (result : a.logic cfg k = some (k1,true)) :
    ((Wait.post h k a k1.pActiveTask).pending = true → ∃ v, (retCodeOfContextSwitch k1).2 = some v ∧ v ≠ 0 ∧
      PostedSince cfg (Wait.post h k a k1.pActiveTask) v ∧
      Satisfies cfg (Wait.post h k a k1.pActiveTask).mask (Wait.post h k a k1.pActiveTask).all v) ∧
    ((Wait.post h k a k1.pActiveTask).pending = false → (retCodeOfContextSwitch k1).2 = none) := by
  have inv := reachable_inv cfg run.reachable
  obtain ⟨⟨inv1,-,-⟩,-⟩ := logic_cases cfg inv result
  have ready := ((run.delivered cfg starts).logic cfg inv waits result).ready _ inv1.active_not_mem_suspended
  refine ⟨fun pending => ?_,fun quiet => ?_⟩
  · obtain ⟨nonzero,since,met⟩ : _ ∧ _ ∧ _ := by simpa [Ready,pending] using ready
    exact ⟨_,retCodeOfContextSwitch_snd_of_posted nonzero,nonzero,since,met⟩
  · exact retCodeOfContextSwitch_snd_eq_none.mpr (by simpa [Ready,quiet] using ready)

theorem demo_switch_retCode : ∃ (k k1 : Kernel 8) (v : BitVec 16),
    Delivery demoConfig demoApplication k (Wait.initial demoConfig demoApplication.inits) ∧
    (Action.setEvent 1).logic demoConfig k = some (k1,true) ∧ k1.pActiveTask = 1 ∧
    (retCodeOfContextSwitch k1).2 = some v ∧ v ≠ 0 ∧
    PostedSince demoConfig (Wait.post (Wait.initial demoConfig demoApplication.inits) k (.setEvent 1) 1) v := by
  obtain ⟨k,k1,run,susp,result,entered,-⟩ := demo_delivery_start
  have pending : (Wait.post (Wait.initial demoConfig demoApplication.inits) k (.setEvent 1) k1.pActiveTask).pending =
      true := by
    simp [entered,Wait.post,susp,Wait.initial,show 1 < demoConfig.noTasks by decide]
  obtain ⟨v,code,nonzero,since,-⟩ :=
    (switch_retCode demoConfig demoApplication_starts run demo_posts_only result).1 pending
  rw [entered] at since
  exact ⟨k,k1,v,run,result,entered,code,nonzero,since⟩

include starts in
/-- A suspended task is released by `setEvent` exactly when the events posted since it suspended,
    this post included, meet its condition, and by a tick exactly when a timer of its mask fires:
    the absolute timer when the advanced time reaches the due time, the delay timer when its
    counter runs out. -/
theorem released_iff {k : Kernel w} {h : Nat → Wait} (run : Delivery cfg app k h) {T : Nat}
    (suspended : T ∈ k.suspendedList) :
    (∀ eventVec k1 switch, setEvent cfg eventVec k = some (k1,switch) →
      (T ∉ k1.suspendedList ↔
        Satisfies cfg (h T).mask (h T).all (((h T).events ||| eventVec) &&& (h T).mask &&& ~~~cfg.timerEvtMask))) ∧
    ∀ k1 switch, onTimerTic cfg k = some (k1,switch) →
      (T ∉ k1.suspendedList ↔ (k.time + 1 = (k.task T).timeDueAt ∧ cfg.evtAbsoluteTimer &&& (h T).mask ≠ 0) ∨
        ((k.task T).cntDelay > 0 ∧ (k.task T).cntDelay - 1 = 0 ∧ cfg.evtDelayTimer &&& (h T).mask ≠ 0)) := by
  have inv := reachable_inv cfg run.reachable
  have delivered := run.delivered cfg starts
  have asleep := delivered.suspended T suspended
  refine ⟨fun eventVec k1 switch result => ?_,fun k1 switch result => ?_⟩
  · obtain ⟨k1',switch',result',-,released⟩ := setEvent_inv cfg inv eventVec
    rw [result',Option.some.injEq,Prod.mk.injEq] at result
    obtain ⟨rfl,rfl⟩ := result
    have waiter := (delivered.postEvents cfg eventVec).1 T suspended
    rw [released.not_mem_iff cfg suspended,isReleased_iff_satisfies cfg (waiter.mask ▸ waiter.since.1),waiter.mask,
      waiter.mode,Bool.not_not]
    simp only [Wait.post,if_pos suspended,Kernel.mapTasks_task,RTuinOS.postEvents,asleep.posted_eq,asleep.mask,
      post_exact]
  · obtain ⟨k1',switch',result',-,k2,-,⟨-,susp2,tasks2,-⟩,released⟩ := onTimerTic_inv cfg inv
    rw [result',Option.some.injEq,Prod.mk.injEq] at result
    obtain ⟨rfl,rfl⟩ := result
    have ticked : k2.task T = ticTask cfg (k.time + 1) (k.task T) := by rw [tasks2,if_pos suspended]
    obtain ⟨within,-⟩ := ticTask_since cfg (k.time + 1) (asleep.mask ▸ asleep.since.1)
    rw [released.not_mem_iff cfg (susp2 ▸ suspended),ticked,
      isReleased_iff_satisfies cfg (by rw [ticTask_eventMask]; exact within),ticTask_eventMask,
      ticTask_waitForAnyEvent,asleep.mask,asleep.mode,Bool.not_not,ticTask_postedEventVec,asleep.mask,BitVec.or_assoc,
      asleep.satisfies_or_timer_iff cfg (or_within (ite_timer_within _ (absoluteTimer_and_not cfg))
        (ite_timer_within _ (delayTimer_and_not cfg))),ite_or_ite_ne_zero]
    simp only [and_assoc]

theorem demo_released_by_event : ∃ (k k1 : Kernel 8),
    Delivery demoConfig demoApplication k (Wait.initial demoConfig demoApplication.inits) ∧
    setEvent demoConfig 1 k = some (k1,true) ∧ 1 ∉ k1.suspendedList := by
  obtain ⟨k,k1,run,susp,result,-,-⟩ := demo_delivery_start
  have mem : 1 ∈ k.suspendedList := by simp [susp]
  exact ⟨k,k1,run,result,((released_iff demoConfig demoApplication_starts run mem).1 1 k1 true result).mpr (by decide)⟩

end Runs

end RTuinOS
