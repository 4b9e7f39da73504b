import RTuinOS.ReturnCode
import RTuinOS.Frames
import RTuinOS.Timers

/-!
What a context switch is for, stated over the contexts alone. Each task that is not running keeps
the context it was descheduled with; a switch saves the running context for the task it leaves
and loads the one of the task it enters, with interrupts enabled and, if that task waits inside
`rtos_waitForEvent` or has not run yet, with the return code of its suspend command in `r24:r25`.

The code decides which frame a task has by its `postedEventVec`: it stages a return code exactly
when the vector is non-zero. The two agree as long as every task waiting in "all" mode waits for
some non-timer event: then a task is released only with a non-zero vector, and a task whose frame
lacks `r24:r25` is suspended or has its vector still set.
-/
namespace RTuinOS
variable {w : Nat} (cfg : Config)

/-- The contexts of the tasks: the one each task was descheduled with, as the entry saved it with
    the interrupt flag cleared; whether it was descheduled inside `rtos_waitForEvent`, or has not
    run yet; and the context of the running task. -/
structure Contexts where
  saved : Nat → Cpu
  waited : Nat → Bool
  cur : Cpu

/-- The context a task is entered with: the saved one, with the return code `code` in `r24:r25` if
    the task waits inside a suspend command, and the interrupt flag set by `reti`. -/
def resume (c : Cpu) (waited : Bool) (code : BitVec 16) : Cpu :=
  let c := if waited then c.withRetCode code else c
  { c with sreg := c.sreg ||| 0x80 }

section Resume
variable (c : Cpu) (waited : Bool) (code : BitVec 16)

@[simp] theorem resume_sp : (resume c waited code).sp = c.sp := by cases waited <;> rfl
@[simp] theorem resume_pc : (resume c waited code).pc = c.pc := by cases waited <;> rfl
@[simp] theorem resume_sreg : (resume c waited code).sreg = c.sreg ||| 0x80 := by cases waited <;> rfl
theorem resume_r : (resume c waited code).r = if waited then (c.withRetCode code).r else c.r := by
  cases waited <;> rfl

end Resume

/-- A kernel entry on the contexts: the running context is saved with interrupts disabled; on a
    switch from the task `left` to the task `entered` it is kept for `left`, marked as waiting for a
    return code if the entry is `rtos_waitForEvent`, and the context of `entered` is resumed with
    the return code `code`; otherwise the saved context is resumed at once. -/
def Contexts.enter (waits switch : Bool) (left entered : Nat) (code : BitVec 16) (s : Contexts) : Contexts :=
  let saving := { s.cur with sreg := s.cur.sreg &&& ~~~0x80 }
  if switch then
    let saved := Function.update s.saved left saving
    let waited := Function.update s.waited left waits
    ⟨saved,waited,resume (saved entered) (waited entered) code⟩
  else ⟨s.saved,s.waited,resume saving false code⟩

theorem Contexts.enter_false (waits : Bool) (left entered : Nat) (code : BitVec 16) (s : Contexts) :
    s.enter waits false left entered code = ⟨s.saved,s.waited,resume { s.cur with sreg := s.cur.sreg &&& ~~~0x80 } false code⟩ :=
  rfl

theorem Contexts.enter_true (waits : Bool) (left entered : Nat) (code : BitVec 16) (s : Contexts) :
    s.enter waits true left entered code =
      ⟨Function.update s.saved left { s.cur with sreg := s.cur.sreg &&& ~~~0x80 },Function.update s.waited left waits,
        resume (Function.update s.saved left { s.cur with sreg := s.cur.sreg &&& ~~~0x80 } entered)
          (Function.update s.waited left waits entered) code⟩ :=
  rfl

@[simp] theorem Contexts.enter_waited (waits switch : Bool) (left entered : Nat) (code : BitVec 16) (s : Contexts) :
    (s.enter waits switch left entered code).waited =
      if switch then Function.update s.waited left waits else s.waited := by
  unfold Contexts.enter; split <;> rfl

/-- Whether an entry is `rtos_waitForEvent`, which saves the context without `r24:r25`. -/
def Action.waits : Action w → Bool
  | .waitForEvent .. => true
  | _ => false

/-- A wait in "all" mode names some non-timer event. -/
def Action.waitsForEvent : Action w → Prop
  | .waitForEvent eventMask all _ => all = true → eventMask &&& ~~~cfg.timerEvtMask ≠ 0
  | _ => True

/-- Every suspended task waiting in "all" mode waits for some non-timer event. -/
def EventWaits (k : Kernel w) : Prop :=
  ∀ T ∈ k.suspendedList, (k.task T).waitForAnyEvent = false → (k.task T).eventMask &&& ~~~cfg.timerEvtMask ≠ 0

/-- Every task but `A` waits for a return code exactly when it is suspended or has an event
    posted. -/
def WaitedAgree (s : Contexts) (k : Kernel w) (A : Nat) : Prop :=
  ∀ T, T ≠ A → (s.waited T = true ↔ T ∈ k.suspendedList ∨ (k.task T).postedEventVec ≠ 0)

/-- Contexts and kernel agree on the frames: the running task has nothing posted, every other task
    waits for a return code exactly when the code will stage one, and all waits name an event. -/
structure Agreement (s : Contexts) (k : Kernel w) : Prop where
  active : (k.task k.pActiveTask).postedEventVec = 0
  waited : WaitedAgree s k k.pActiveTask
  events : EventWaits cfg k

/-- The active task is one of the tasks `0`..`N`. -/
theorem SchedInv.active_le {k : Kernel w} (inv : SchedInv cfg k) : k.pActiveTask ≤ cfg.noTasks := by
  by_cases idle : k.pActiveTask = cfg.idleTaskId
  · exact idle.le
  · exact (inv.mem_lt (List.mem_append_right _ (inv.active_mem_allDue idle))).le

/-- A released task that waits for some event has one posted. -/
theorem posted_of_released {t : Task w} (released : isReleased cfg t = true)
    (waits : t.waitForAnyEvent = false → t.eventMask &&& ~~~cfg.timerEvtMask ≠ 0) : t.postedEventVec ≠ 0 :=
  fun unposted => by
    obtain ⟨all,timerOnly⟩ := (isReleased_unposted_iff cfg unposted).mp released
    exact waits all timerOnly

@[simp] theorem ticTask_waitForAnyEvent (time : BitVec w) (t : Task w) :
    (ticTask cfg time t).waitForAnyEvent = t.waitForAnyEvent := by
  simp only [ticTask]; split_ifs <;> rfl

@[simp] theorem storeResumeCondition_waitForAnyEvent (time : BitVec w) (t : Task w) (eventMask : BitVec 16)
    (all : Bool) (timeout : BitVec w) :
    (storeResumeCondition cfg time t eventMask all timeout).waitForAnyEvent = !all := by
  unfold storeResumeCondition; split_ifs <;> rfl

/-- What the posting phase of a tick or of `setEvent` keeps: the suspended list, the conditions of
    the suspended tasks and the event vectors of the others. -/
def PostsOnly (k k2 : Kernel w) : Prop :=
  k2.suspendedList = k.suspendedList ∧
    (∀ T ∈ k.suspendedList, (k2.task T).eventMask = (k.task T).eventMask ∧
      (k2.task T).waitForAnyEvent = (k.task T).waitForAnyEvent) ∧
    ∀ T ∉ k.suspendedList, (k2.task T).postedEventVec = (k.task T).postedEventVec

theorem Ticked.postsOnly {k k2 : Kernel w} (ticked : Ticked cfg k k2) : PostsOnly k k2 := by
  obtain ⟨-,susp,tasks,-⟩ := ticked
  refine ⟨susp,fun T mem => by simp [tasks,mem],fun T out => ?_⟩
  rw [tasks,if_neg out]
  split <;> rfl

theorem postsOnly_mapTasks (k : Kernel w) (eventVec : BitVec 16) :
    PostsOnly k (k.mapTasks k.suspendedList (postEvents eventVec)) :=
  ⟨rfl,fun T mem => by simp [Kernel.mapTasks_task,mem,postEvents],
    fun T out => by simp [Kernel.mapTasks_task,out]⟩

/-- The release scan after a posting phase keeps the agreement for every task but the running one,
    whose event vector it leaves alone. -/
theorem released_agree {s : Contexts} {k k2 k1 : Kernel w} {A : Nat} (agree : WaitedAgree s k A)
    (events : EventWaits cfg k) (running : A ∉ k.suspendedList) (posts : PostsOnly k k2)
    (released : Released cfg k2 k1) :
    WaitedAgree s k1 A ∧ EventWaits cfg k1 ∧ (k1.task A).postedEventVec = (k.task A).postedEventVec ∧
      A ∉ k1.suspendedList := by
  obtain ⟨susp2,conds,others⟩ := posts
  obtain ⟨kept,-,tasks,-⟩ := released
  have stays : ∀ {T}, T ∈ k1.suspendedList → T ∈ k.suspendedList ∧ isReleased cfg (k2.task T) = false :=
    fun mem => by
      rw [kept,keptOf,susp2] at mem
      simpa using List.mem_filter.mp mem
  have other : ∀ {T}, T ∉ k.suspendedList →
      (k1.task T).postedEventVec = (k.task T).postedEventVec ∧ T ∉ k1.suspendedList := fun {T} out => by
    have notReleased : T ∉ releasedOf cfg k2 k2.suspendedList :=
      fun mem => out (susp2 ▸ List.mem_of_mem_filter mem)
    refine ⟨?_,fun mem => out (stays mem).1⟩
    rw [tasks,if_neg notReleased]
    exact others T out
  have waits : ∀ {T}, T ∈ k.suspendedList → (k2.task T).waitForAnyEvent = false →
      (k2.task T).eventMask &&& ~~~cfg.timerEvtMask ≠ 0 := fun mem any => by
    rw [(conds _ mem).1]
    exact events _ mem (by rw [← (conds _ mem).2]; exact any)
  refine ⟨fun T ne => ?_,fun T mem any => ?_,(other running).1,(other running).2⟩
  · by_cases susp : T ∈ k.suspendedList
    · refine iff_of_true ((agree T ne).mpr (.inl susp)) ?_
      cases rel : isReleased cfg (k2.task T)
      · exact .inl (by rw [kept]; exact List.mem_filter.mpr ⟨susp2 ▸ susp,by simp [rel]⟩)
      · have mem : T ∈ releasedOf cfg k2 k2.suspendedList := List.mem_filter.mpr ⟨susp2 ▸ susp,rel⟩
        rw [tasks,if_pos mem]
        exact .inr (show (k2.task T).postedEventVec ≠ 0 from posted_of_released cfg rel (waits susp))
    · obtain ⟨same,out⟩ := other susp
      rw [agree T ne,same]
      simp [susp,out]
  · obtain ⟨inK,rel⟩ := stays mem
    have task : k1.task T = k2.task T := by
      rw [tasks,if_neg (fun released => by simp [releasedOf,rel] at released)]
    rw [task] at any ⊢
    exact waits inK any

/-- What an entry's logic leaves of the agreement before a return code is handed over: every task
    but the one it left agrees, the left task has nothing posted and is suspended exactly when the
    entry is `rtos_waitForEvent`, and all waits still name an event. -/
theorem logic_agree {s : Contexts} {k k1 : Kernel w} (agree : Agreement cfg s k) (inv : SchedInv cfg k)
    {a : Action w} (waits : a.waitsForEvent cfg) {switch : Bool} (result : a.logic cfg k = some (k1,switch)) :
    WaitedAgree s k1 k.pActiveTask ∧ EventWaits cfg k1 ∧ (k1.task k.pActiveTask).postedEventVec = 0 ∧
      (k.pActiveTask ∈ k1.suspendedList ↔ a.waits = true) := by
  obtain ⟨-,effect⟩ := logic_cases cfg inv result
  have running := inv.active_not_mem_suspended
  rcases effect with ⟨rfl,k2,-,ticked,released⟩ | ⟨eventVec,rfl,released⟩ |
    ⟨eventMask,all,timeout,rfl,-,susp,-,tasks,-⟩
  · obtain ⟨agree1,events1,posted,out⟩ :=
      released_agree cfg agree.waited agree.events running (ticked.postsOnly cfg) released
    exact ⟨agree1,events1,posted.trans agree.active,by simp [out,Action.waits]⟩
  · obtain ⟨agree1,events1,posted,out⟩ :=
      released_agree cfg agree.waited agree.events running (postsOnly_mapTasks k _) released
    exact ⟨agree1,events1,posted.trans agree.active,by simp [out,Action.waits]⟩
  · have task : ∀ T, k1.task T = if T = k.pActiveTask then
        storeResumeCondition cfg k.time (k.task k.pActiveTask) eventMask all timeout else k.task T := fun T => by
      simp only [Kernel.task,tasks,Function.update_apply]
    refine ⟨fun T ne => ?_,fun T mem any => ?_,?_,by simp [susp,Action.waits]⟩
    · rw [agree.waited T ne,susp,task T,if_neg ne]
      simp [ne]
    · rw [susp,List.mem_append,List.mem_singleton] at mem
      rw [task T] at any ⊢
      split
      · next left =>
        rw [if_pos left] at any
        simp only [storeResumeCondition_eventMask,storeResumeCondition_waitForAnyEvent,Bool.not_eq_false'] at any ⊢
        exact waits any
      · next other =>
        rw [if_neg other] at any
        exact agree.events T (mem.resolve_right other) any
    · rw [task,if_pos rfl,storeResumeCondition_postedEventVec]
      exact agree.active

/-- A kernel entry keeps the agreement, and where it switches, the entered task waits for a return
    code exactly when the code stages one. -/
theorem Agreement.enter {s : Contexts} {k k1 : Kernel w} (agree : Agreement cfg s k) (inv : SchedInv cfg k)
    {a : Action w} (waits : a.waitsForEvent cfg) {switch : Bool} (result : a.logic cfg k = some (k1,switch))
    (code : BitVec 16) :
    (switch = true → (s.waited k1.pActiveTask = true ↔ (k1.task k1.pActiveTask).postedEventVec ≠ 0)) ∧
      Agreement cfg (s.enter a.waits switch k.pActiveTask k1.pActiveTask code)
        (if switch then (retCodeOfContextSwitch k1).1 else k1) := by
  obtain ⟨⟨inv1,change,-⟩,-⟩ := logic_cases cfg inv result
  obtain ⟨agree1,events1,posted,left⟩ := logic_agree cfg agree inv waits result
  have entered := inv1.active_not_mem_suspended
  cases switch
  · have same : k1.pActiveTask = k.pActiveTask := by
      by_contra moved
      cases change.mpr moved
    refine ⟨fun never => absurd never Bool.false_ne_true,?_⟩
    simp only [Bool.false_eq_true,if_false]
    exact ⟨by rw [same]; exact posted,by simpa [same] using agree1,events1⟩
  · have moved : k1.pActiveTask ≠ k.pActiveTask := change.mp rfl
    refine ⟨fun _ => by rw [agree1 _ moved]; simp [entered],?_⟩
    simp only [if_true,retCodeOfContextSwitch_fst]
    refine ⟨by simp,fun T ne => ?_,fun T mem any => ?_⟩
    · simp only [Kernel.setTask_pActiveTask] at ne
      simp only [Contexts.enter_waited,if_true,Kernel.setTask_suspendedList,Kernel.setTask_task_other _ _ ne]
      by_cases leftTask : T = k.pActiveTask
      · subst leftTask
        rw [Function.update_same,posted]
        cases a <;> simp_all [Action.waits]
      · rw [Function.update_noteq leftTask]
        exact agree1 T leftTask
    · simp only [Kernel.setTask_suspendedList] at mem
      have other : T ≠ k1.pActiveTask := fun same => entered (same ▸ mem)
      simp only [Kernel.setTask_pActiveTask,Kernel.setTask_task_other _ _ other] at any ⊢
      exact events1 T mem any

@[simp] theorem ticTask_stackPointer (time : BitVec w) (t : Task w) :
    (ticTask cfg time t).stackPointer = t.stackPointer := by
  simp only [ticTask]; split_ifs <;> rfl

@[simp] theorem storeResumeCondition_stackPointer (time : BitVec w) (t : Task w) (eventMask : BitVec 16)
    (all : Bool) (timeout : BitVec w) :
    (storeResumeCondition cfg time t eventMask all timeout).stackPointer = t.stackPointer := by
  unfold storeResumeCondition; split_ifs <;> rfl

/-- The C logic of an entry never touches a saved stack pointer: only `SWITCH_CONTEXT` does. -/
theorem logic_stackPointer {k k1 : Kernel w} (inv : SchedInv cfg k) {a : Action w} {switch : Bool}
    (result : a.logic cfg k = some (k1,switch)) (T : Nat) : (k1.task T).stackPointer = (k.task T).stackPointer := by
  obtain ⟨-,effect⟩ := logic_cases cfg inv result
  rcases effect with ⟨rfl,k2,-,⟨-,-,ticked,-⟩,⟨-,-,released,-⟩⟩ | ⟨eventVec,rfl,⟨-,-,released,-⟩⟩ |
    ⟨eventMask,all,timeout,rfl,-,-,-,tasks,-⟩
  · have tick : (k2.task T).stackPointer = (k.task T).stackPointer := by
      rw [ticked]; split_ifs <;> simp
    rw [released]; split <;> exact tick
  · rw [released]; split <;> simp [Kernel.mapTasks_task] <;> split <;> rfl
  · simp only [Kernel.task,tasks,Function.update_apply]
    split <;> simp_all

/-- Saving a stack pointer keeps the agreement. -/
theorem Agreement.setStackPointer {s : Contexts} {k : Kernel w} (agree : Agreement cfg s k) (T x : Nat) :
    Agreement cfg s (k.setTask T { k.task T with stackPointer := x }) := by
  have same : ∀ T', ((k.setTask T { k.task T with stackPointer := x }).task T').postedEventVec =
      (k.task T').postedEventVec ∧ ((k.setTask T { k.task T with stackPointer := x }).task T').eventMask =
      (k.task T').eventMask ∧ ((k.setTask T { k.task T with stackPointer := x }).task T').waitForAnyEvent =
      (k.task T').waitForAnyEvent := fun T' => by
    by_cases at_T : T' = T
    · subst at_T; simp
    · simp [Kernel.setTask_task_other _ _ at_T]
  refine ⟨by simpa [(same _).1] using agree.active,fun T' ne => ?_,fun T' mem any => ?_⟩
  · simp only [Kernel.setTask_pActiveTask] at ne
    simpa [(same T').1] using agree.waited T' ne
  · simp only [Kernel.setTask_suspendedList,(same T').2.1,(same T').2.2] at mem any ⊢
    exact agree.events T' mem any

end RTuinOS
