import RTuinOS.Simulation
import RTuinOS.Events

/-!
What a task sees of the kernel on the machine. The runs of the machine are traced with the waits of
the tasks, as `Delivery` traces the kernel's states, and every run has its trace. Along it, each
switch resumes the entered task where it left off: a task that suspended in `rtos_waitForEvent`
finds in `r24:r25` the event vector that released it, non-zero, within the mask of its call, with
exactly the non-timer events posted while it waited and meeting its condition; a task that was
only preempted finds its registers as it left them.
-/
namespace RTuinOS
variable {w : Nat} (cfg : Config)

/-- Saving a stack pointer keeps the delivery invariant, which reads only the event fields. -/
theorem Delivered.setStackPointer {k : Kernel w} {h : Nat → Wait} (delivered : Delivered cfg k h) (T x : Nat) :
    Delivered cfg (k.setTask T { k.task T with stackPointer := x }) h := by
  have task : ∀ T', ∃ sp, (k.setTask T { k.task T with stackPointer := x }).task T' =
      { k.task T' with stackPointer := sp } := fun T' => by
    by_cases same : T' = T
    · exact ⟨x,by rw [same,Kernel.setTask_task_same]⟩
    · exact ⟨(k.task T').stackPointer,Kernel.setTask_task_other _ _ same⟩
  refine ⟨⟨fun T' mem => ?_,fun T' out => ?_⟩,delivered.active⟩
  · obtain ⟨sp,eq⟩ := task T'
    have susp := delivered.suspended T' mem
    rw [eq]
    exact ⟨⟨susp.pending,susp.mask,susp.mode,susp.named,susp.since⟩,susp.noTimer,susp.unmet⟩
  · obtain ⟨sp,eq⟩ := task T'
    rw [eq]
    exact delivered.ready T' out

/-- The runs of the machine traced with the waits of the tasks: those of `Runs`, each kernel entry
    recording its wait as `Delivery` does. -/
inductive Traced (app : Application cfg w) (region : Nat → Nat × Nat) : Contexts → Machine w → (Nat → Wait) → Prop
  | init {mem mem' : Mem} {k : Kernel w} (c : Cpu) : rtos_initRTOS cfg app.inits mem = some (k,mem') →
      Traced app region (startContexts cfg app.inits c) ⟨k,mem',c⟩ (Wait.initial cfg app.inits)
  | task {s : Contexts} {m m' : Machine w} {h : Nat → Wait} : Traced app region s m h → TaskRun region m m' →
      Traced app region { s with cur := m'.cpu } m' h
  | enter {s : Contexts} {m m' : Machine w} {h : Nat → Wait} {a : Action w} {k1 : Kernel w} {switch : Bool} :
      Traced app region s m h → a.waitsForEvent cfg → EntryRoom region m → a.logic cfg m.k = some (k1,switch) →
      m.enter cfg a = some m' →
      Traced app region (s.enter a.waits switch m.k.pActiveTask k1.pActiveTask (k1.task k1.pActiveTask).postedEventVec)
        m' (Wait.resume (Wait.post h m.k a) k1.pActiveTask)

section Traces
variable {app : Application cfg w} {region : Nat → Nat × Nat}

theorem Traced.runs {s : Contexts} {m : Machine w} {h : Nat → Wait} (run : Traced cfg app region s m h) :
    Runs cfg app region s m := by
  induction run with
  | init c ok => exact .init c ok
  | task _ ran ih => exact ih.task ran
  | enter _ waits room result entered ih => exact ih.enter waits room result entered

/-- Every run of the machine has its trace. -/
theorem Runs.traced {s : Contexts} {m : Machine w} (run : Runs cfg app region s m) :
    ∃ h, Traced cfg app region s m h := by
  induction run with
  | init c ok => exact ⟨_,.init c ok⟩
  | task _ ran ih =>
    obtain ⟨h,traced⟩ := ih
    exact ⟨h,traced.task ran⟩
  | enter _ waits room result entered ih =>
    obtain ⟨h,traced⟩ := ih
    exact ⟨_,traced.enter waits room result entered⟩

variable (apart : StacksApart cfg region)
  (regions : ∀ i < cfg.noTasks, region i = ((app.inits i).pStackArea,(app.inits i).stackSize))
  (starts : ∀ i < cfg.noTasks, (app.inits i).startByAllEvents = true →
    (app.inits i).startEventMask &&& ~~~cfg.timerEvtMask ≠ 0)
include apart regions starts

/-- The delivery invariant holds along every traced run. -/
theorem Traced.delivered {s : Contexts} {m : Machine w} {h : Nat → Wait} (run : Traced cfg app region s m h) :
    Delivered cfg m.k h := by
  induction run with
  | init c ok => exact rtos_initRTOS_delivered cfg starts ok
  | task _ ran delivered => rw [ran.1]; exact delivered
  | @enter s m m' h a k1 switch run waits room result entered delivered =>
    obtain ⟨holds,agree,inv⟩ := (run.runs cfg).holds cfg apart regions starts
    obtain ⟨m'',entered',-,kernel⟩ := holds.enter cfg apart inv agree waits room result
    rw [entered,Option.some.injEq] at entered'
    subst entered'
    have step := delivered.step cfg inv waits result
    rw [kernel]
    cases switch
    · exact step
    · obtain ⟨⟨-,change,-⟩,-⟩ := logic_cases cfg inv result
      have left : (retCodeOfContextSwitch k1).1.task m.k.pActiveTask = k1.task m.k.pActiveTask := by
        rw [retCodeOfContextSwitch_fst,Kernel.setTask_task_other _ _ (Ne.symm (change.mp rfl))]
      rw [← left]
      exact step.setStackPointer cfg _ _

/-- Every switching entry of a traced run resumes the entered task where it left off: if it
    suspended in `rtos_waitForEvent` since it last ran, with the event vector that released it in
    `r24:r25`, non-zero, within the mask of its call, with exactly the non-timer events posted while
    it waited, this entry's included, and meeting its condition; if it was only preempted, with all
    its registers as it left them. -/
theorem switch_returns {s : Contexts} {m : Machine w} {h : Nat → Wait} (run : Traced cfg app region s m h)
    {a : Action w} (waits : a.waitsForEvent cfg) (room : EntryRoom region m) {k1 : Kernel w}
    (result : a.logic cfg m.k = some (k1,true)) :
    ∃ m', m.enter cfg a = some m' ∧ m'.cpu.pc = (s.saved k1.pActiveTask).pc ∧
      m'.cpu.sp = (s.saved k1.pActiveTask).sp ∧
      ((Wait.post h m.k a k1.pActiveTask).pending = true → ∃ v, v ≠ 0 ∧
        PostedSince cfg (Wait.post h m.k a k1.pActiveTask) v ∧
        Satisfies cfg (Wait.post h m.k a k1.pActiveTask).mask (Wait.post h m.k a k1.pActiveTask).all v ∧
        m'.cpu.r 24 = lowByte v ∧ m'.cpu.r 25 = highByte v ∧
        ∀ j < 32, j ≠ 24 → j ≠ 25 → m'.cpu.r j = (s.saved k1.pActiveTask).r j) ∧
      ((Wait.post h m.k a k1.pActiveTask).pending = false → ∀ j < 32, m'.cpu.r j = (s.saved k1.pActiveTask).r j) := by
  obtain ⟨holds,agree,inv⟩ := (run.runs cfg).holds cfg apart regions starts
  obtain ⟨m',step,holds',-⟩ := holds.enter cfg apart inv agree waits room result
  obtain ⟨⟨inv1,change,-⟩,-⟩ := logic_cases cfg inv result
  have moved : k1.pActiveTask ≠ m.k.pActiveTask := change.mp rfl
  have resumed := holds'.cpu
  rw [Contexts.enter_true,Function.update_noteq moved,Function.update_noteq moved] at resumed
  obtain ⟨regs,-,sp,pc⟩ := resumed
  have staging := (agree.enter cfg inv waits result (k1.task k1.pActiveTask).postedEventVec).1 rfl
  have ready := ((run.delivered cfg apart regions starts).logic cfg inv waits result).ready _
    inv1.active_not_mem_suspended
  refine ⟨m',step,pc.trans (resume_pc _ _ _),sp.trans (resume_sp _ _ _),fun pending => ?_,fun quiet j lt => ?_⟩
  · obtain ⟨nonzero,since,met⟩ : _ ∧ _ ∧ _ := by simpa [Ready,pending] using ready
    have waited := staging.mpr nonzero
    refine ⟨_,nonzero,since,met,?_,?_,fun j lt low high => ?_⟩
    · simp [regs 24 (by omega),resume_r,waited,Cpu.withRetCode]
    · simp [regs 25 (by omega),resume_r,waited,Cpu.withRetCode]
    · simp [regs j lt,resume_r,waited,Cpu.withRetCode,Function.update_apply,low,high]
  · have unposted : (k1.task k1.pActiveTask).postedEventVec = 0 := by simpa [Ready,quiet] using ready
    have waited : s.waited k1.pActiveTask = false := by simpa [unposted] using staging
    rw [regs j lt,resume_r,waited,if_neg Bool.false_ne_true]

end Traces

/-- The small application started on the machine, the idle task running with room for an entry,
    and the interrupt that posts event 0 to task 1, which suspended at the start and is entered. -/
theorem demo_machine_start : ∃ (k : Kernel 8) (mem : Mem) (k1 : Kernel 8),
    rtos_initRTOS demoConfig demoApplication.inits (fun _ => 0) = some (k,mem) ∧ k.pActiveTask = 2 ∧
    k.suspendedList = [0,1] ∧ EntryRoom demoRegion ⟨k,mem,demoCpu⟩ ∧
    (Action.setEvent 1).logic demoConfig k = some (k1,true) ∧ k1.pActiveTask = 1 := by
  obtain ⟨k,mem,ok,idle,susp,k1,result,entered⟩ : ∃ (k : Kernel 8) (mem : Mem),
      rtos_initRTOS demoConfig demoApplication.inits (fun _ => 0) = some (k,mem) ∧ k.pActiveTask = 2 ∧
      k.suspendedList = [0,1] ∧ ∃ k1, (Action.setEvent 1).logic demoConfig k = some (k1,true) ∧ k1.pActiveTask = 1 :=
    ⟨_,_,rfl,rfl,rfl,_,rfl,rfl⟩
  refine ⟨k,mem,k1,ok,idle,susp,?_,result,entered⟩
  show (demoRegion k.pActiveTask).1 + 38 ≤ demoCpu.sp ∧
    demoCpu.sp < (demoRegion k.pActiveTask).1 + (demoRegion k.pActiveTask).2 ∧ demoCpu.pc < 2^24
  rw [idle]
  decide

/-- Task 1 receives event 0 in `r24:r25`. -/
theorem demo_switch_returns : ∃ (s : Contexts) (m m' : Machine 8) (k1 : Kernel 8) (v : BitVec 16),
    Traced demoConfig demoApplication demoRegion s m (Wait.initial demoConfig demoApplication.inits) ∧
    (Action.setEvent 1).logic demoConfig m.k = some (k1,true) ∧ k1.pActiveTask = 1 ∧
    m.enter demoConfig (.setEvent 1) = some m' ∧ v ≠ 0 ∧ m'.cpu.r 24 = lowByte v ∧ m'.cpu.r 25 = highByte v := by
  obtain ⟨k,mem,k1,ok,-,susp,room,result,entered⟩ := demo_machine_start
  have start := @Traced.init 8 demoConfig demoApplication demoRegion _ _ _ demoCpu ok
  have pending : (Wait.post (Wait.initial demoConfig demoApplication.inits) k (.setEvent 1) k1.pActiveTask).pending =
      true := by
    simp [entered,Wait.post,susp,Wait.initial,show 1 < demoConfig.noTasks by decide]
  obtain ⟨m',step,-,-,returns,-⟩ := switch_returns demoConfig demoRegion_apart demoRegion_eq demoApplication_starts
    start demo_posts_only room result
  obtain ⟨v,nonzero,-,-,low,high,-⟩ := returns pending
  exact ⟨_,_,m',k1,v,start,result,entered,step,nonzero,low,high⟩

end RTuinOS
