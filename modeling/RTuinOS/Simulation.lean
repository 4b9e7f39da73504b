import RTuinOS.Machine

/-!
The machine from the start of the kernel. `rtos_initRTOS` leaves on the stack of every task the
frame of the context the task starts from, while the CPU runs the idle task. A run of the machine
is paired with the contexts it holds: between two kernel entries the running task may change its
own context and stack, and each entry moves the contexts as `Contexts.enter` does. Along every run
in which the stacks do not overlap, the running task keeps room for an entry and every wait in
"all" mode names a non-timer event, the machine holds the contexts and they agree with the
kernel's data: each switch resumes the entered task in the very context it left, with its return
code in `r24:r25` if it waited for one.
-/
namespace RTuinOS
variable {w : Nat} (cfg : Config)

/-- Three bytes hold the program counter. -/
theorem pcBytes_mod (pc : Nat) : pcBytes (pc % 2^24) = pcBytes pc := by
  simp only [pcBytes,List.cons.injEq,and_true]
  refine ⟨?_,?_,?_⟩ <;> apply BitVec.eq_of_toNat_eq <;>
    simp only [BitVec.toNat_ofNat,Nat.shiftRight_eq_div_pow] <;> omega

/-- The context `prepareTaskStack` seeds for a task: the registers cleared, interrupts enabled, the
    stack pointer at `sp` and the PC at the entry point, as far as its three bytes hold it. -/
def startContext (taskEntryPoint sp : Nat) : Cpu := ⟨fun _ => 0, 0x80, sp, taskEntryPoint % 2^24⟩

/-- The seeded bytes are the guard return address and the frame of the start context without
    `r24:r25`. -/
theorem initialContext_eq_contextBytes (taskEntryPoint sp : Nat) :
    initialContext taskEntryPoint = [0,0,0] ++ contextBytes (startContext taskEntryPoint sp) false := by
  simp only [initialContext,contextBytes,startContext,pcBytes_mod]
  rfl

/-- `prepareTaskStack` leaves the frame of the start context right below the guard return address,
    and writes only the task's stack. -/
theorem prepareTaskStack_frame (mem : Mem) (base s f : Nat) (size : 38 ≤ s) :
    Pushed (prepareTaskStack mem base s f).1 (base + s - 38) (contextBytes (startContext f (base + s - 4)) false) ∧
      (prepareTaskStack mem base s f).2 = base + s - 38 ∧
      ∀ a, (a < base ∨ base + s ≤ a) → (prepareTaskStack mem base s f).1 a = mem a := by
  have length : (initialContext f).length = 37 := rfl
  unfold prepareTaskStack
  obtain ⟨pushed,sp,outside⟩ := @pushBytes_pushed mem (base + s - 1) (initialContext f) (by omega)
  generalize pushBytes (initialContext f) mem (base + s - 1) = p at pushed sp outside ⊢
  obtain ⟨mem1,sp1⟩ := p
  dsimp only at pushed sp outside ⊢
  rw [length] at sp outside
  rw [initialContext_eq_contextBytes f (base + s - 4),pushed_append] at pushed
  obtain rfl : sp1 = base + s - 38 := by omega
  rw [fillUnused_eq]
  exact ⟨pushed.2.congr fun a above _ => if_neg (by omega),rfl,fun a out => (if_neg (by omega)).trans (outside a (by omega))⟩

/-- The task loop of `rtos_initRTOS` leaves the frame of each task's start context where the task's
    stack pointer points, and writes nothing outside the tasks' stacks. -/
theorem initTasks_frames {region : Nat → Nat × Nat} {ary : Nat → Task w} {suspended : Nat → Nat} :
    ∀ {n : Nat} {mem : Mem} {s' : (Nat → Task w) × (Nat → Nat) × Mem}, initTasks n (ary,suspended,mem) = some s' →
      (∀ i < n, region i = ((ary i).pStackArea,(ary i).stackSize)) →
      (∀ i < n, ∀ j < n, i ≠ j → ∀ a, InStack region i a → ¬ InStack region j a) →
      (∀ a, (∀ i < n, ¬ InStack region i a) → s'.2.2 a = mem a) ∧
      ∀ i < n, 50 ≤ (region i).2 ∧ (s'.1 i).stackPointer = (region i).1 + (region i).2 - 38 ∧
        Pushed s'.2.2 (s'.1 i).stackPointer
          (contextBytes (startContext (ary i).taskFunction ((region i).1 + (region i).2 - 4)) false)
  | 0, _, _, run, _, _ => by
    cases run
    exact ⟨fun _ _ => rfl,fun i lt => absurd lt (Nat.not_lt_zero _)⟩
  | n+1, mem, s', run, regions, apart => by
    simp only [initTasks,Option.bind_eq_bind,Option.bind_eq_some] at run
    obtain ⟨⟨ary1,susp1,mem1⟩,run1,rest⟩ := run
    obtain ⟨-,above1,-⟩ := initTasks_spec run1
    obtain ⟨outside1,frames1⟩ := initTasks_frames run1 (fun i lt => regions i (by omega))
      (fun i li j lj => apart i (by omega) j (by omega))
    dsimp only at above1 outside1 frames1 rest
    rw [above1 n le_rfl] at rest
    split at rest
    · next ok =>
      simp only [Option.pure_def,Option.some.injEq] at rest
      subst rest
      have region_n := regions n (Nat.lt_succ_self n)
      obtain ⟨seeded,sp,written⟩ := prepareTaskStack_frame mem1 (ary n).pStackArea (ary n).stackSize
        (ary n).taskFunction (by omega)
      have inN : ∀ a, ¬ InStack region n a →
          (prepareTaskStack mem1 (ary n).pStackArea (ary n).stackSize (ary n).taskFunction).1 a = mem1 a :=
        fun a out => written a (by unfold InStack at out; rw [region_n] at out; omega)
      refine ⟨fun a out => (inN a (out n (Nat.lt_succ_self n))).trans (outside1 a fun i lt => out i (by omega)),
        fun i lt => ?_⟩
      dsimp only
      by_cases last : i = n
      · subst last
        rw [Function.update_same,sp,region_n]
        exact ⟨ok.2.2,rfl,seeded⟩
      · rw [Function.update_noteq last]
        obtain ⟨size,spi,pushed⟩ := frames1 i (by omega)
        refine ⟨size,spi,pushed.congr fun a above below => inN a (apart i lt n (Nat.lt_succ_self n) last a ?_)⟩
        rw [contextBytes_length,if_neg Bool.false_ne_true] at below
        exact ⟨by omega,by omega⟩
    · cases rest

/-- The contexts at the start: the CPU `c` runs the idle task, and every task `0`..`N-1` waits for
    its return code in the context `prepareTaskStack` seeds for it. -/
def startContexts (inits : Nat → TaskInit w) (c : Cpu) : Contexts :=
  ⟨fun i => startContext (inits i).taskFunction ((inits i).pStackArea + (inits i).stackSize - 4),
    fun i => decide (i < cfg.noTasks),c⟩

section Start
variable {inits : Nat → TaskInit w} {mem mem' : Mem} {k : Kernel w}

/-- `rtos_initRTOS` leaves the machine holding the start contexts. -/
theorem rtos_initRTOS_holds {region : Nat → Nat × Nat} (apart : StacksApart cfg region)
    (regions : ∀ i < cfg.noTasks, region i = ((inits i).pStackArea,(inits i).stackSize))
    (ok : rtos_initRTOS cfg inits mem = some (k,mem')) (c : Cpu) :
    Holds cfg region (startContexts cfg inits c) ⟨k,mem',c⟩ := by
  have active := (rtos_initRTOS_spec cfg ok).2.1
  simp only [rtos_initRTOS,Option.bind_eq_bind,Option.bind_eq_some,Option.pure_def,Option.some.injEq] at ok
  obtain ⟨ary,setup,⟨ary1,susp1,mem1⟩,run,rfl,rfl⟩ := ok
  obtain ⟨inits1,-⟩ := setupTasks_spec cfg setup
  have fields := fun i lt => rtos_initializeTask_fields cfg (inits1 i lt)
  obtain ⟨-,frames⟩ := initTasks_frames run
    (fun i lt => by rw [regions i lt,(fields i lt).2.1,(fields i lt).2.2])
    (fun i li j lj => apart i li.le j lj.le)
  refine ⟨Cpu.Agrees.refl c,fun T le ne => ?_⟩
  have lt : T < cfg.noTasks := lt_of_le_of_ne le (by rw [← active] at ne; exact ne)
  obtain ⟨size,sp,pushed⟩ := frames T lt
  have other : T ≠ cfg.idleTaskId := Nat.ne_of_lt lt
  simp only [FrameOf,startContexts,Kernel.task,Function.update_noteq other,decide_eq_true lt,Bool.not_true,
    contextBytes_length,Bool.false_eq_true,if_false,startContext,regions T lt,(fields T lt).1] at pushed sp size ⊢
  exact ⟨pushed,by omega,Nat.mod_lt _ (Nat.two_pow_pos 24),by omega,by omega⟩

/-- The start contexts agree with `rtos_initRTOS`'s data as long as every task that starts in "all"
    mode waits for some non-timer event. -/
theorem rtos_initRTOS_agreement
    (starts : ∀ i < cfg.noTasks, (inits i).startByAllEvents = true → (inits i).startEventMask &&& ~~~cfg.timerEvtMask ≠ 0)
    (ok : rtos_initRTOS cfg inits mem = some (k,mem')) (c : Cpu) : Agreement cfg (startContexts cfg inits c) k := by
  obtain ⟨-,-,suspended,-,-,tasks⟩ := rtos_initRTOS_spec cfg ok
  refine ⟨rtos_initRTOS_unposted cfg ok _,fun T _ => ?_,fun T mem any => ?_⟩
  · simp [startContexts,suspended,rtos_initRTOS_unposted cfg ok T]
  · rw [suspended,List.mem_range] at mem
    obtain ⟨t,sp,init,task⟩ := tasks T mem
    obtain ⟨t0,rfl⟩ := rtos_initializeTask_eq cfg init
    rw [task] at any ⊢
    simp only [storeResumeCondition_eventMask,storeResumeCondition_waitForAnyEvent,Bool.not_eq_false'] at any ⊢
    exact starts T mem any

end Start

/-- The runs of the machine from the start of the kernel, each paired with the contexts it holds:
    the start, the running task changing its own context and stack, and a kernel entry. -/
inductive Runs (app : Application cfg w) (region : Nat → Nat × Nat) : Contexts → Machine w → Prop
  | init {mem mem' : Mem} {k : Kernel w} (c : Cpu) : rtos_initRTOS cfg app.inits mem = some (k,mem') →
      Runs app region (startContexts cfg app.inits c) ⟨k,mem',c⟩
  | task {s : Contexts} {m m' : Machine w} : Runs app region s m → TaskRun region m m' →
      Runs app region { s with cur := m'.cpu } m'
  | enter {s : Contexts} {m m' : Machine w} {a : Action w} {k1 : Kernel w} {switch : Bool} :
      Runs app region s m → a.waitsForEvent cfg → EntryRoom region m → a.logic cfg m.k = some (k1,switch) →
      m.enter cfg a = some m' →
      Runs app region (s.enter a.waits switch m.k.pActiveTask k1.pActiveTask (k1.task k1.pActiveTask).postedEventVec) m'

/-- The kernel's data after an entry on the machine keep the agreement and the scheduler's
    invariant: they are the data after the entry's `step`, with the left task's stack pointer saved
    on a switch. -/
theorem Agreement.machineEnter {s : Contexts} {k k1 : Kernel w} (agree : Agreement cfg s k) (inv : SchedInv cfg k)
    {a : Action w} (waits : a.waitsForEvent cfg) {switch : Bool} (result : a.logic cfg k = some (k1,switch)) (x : Nat) :
    Agreement cfg (s.enter a.waits switch k.pActiveTask k1.pActiveTask (k1.task k1.pActiveTask).postedEventVec)
        (if switch then (retCodeOfContextSwitch k1).1.setTask k.pActiveTask { k1.task k.pActiveTask with stackPointer := x }
          else k1) ∧
      SchedInv cfg (if switch then (retCodeOfContextSwitch k1).1.setTask k.pActiveTask
        { k1.task k.pActiveTask with stackPointer := x } else k1) := by
  obtain ⟨⟨inv1,change,-⟩,-⟩ := logic_cases cfg inv result
  obtain ⟨-,agree1⟩ := agree.enter cfg inv waits result (k1.task k1.pActiveTask).postedEventVec
  cases switch
  · exact ⟨agree1,inv1⟩
  · have left : (retCodeOfContextSwitch k1).1.task k.pActiveTask = k1.task k.pActiveTask := by
      rw [retCodeOfContextSwitch_fst,Kernel.setTask_task_other _ _ (Ne.symm (change.mp rfl))]
    rw [if_pos rfl] at agree1 ⊢
    rw [← left]
    exact ⟨agree1.setStackPointer cfg _ x,inv1.retCode.setTask rfl rfl⟩

/-- The invariant of the runs: the machine holds the contexts, which agree with the kernel's data,
    and the scheduler's invariant holds. -/
theorem Runs.holds {app : Application cfg w} {region : Nat → Nat × Nat} (apart : StacksApart cfg region)
    (regions : ∀ i < cfg.noTasks, region i = ((app.inits i).pStackArea,(app.inits i).stackSize))
    (starts : ∀ i < cfg.noTasks, (app.inits i).startByAllEvents = true →
      (app.inits i).startEventMask &&& ~~~cfg.timerEvtMask ≠ 0)
    {s : Contexts} {m : Machine w} (run : Runs cfg app region s m) :
    Holds cfg region s m ∧ Agreement cfg s m.k ∧ SchedInv cfg m.k := by
  induction run with
  | init c ok =>
    exact ⟨rtos_initRTOS_holds cfg apart regions ok c,rtos_initRTOS_agreement cfg starts ok c,
      rtos_initRTOS_inv cfg app ok⟩
  | task _ ran ih =>
    obtain ⟨holds,agree,inv⟩ := ih
    have kernel := ran.1
    refine ⟨holds.taskRun cfg apart inv ran,?_,kernel ▸ inv⟩
    rw [kernel]
    exact ⟨agree.active,agree.waited,agree.events⟩
  | enter _ waits room result entered ih =>
    obtain ⟨holds,agree,inv⟩ := ih
    obtain ⟨m',entered',holds',kernel⟩ := holds.enter cfg apart inv agree waits room result
    rw [entered,Option.some.injEq] at entered'
    subst entered'
    rw [kernel]
    exact ⟨holds',agree.machineEnter cfg inv waits result _⟩

/-- Along every run the machine holds its contexts, and they agree with the kernel's data, on which
    the scheduler's invariant holds. -/
theorem runs_hold {app : Application cfg w} {region : Nat → Nat × Nat} (apart : StacksApart cfg region)
    (regions : ∀ i < cfg.noTasks, region i = ((app.inits i).pStackArea,(app.inits i).stackSize))
    (starts : ∀ i < cfg.noTasks, (app.inits i).startByAllEvents = true →
      (app.inits i).startEventMask &&& ~~~cfg.timerEvtMask ≠ 0)
    {s : Contexts} {m : Machine w} (run : Runs cfg app region s m) :
    Holds cfg region s m ∧ Agreement cfg s m.k ∧ SchedInv cfg m.k :=
  run.holds cfg apart regions starts

/-- The stacks of the small application, and above them the idle task's. -/
def demoRegion (i : Nat) : Nat × Nat := if i < 2 then (0x200 + 0x40 * i, 50) else (0x300, 0x100)

theorem demoRegion_apart : StacksApart demoConfig demoRegion := fun T le T' le' ne a => by
  have tasks : demoConfig.noTasks = 2 := rfl
  simp only [InStack,demoRegion]
  split_ifs <;> omega

theorem demoRegion_eq : ∀ i < demoConfig.noTasks,
    demoRegion i = ((demoApplication.inits i).pStackArea,(demoApplication.inits i).stackSize) := fun i lt => by
  rw [demoRegion,if_pos (show i < 2 from lt)]
  rfl

/-- The CPU of `main` when it enters the idle loop. -/
def demoCpu : Cpu := ⟨fun _ => 0, 0, 0x3F0, 0⟩

/-- The small application, started, and the interrupt that posts event 0 to task 1: the run exists,
    and the contexts hold after the switch. -/
theorem demo_runs_hold : ∃ (s : Contexts) (m : Machine 8), Runs demoConfig demoApplication demoRegion s m ∧
    m.k.pActiveTask = 1 ∧ Holds demoConfig demoRegion s m ∧ Agreement demoConfig s m.k ∧ SchedInv demoConfig m.k := by
  obtain ⟨k,mem,ok,idle,k1,result,entered⟩ : ∃ (k : Kernel 8) (mem : Mem),
      rtos_initRTOS demoConfig demoApplication.inits (fun _ => 0) = some (k,mem) ∧ k.pActiveTask = 2 ∧
      ∃ k1, (Action.setEvent 1).logic demoConfig k = some (k1,true) ∧ k1.pActiveTask = 1 := ⟨_,_,rfl,rfl,_,rfl,rfl⟩
  have start := @Runs.init 8 demoConfig demoApplication demoRegion _ _ _ demoCpu ok
  obtain ⟨holds,agree,inv⟩ := start.holds demoConfig demoRegion_apart demoRegion_eq demoApplication_starts
  have room : EntryRoom demoRegion ⟨k,mem,demoCpu⟩ := by
    show (demoRegion k.pActiveTask).1 + 38 ≤ demoCpu.sp ∧
      demoCpu.sp < (demoRegion k.pActiveTask).1 + (demoRegion k.pActiveTask).2 ∧ demoCpu.pc < 2^24
    rw [idle]
    decide
  have waits : (Action.setEvent 1 : Action 8).waitsForEvent demoConfig := trivial
  obtain ⟨m',step,-,kernel⟩ := holds.enter demoConfig demoRegion_apart inv agree waits room result
  have run := start.enter waits room result step
  refine ⟨_,_,run,?_,runs_hold demoConfig demoRegion_apart demoRegion_eq demoApplication_starts run⟩
  rw [kernel,if_pos rfl,Kernel.setTask_pActiveTask,retCodeOfContextSwitch_fst,Kernel.setTask_pActiveTask,entered]

/-- Every switching entry of a run returns to the entered task's saved context, with the code posted
    to it in `r24:r25` exactly if it waits for a return code. -/
theorem runs_switch_resumes {app : Application cfg w} {region : Nat → Nat × Nat} (apart : StacksApart cfg region)
    (regions : ∀ i < cfg.noTasks, region i = ((app.inits i).pStackArea,(app.inits i).stackSize))
    (starts : ∀ i < cfg.noTasks, (app.inits i).startByAllEvents = true →
      (app.inits i).startEventMask &&& ~~~cfg.timerEvtMask ≠ 0)
    {s : Contexts} {m : Machine w} (run : Runs cfg app region s m) {a : Action w} (waits : a.waitsForEvent cfg)
    (room : EntryRoom region m) {k1 : Kernel w} (result : a.logic cfg m.k = some (k1,true)) :
    ∃ m', m.enter cfg a = some m' ∧
      m'.cpu.Agrees (resume (s.saved k1.pActiveTask) (s.waited k1.pActiveTask) (k1.task k1.pActiveTask).postedEventVec) ∧
      (s.waited k1.pActiveTask = true ↔ (k1.task k1.pActiveTask).postedEventVec ≠ 0) := by
  obtain ⟨holds,agree,inv⟩ := run.holds cfg apart regions starts
  obtain ⟨m',step,holds',-⟩ := holds.enter cfg apart inv agree waits room result
  obtain ⟨⟨-,change,-⟩,-⟩ := logic_cases cfg inv result
  have moved : k1.pActiveTask ≠ m.k.pActiveTask := change.mp rfl
  have resumed := holds'.cpu
  rw [Contexts.enter_true,Function.update_noteq moved,Function.update_noteq moved] at resumed
  exact ⟨m',step,resumed,(agree.enter cfg inv waits result (k1.task k1.pActiveTask).postedEventVec).1 rfl⟩

theorem demo_switch_resumes : ∃ (s : Contexts) (m m' : Machine 8) (k1 : Kernel 8),
    Runs demoConfig demoApplication demoRegion s m ∧ (Action.setEvent 1).logic demoConfig m.k = some (k1,true) ∧
    k1.pActiveTask = 1 ∧ m.enter demoConfig (.setEvent 1) = some m' ∧
    m'.cpu.Agrees (resume (s.saved 1) (s.waited 1) (k1.task 1).postedEventVec) ∧
    (s.waited 1 = true ↔ (k1.task 1).postedEventVec ≠ 0) := by
  obtain ⟨k,mem,ok,idle,k1,result,entered⟩ : ∃ (k : Kernel 8) (mem : Mem),
      rtos_initRTOS demoConfig demoApplication.inits (fun _ => 0) = some (k,mem) ∧ k.pActiveTask = 2 ∧
      ∃ k1, (Action.setEvent 1).logic demoConfig k = some (k1,true) ∧ k1.pActiveTask = 1 := ⟨_,_,rfl,rfl,_,rfl,rfl⟩
  have start := @Runs.init 8 demoConfig demoApplication demoRegion _ _ _ demoCpu ok
  have room : EntryRoom demoRegion ⟨k,mem,demoCpu⟩ := by
    show (demoRegion k.pActiveTask).1 + 38 ≤ demoCpu.sp ∧
      demoCpu.sp < (demoRegion k.pActiveTask).1 + (demoRegion k.pActiveTask).2 ∧ demoCpu.pc < 2^24
    rw [idle]
    decide
  have waits : (Action.setEvent 1 : Action 8).waitsForEvent demoConfig := trivial
  obtain ⟨m',step,resumed,staged⟩ := runs_switch_resumes demoConfig demoRegion_apart demoRegion_eq
    demoApplication_starts start waits room result
  rw [entered] at resumed staged
  exact ⟨_,_,m',k1,start,result,entered,step,resumed,staged⟩

end RTuinOS
