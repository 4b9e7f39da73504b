import RTuinOS.Switch

/-!
The kernel on the machine. A machine state is the kernel's data, the data memory and the CPU of
the running task. Between two kernel entries the running task may change the CPU and its own
stack; a kernel entry pushes the task's context, runs the C logic and, on a switch, enters the new
task from the frame on its stack. The machine holds the contexts of `Contexts`: the CPU runs the
current one and the stack of every other task holds the frame of its saved one, where its saved
stack pointer points. As long as every wait in "all" mode names some non-timer event, each entry
of each run enters exactly the context that `Contexts.enter` resumes.
-/
namespace RTuinOS
variable {w : Nat} (cfg : Config)

/-- The machine: the kernel's data, the data memory and the CPU of the running task. The kernel's
    own RAM (its globals, `_taskAry`, the transfer variables and the C call frames of its
    functions) is `k` and is not part of `mem`. -/
structure Machine (w : Nat) where
  k : Kernel w
  mem : Mem
  cpu : Cpu

/-- A kernel entry on the machine: the entry pushes the running context, the C logic runs and, on
    a switch, `SWITCH_CONTEXT` and `PUSH_RET_CODE_OF_CONTEXT_SWITCH` move to the stack of the new
    task; `POP_CONTEXT_FROM_STACK` and `reti` end every entry. Of what an entry writes, `mem`
    receives the pushed context and the staged return code only. -/
def Machine.enter (a : Action w) (m : Machine w) : Option (Machine w) := do
  let (mem, c) := enterKernel (!a.waits) (m.mem, m.cpu)
  let (k, switch) ← a.logic cfg m.k
  if switch then
    let (k, mem, c) := switchContext k mem c
    pure ⟨k, mem, c⟩
  else
    let (mem, c) := popContextReti (mem, c)
    pure ⟨k, mem, c⟩

/-- Two CPU states agree on `r0`..`r31`, `SREG`, the stack pointer and the PC. -/
def Cpu.Agrees (c c' : Cpu) : Prop :=
  (∀ j < 32, c.r j = c'.r j) ∧ c.sreg = c'.sreg ∧ c.sp = c'.sp ∧ c.pc = c'.pc

/-- The address `a` lies in the stack of task `T`, whose first address and size are `region T`. -/
def InStack (region : Nat → Nat × Nat) (T a : Nat) : Prop := (region T).1 ≤ a ∧ a < (region T).1 + (region T).2

/-- The stacks of the tasks `0`..`N`, the idle task's included, do not overlap. -/
def StacksApart (region : Nat → Nat × Nat) : Prop :=
  ∀ T ≤ cfg.noTasks, ∀ T' ≤ cfg.noTasks, T ≠ T' → ∀ a, InStack region T a → ¬ InStack region T' a

/-- The frame of task `T`'s saved context lies right above its saved stack pointer, inside its
    stack and with room below for a return code. -/
def FrameOf (region : Nat → Nat × Nat) (s : Contexts) (m : Machine w) (T : Nat) : Prop :=
  Pushed m.mem (m.k.task T).stackPointer (contextBytes (s.saved T) (!s.waited T)) ∧
    (m.k.task T).stackPointer + (contextBytes (s.saved T) (!s.waited T)).length = (s.saved T).sp ∧
    (s.saved T).pc < 2^24 ∧ (region T).1 + 2 ≤ (m.k.task T).stackPointer ∧
    (s.saved T).sp < (region T).1 + (region T).2

/-- The machine holds the contexts: the CPU runs the current one, and every other task has the
    frame of its saved one. -/
structure Holds (region : Nat → Nat × Nat) (s : Contexts) (m : Machine w) : Prop where
  cpu : m.cpu.Agrees s.cur
  frames : ∀ T ≤ cfg.noTasks, T ≠ m.k.pActiveTask → FrameOf region s m T

/-- The running task enters the kernel with a 24-bit PC and room on its stack for its frame and
    a return code: 38 bytes, which count the pushed context only and not the C call frames of the
    kernel functions. -/
def EntryRoom (region : Nat → Nat × Nat) (m : Machine w) : Prop :=
  (region m.k.pActiveTask).1 + 38 ≤ m.cpu.sp ∧ m.cpu.sp < (region m.k.pActiveTask).1 + (region m.k.pActiveTask).2 ∧
    m.cpu.pc < 2^24

/-- The running task between two kernel entries: it may change the CPU and its own stack, and
    nothing else. -/
def TaskRun (region : Nat → Nat × Nat) (m m' : Machine w) : Prop :=
  m'.k = m.k ∧ ∀ a, ¬ InStack region m.k.pActiveTask a → m'.mem a = m.mem a

section Agrees
variable {c c' c'' : Cpu}

theorem Cpu.Agrees.refl (c : Cpu) : c.Agrees c := ⟨fun _ _ => rfl,rfl,rfl,rfl⟩

theorem Cpu.Agrees.trans (first : c.Agrees c') (second : c'.Agrees c'') : c.Agrees c'' :=
  ⟨fun j lt => (first.1 j lt).trans (second.1 j lt),first.2.1.trans second.2.1,first.2.2.1.trans second.2.2.1,
    first.2.2.2.trans second.2.2.2⟩

/-- A context's bytes are those of the registers it holds. -/
theorem contextBytes_congr (agree : c.Agrees c') (full : Bool) : contextBytes c full = contextBytes c' full := by
  have regs : ∀ j ∈ List.range' 1 23 ++ List.range' 26 6, c.r j = c'.r j := fun j mem => by
    simp only [List.mem_append,List.mem_range'] at mem
    exact agree.1 j (by omega)
  simp only [contextBytes,agree.1 0 (by omega),agree.1 24 (by omega),agree.1 25 (by omega),agree.2.1,agree.2.2.2,
    List.map_congr_left regs]

end Agrees

/-- A frame survives as long as its task's saved context, saved stack pointer and the bytes of its
    stack do. -/
theorem FrameOf.congr {region : Nat → Nat × Nat} {s s' : Contexts} {m m' : Machine w} {T : Nat}
    (frame : FrameOf region s m T) (saved : s'.saved T = s.saved T) (waited : s'.waited T = s.waited T)
    (sp : (m'.k.task T).stackPointer = (m.k.task T).stackPointer)
    (same : ∀ a, InStack region T a → m'.mem a = m.mem a) : FrameOf region s' m' T := by
  obtain ⟨pushed,top,pcLt,low,high⟩ := frame
  unfold FrameOf
  rw [saved,waited,sp]
  exact ⟨pushed.congr fun a above below => same a ⟨by omega,by omega⟩,top,pcLt,low,high⟩

theorem Kernel.setTask_comm (k : Kernel w) {i j : Nat} (ne : i ≠ j) (t t' : Task w) :
    (k.setTask i t).setTask j t' = (k.setTask j t').setTask i t := by
  simp only [Kernel.setTask,Kernel.mk.injEq,and_true,true_and]
  exact @Function.update_comm Nat _ (fun _ => Task w) i j ne t t' k.taskAry

/-- Saving the stack pointer of another task does not change the return code. -/
theorem retCodeOfContextSwitch_setTask (k : Kernel w) {i : Nat} (ne : i ≠ k.pActiveTask) (t : Task w) :
    retCodeOfContextSwitch (k.setTask i t) = ((retCodeOfContextSwitch k).1.setTask i t,(retCodeOfContextSwitch k).2) := by
  have same : (k.setTask i t).task k.pActiveTask = k.task k.pActiveTask := Kernel.setTask_task_other _ _ (Ne.symm ne)
  simp only [retCodeOfContextSwitch,Kernel.setTask_pActiveTask,same]
  split
  · rw [Kernel.setTask_comm _ (Ne.symm ne)]
  · rfl

/-- The exit of a switching entry: the entered task's frame, with the return code staged if the
    code finds an event posted, is popped into its context with interrupts enabled; only the two
    bytes below the frame are written, and the left task's stack pointer is saved. -/
theorem switchContext_resumes {k : Kernel w} {mem : Mem} (c : Cpu) {saved : Cpu} {waited : Bool}
    (frame : Pushed mem (k.task k.pActiveTask).stackPointer (contextBytes saved (!waited)))
    (top : (k.task k.pActiveTask).stackPointer + (contextBytes saved (!waited)).length = saved.sp)
    (pcLt : saved.pc < 2^24) (room : 2 ≤ (k.task k.pActiveTask).stackPointer)
    (staging : waited = true ↔ (k.task k.pActiveTask).postedEventVec ≠ 0) (left : k.pSuspendedTask ≠ k.pActiveTask) :
    (switchContext k mem c).2.2.Agrees (resume saved waited (k.task k.pActiveTask).postedEventVec) ∧
      (∀ a, (a + 1 < (k.task k.pActiveTask).stackPointer ∨ (k.task k.pActiveTask).stackPointer < a) →
        (switchContext k mem c).2.1 a = mem a) ∧
      (switchContext k mem c).1 =
        (retCodeOfContextSwitch k).1.setTask k.pSuspendedTask { k.task k.pSuspendedTask with stackPointer := c.sp } := by
  have exit : ∀ code, (retCodeOfContextSwitch k).2 = code → switchContext k mem c =
      ((retCodeOfContextSwitch k).1.setTask k.pSuspendedTask { k.task k.pSuspendedTask with stackPointer := c.sp },
        match code with
        | some v => popContextReti (execInstrs (pushRetCode v) (mem,{ c with sp := (k.task k.pActiveTask).stackPointer }))
        | none => popContextReti (mem,{ c with sp := (k.task k.pActiveTask).stackPointer })) := fun code handed => by
    simp only [switchContext,retCodeOfContextSwitch_setTask k left,handed]
    cases code <;> rfl
  have length : ∀ full, (contextBytes saved full).length = if full then 36 else 34 := contextBytes_length saved
  cases waited
  · have quiet : (k.task k.pActiveTask).postedEventVec = 0 := by simpa using staging
    rw [exit none (retCodeOfContextSwitch_snd_eq_none.mpr quiet)]
    obtain ⟨same,sp,regs,sreg,pc⟩ :=
      @popContextReti_pushed mem { c with sp := (k.task k.pActiveTask).stackPointer } saved frame pcLt
    have top : (k.task k.pActiveTask).stackPointer + 36 = saved.sp := by simpa [length] using top
    refine ⟨⟨fun j lt => by rw [regs j lt,resume_r,if_neg Bool.false_ne_true],by rw [sreg,resume_sreg],
      by rw [sp,resume_sp]; exact top,by rw [pc,resume_pc]⟩,fun a _ => by rw [same],rfl⟩
  · have posted : (k.task k.pActiveTask).postedEventVec ≠ 0 := staging.mp rfl
    rw [exit _ (retCodeOfContextSwitch_snd_of_posted posted)]
    obtain ⟨staged,stagedSp,below⟩ := @pushRetCode_pushed mem { c with sp := (k.task k.pActiveTask).stackPointer }
      saved (k.task k.pActiveTask).postedEventVec frame room
    obtain ⟨same,sp,regs,sreg,pc⟩ := popContextReti_pushed staged pcLt
    have top : (k.task k.pActiveTask).stackPointer + 34 = saved.sp := by simpa [length] using top
    refine ⟨⟨fun j lt => by rw [regs j lt,resume_r,if_pos rfl],by rw [sreg,resume_sreg]; rfl,
      by rw [sp,resume_sp,stagedSp]; dsimp only; omega,by rw [pc,resume_pc]; rfl⟩,fun a out => ?_,rfl⟩
    rw [same]
    exact below a out

/-- Only `rtos_waitForEvent` saves the context without `r24:r25`, and it always switches. -/
theorem logic_waits_switch {k k1 : Kernel w} (inv : SchedInv cfg k) {a : Action w} {switch : Bool}
    (result : a.logic cfg k = some (k1,switch)) (waiting : a.waits = true) : switch = true := by
  cases a
  · cases waiting
  · cases waiting
  · exact logic_waitForEvent_switch cfg inv result

theorem Machine.enter_eq {m : Machine w} {a : Action w} {k1 : Kernel w} {switch : Bool}
    (result : a.logic cfg m.k = some (k1,switch)) :
    m.enter cfg a = some (if switch then
        ⟨(switchContext k1 (enterKernel (!a.waits) (m.mem,m.cpu)).1 (enterKernel (!a.waits) (m.mem,m.cpu)).2).1,
          (switchContext k1 (enterKernel (!a.waits) (m.mem,m.cpu)).1 (enterKernel (!a.waits) (m.mem,m.cpu)).2).2.1,
          (switchContext k1 (enterKernel (!a.waits) (m.mem,m.cpu)).1 (enterKernel (!a.waits) (m.mem,m.cpu)).2).2.2⟩
      else ⟨k1,(popContextReti ((enterKernel (!a.waits) (m.mem,m.cpu)).1,(enterKernel (!a.waits) (m.mem,m.cpu)).2)).1,
        (popContextReti ((enterKernel (!a.waits) (m.mem,m.cpu)).1,(enterKernel (!a.waits) (m.mem,m.cpu)).2)).2⟩) := by
  simp only [Machine.enter,result,Option.bind_eq_bind,Option.some_bind]
  cases switch <;> rfl

/-- One kernel entry keeps the contexts held: the machine enters exactly the context that
    `Contexts.enter` resumes, and the left task's frame is where its saved stack pointer points. -/
theorem Holds.enter {region : Nat → Nat × Nat} (apart : StacksApart cfg region) {s : Contexts} {m : Machine w}
    (holds : Holds cfg region s m) (inv : SchedInv cfg m.k) (agree : Agreement cfg s m.k)
    {a : Action w} (waits : a.waitsForEvent cfg) (room : EntryRoom region m) {k1 : Kernel w} {switch : Bool}
    (result : a.logic cfg m.k = some (k1,switch)) :
    ∃ m', m.enter cfg a = some m' ∧
      Holds cfg region (s.enter a.waits switch m.k.pActiveTask k1.pActiveTask (k1.task k1.pActiveTask).postedEventVec) m' ∧
      m'.k = if switch then (retCodeOfContextSwitch k1).1.setTask m.k.pActiveTask
        { k1.task m.k.pActiveTask with stackPointer := (enterKernel (!a.waits) (m.mem,m.cpu)).2.sp } else k1 := by
  obtain ⟨⟨inv1,change,left⟩,-⟩ := logic_cases cfg inv result
  obtain ⟨staging,-⟩ := agree.enter cfg inv waits result (k1.task k1.pActiveTask).postedEventVec
  obtain ⟨roomLow,roomHigh,pcLt⟩ := room
  obtain ⟨regs,sreg,sp,pc⟩ := holds.cpu
  have length : (contextBytes m.cpu (!a.waits)).length ≤ 36 := by rw [contextBytes_length]; split <;> omega
  have lengthEq : ∀ c : Cpu, (contextBytes c (!a.waits)).length = (contextBytes m.cpu (!a.waits)).length :=
    fun c => by rw [contextBytes_length,contextBytes_length]
  have sps := logic_stackPointer cfg inv result
  obtain ⟨pushed,entrySp,writes⟩ := enterKernel_pushed (!a.waits) m.mem m.cpu (by omega)
  rw [Machine.enter_eq cfg result]
  generalize enterKernel (!a.waits) (m.mem,m.cpu) = e at pushed entrySp writes ⊢
  obtain ⟨mem1,c1⟩ := e
  dsimp only at pushed entrySp writes ⊢
  have pushedOutside : ∀ T ≤ cfg.noTasks, T ≠ m.k.pActiveTask → ∀ x, InStack region T x → mem1 x = m.mem x :=
    fun T le ne x inT => writes x (by
      have outA := apart T le _ inv.active_le ne x inT
      unfold InStack at outA
      omega)
  cases switch
  case false =>
    have same : k1.pActiveTask = m.k.pActiveTask := by
      by_contra moved
      cases change.mpr moved
    have full : a.waits = false := by
      cases waiting : a.waits
      · rfl
      · cases logic_waits_switch cfg inv result waiting
    rw [full] at pushed
    rw [if_neg Bool.false_ne_true]
    obtain ⟨popped,spPopped,regsPopped,sregPopped,pcPopped⟩ := popContextReti_pushed pushed pcLt
    refine ⟨_,rfl,⟨?_,fun T le ne => ?_⟩,rfl⟩
    · rw [Contexts.enter_false]
      dsimp only
      refine ⟨fun j lt => ?_,by rw [sregPopped,resume_sreg,sreg],?_,by rw [pcPopped,resume_pc,pc]⟩
      · rw [regsPopped j lt,resume_r,if_neg Bool.false_ne_true]
        exact regs j lt
      · rw [spPopped,resume_sp,← sp,entrySp,full,contextBytes_length,Bool.not_false,if_pos rfl]
        omega
    · dsimp only at ne
      rw [same] at ne
      exact (holds.frames T le ne).congr rfl rfl (sps T) fun x inT => by
        rw [popped]
        exact pushedOutside T le ne x inT
  case true =>
    have moved : k1.pActiveTask ≠ m.k.pActiveTask := change.mp rfl
    have suspended : k1.pSuspendedTask = m.k.pActiveTask := left rfl
    have enteredLe := inv1.active_le
    obtain ⟨frameE,topE,pcLtE,lowE,highE⟩ := holds.frames _ enteredLe moved
    rw [← sps] at frameE topE lowE
    have frameE1 := frameE.congr fun x above below =>
      pushedOutside _ enteredLe moved x ⟨by omega,by omega⟩
    obtain ⟨resumed,stagedOnly,kernel⟩ := switchContext_resumes c1 frameE1 topE pcLtE (by omega) (staging rfl)
      (by rw [suspended]; exact Ne.symm moved)
    rw [suspended] at kernel
    have stagedAway : ∀ T ≤ cfg.noTasks, T ≠ k1.pActiveTask → ∀ x, InStack region T x →
        (switchContext k1 mem1 c1).2.1 x = mem1 x := fun T le ne x inT => stagedOnly x (by
      have outE := apart T le _ enteredLe ne x inT
      unfold InStack at outE
      omega)
    have savingAgrees : Cpu.Agrees { m.cpu with sreg := m.cpu.sreg &&& ~~~0x80 } { s.cur with sreg := s.cur.sreg &&& ~~~0x80 } :=
      ⟨regs,by dsimp only; rw [sreg],sp,pc⟩
    rw [if_pos rfl]
    refine ⟨_,rfl,⟨?_,fun T le ne => ?_⟩,kernel⟩
    · rw [Contexts.enter_true]
      dsimp only
      rwa [Function.update_noteq moved,Function.update_noteq moved]
    · dsimp only at ne ⊢
      rw [kernel,retCodeOfContextSwitch_fst,Kernel.setTask_pActiveTask,Kernel.setTask_pActiveTask] at ne
      rw [Contexts.enter_true]
      by_cases leftTask : T = m.k.pActiveTask
      · subst leftTask
        refine ⟨?_,?_,?_,?_,?_⟩ <;> simp only [kernel,Kernel.setTask_task_same,Function.update_same]
        · rw [← contextBytes_congr savingAgrees]
          have := lengthEq ⟨m.cpu.r,m.cpu.sreg &&& ~~~0x80,m.cpu.sp,m.cpu.pc⟩
          exact pushed.congr fun x above below => stagedAway _ inv.active_le (Ne.symm moved) x ⟨by omega,by omega⟩
        · rw [lengthEq,entrySp,← sp]
          omega
        · rw [← pc]
          exact pcLt
        · omega
        · rw [← sp]
          exact roomHigh
      · refine (holds.frames T le leftTask).congr (Function.update_noteq leftTask _ _)
          (Function.update_noteq leftTask _ _) ?_ fun x inT => ?_
        · rw [kernel,Kernel.setTask_task_other _ _ leftTask,retCodeOfContextSwitch_fst,
            Kernel.setTask_task_other _ _ ne,sps]
        · exact (stagedAway T le ne x inT).trans (pushedOutside T le leftTask x inT)

/-- Between two entries the running task may change its own context and stack; the frames of the
    other tasks stay. -/
theorem Holds.taskRun {region : Nat → Nat × Nat} (apart : StacksApart cfg region) {s : Contexts}
    {m m' : Machine w} (holds : Holds cfg region s m) (inv : SchedInv cfg m.k) (run : TaskRun region m m') :
    Holds cfg region { s with cur := m'.cpu } m' := by
  obtain ⟨kernel,mem⟩ := run
  refine ⟨Cpu.Agrees.refl _,fun T le ne => ?_⟩
  rw [kernel] at ne
  exact (holds.frames T le ne).congr rfl rfl (by rw [kernel]) fun x inT =>
    mem x (apart T le _ inv.active_le ne x inT)

end RTuinOS
