import RTuinOS.Reachable

/-!
The return code of a suspend command and the frame it is loaded from. On a switch,
`PUSH_RET_CODE_OF_CONTEXT_SWITCH` stages the entered task's `postedEventVec` as r24:r25 below its
saved frame only when the vector is non-zero, and `POP_CONTEXT_FROM_STACK` then pops r25 and r24
first. A task that suspended inside `rtos_waitForEvent`, or never ran, has a frame without r24 and
r25, so it relies on a non-zero vector at its release.

A task that waits in "all" mode for timer events only breaks this. The XOR test of
`checkForTaskActivation` asks for no non-timer event, so the first scan releases the task with
nothing posted: its wait returns 0, and the task is entered with no return code staged. Every
register, SREG and the return address are then read two bytes off; a task's first activation
starts at the low byte of its function's address shifted up by 16 bits.
-/
namespace RTuinOS
variable {w : Nat} (cfg : Config)

/-- With nothing posted, the release condition holds exactly in "all" mode for a mask of timer
    events only. -/
theorem isReleased_unposted_iff {t : Task w} (unposted : t.postedEventVec = 0) :
    isReleased cfg t = true ↔ t.waitForAnyEvent = false ∧ t.eventMask &&& ~~~cfg.timerEvtMask = 0 := by
  cases any : t.waitForAnyEvent <;> simp [isReleased,unposted,any]

/-- No return code is staged exactly when the entered task has nothing posted. -/
theorem retCodeOfContextSwitch_snd_eq_none {k : Kernel w} :
    (retCodeOfContextSwitch k).2 = none ↔ (k.task k.pActiveTask).postedEventVec = 0 := by
  simp only [retCodeOfContextSwitch]
  split
  · next posted => simpa using fun zero => by simp [zero] at posted
  · next quiet =>
    rw [gt_iff_lt,BitVec.lt_def,Nat.not_lt] at quiet
    simpa using BitVec.eq_of_toNat_eq (by simp at quiet ⊢; omega)

/-- A posted event of the entered task is handed over as its return code. -/
theorem retCodeOfContextSwitch_snd_of_posted {k : Kernel w} (posted : (k.task k.pActiveTask).postedEventVec ≠ 0) :
    (retCodeOfContextSwitch k).2 = some (k.task k.pActiveTask).postedEventVec := by
  have pos : (k.task k.pActiveTask).postedEventVec > 0 := by
    rw [gt_iff_lt,BitVec.lt_def]
    exact Nat.pos_of_ne_zero fun zero => posted (BitVec.eq_of_toNat_eq (by simpa using zero))
  simp only [retCodeOfContextSwitch,if_pos pos]

/-- `setEvent` posts only non-timer events, so a mask of timer events receives none. -/
theorem postEvents_timerOnly {t : Task w} {eventVec : BitVec 16}
    (timerOnly : t.eventMask &&& ~~~cfg.timerEvtMask = 0) :
    (postEvents (eventVec &&& ~~~cfg.timerEvtMask) t).postedEventVec = t.postedEventVec := by
  have none : eventVec &&& ~~~cfg.timerEvtMask &&& t.eventMask = 0 := by
    rw [BitVec.and_assoc,BitVec.and_comm (~~~cfg.timerEvtMask),timerOnly]
    simp
  simp [postEvents,none]

/-- A suspended task waiting in "all" mode for timer events only, with nothing posted, is released
    by every `setEvent`, whatever it posts. It stays without an event: when it is the task
    entered, the switch stages no return code. -/
theorem setEvent_releases_unposted {k : Kernel w} (inv : SchedInv cfg k) {T : Nat}
    (suspended : T ∈ k.suspendedList) (all : (k.task T).waitForAnyEvent = false)
    (timerOnly : (k.task T).eventMask &&& ~~~cfg.timerEvtMask = 0) (unposted : (k.task T).postedEventVec = 0)
    (eventVec : BitVec 16) :
    ∃ k' switch, setEvent cfg eventVec k = some (k',switch) ∧ T ∉ k'.suspendedList ∧
      T ∈ k'.dueList (k.task T).prioClass ∧ (k'.task T).postedEventVec = 0 ∧
      (k'.pActiveTask = T → switch = true ∧ (retCodeOfContextSwitch k').2 = none) := by
  obtain ⟨k',switch,ok,⟨-,change,-⟩,kept,due,tasks,-⟩ := setEvent_inv cfg inv eventVec
  set k1 := k.mapTasks k.suspendedList (postEvents (eventVec &&& ~~~cfg.timerEvtMask))
  have posted : k1.task T = postEvents (eventVec &&& ~~~cfg.timerEvtMask) (k.task T) := by
    rw [Kernel.mapTasks_task,if_pos suspended]
  have quiet : (k1.task T).postedEventVec = 0 := by rw [posted,postEvents_timerOnly cfg timerOnly,unposted]
  have released : T ∈ releasedOf cfg k1 k1.suspendedList :=
    List.mem_filter.mpr ⟨suspended,(isReleased_unposted_iff cfg quiet).mpr ⟨by rw [posted]; exact all,
      by rw [posted]; exact timerOnly⟩⟩
  have entered : (k'.task T).postedEventVec = 0 := by rw [tasks,if_pos released]; exact quiet
  refine ⟨k',switch,ok,?_,?_,entered,fun active => ⟨?_,?_⟩⟩
  · rw [kept]
    simp only [keptOf,List.mem_filter,Bool.not_eq_true']
    exact fun ⟨_,stays⟩ => by simp [(List.mem_filter.mp released).2] at stays
  · rw [due]
    refine List.mem_append_right _ (List.mem_filter.mpr ⟨released,?_⟩)
    simp [posted]
  · exact change.mpr (by rw [active]; exact fun same => inv.active_not_mem_suspended (same ▸ suspended))
  · rw [retCodeOfContextSwitch_snd_eq_none,active,entered]

/-- An application whose task 0 starts waiting in "all" mode for its delay timer only; otherwise
    `demoApplication`. -/
def timerOnlyApplication : Application demoConfig 8 where
  inits i := if i = 0 then { demoApplication.inits 0 with startEventMask := 0x8000, startByAllEvents := true }
    else demoApplication.inits i
  prioClass_lt := by decide
  classFit := by decide

theorem timerOnly_released_unposted : ∃ (k k' : Kernel 8) (switch : Bool), Reachable demoConfig timerOnlyApplication k ∧
    setEvent demoConfig 2 k = some (k',switch) ∧ 0 ∉ k'.suspendedList ∧ 0 ∈ k'.dueList 0 ∧
    (k'.task 0).postedEventVec = 0 ∧ (k'.pActiveTask = 0 → switch = true ∧ (retCodeOfContextSwitch k').2 = none) := by
  obtain ⟨k,mem,init,suspended,all,timerOnly,unposted,cls⟩ : ∃ (k : Kernel 8) (mem : Mem),
      rtos_initRTOS demoConfig timerOnlyApplication.inits (fun _ => 0) = some (k,mem) ∧ 0 ∈ k.suspendedList ∧
      (k.task 0).waitForAnyEvent = false ∧ (k.task 0).eventMask &&& ~~~demoConfig.timerEvtMask = 0 ∧
      (k.task 0).postedEventVec = 0 ∧ (k.task 0).prioClass = 0 := ⟨_,_,rfl,by decide,rfl,rfl,rfl,rfl⟩
  obtain ⟨k',switch,released⟩ :=
    setEvent_releases_unposted demoConfig (rtos_initRTOS_inv demoConfig _ init) suspended all timerOnly unposted 2
  rw [cls] at released
  exact ⟨k,k',switch,.init init,released⟩

/-- The end of a kernel entry that switches, on the machine: `SWITCH_CONTEXT` loads the active
    task's stack pointer and saves the current one in the left task's descriptor,
    `PUSH_RET_CODE_OF_CONTEXT_SWITCH` stages a non-zero event vector as the return code, and
    `POP_CONTEXT_FROM_STACK` with `reti` enters the task. -/
def switchContext (k : Kernel w) (mem : Mem) (c : Cpu) : Kernel w × Mem × Cpu :=
  let sp := (k.task k.pActiveTask).stackPointer
  let k := k.setTask k.pSuspendedTask { k.task k.pSuspendedTask with stackPointer := c.sp }
  let c := { c with sp := sp }
  match retCodeOfContextSwitch k with
  | (k,some v) => (k,popContextReti (execInstrs (pushRetCode v) (mem,c)))
  | (k,none) => (k,popContextReti (mem,c))

/-- Without a return code, the entered task's frame is popped from its saved stack pointer on. -/
theorem switchContext_unstaged {k : Kernel w} (mem : Mem) (c : Cpu) (none : (retCodeOfContextSwitch k).2 = none) :
    (switchContext k mem c).2 = popContextReti (mem,{ c with sp := (k.task k.pActiveTask).stackPointer }) := by
  rw [retCodeOfContextSwitch_snd_eq_none] at none
  have still : (retCodeOfContextSwitch (k.setTask k.pSuspendedTask
      { k.task k.pSuspendedTask with stackPointer := c.sp })).2 = Option.none := by
    rw [retCodeOfContextSwitch_snd_eq_none,Kernel.setTask_pActiveTask]
    by_cases same : k.pActiveTask = k.pSuspendedTask
    · rw [same,Kernel.setTask_task_same]; rw [same] at none; exact none
    · rw [Kernel.setTask_task_other _ _ same]; exact none
  simp only [switchContext]
  split
  · next code => rw [code] at still; cases still
  · rfl

/-- Entering a freshly seeded stack with no return code staged reads its frame two bytes off: the
    task starts at the low byte of its function's address shifted up by 16 bits, and so never at
    a function other than 0. -/
theorem popContextReti_unstaged (mem : Mem) {base s f : Nat} {mem' : Mem} {sp : Nat} (size : 38 ≤ s)
    (seeded : prepareTaskStack mem base s f = (mem',sp)) (c : Cpu) (placed : c.sp = sp) :
    (popContextReti (mem',c)).2.pc = f % 256 * 65536 ∧ (0 < f → (popContextReti (mem',c)).2.pc ≠ f) := by
  rw [prepareTaskStack_eq mem base s f size] at seeded
  have frame := (Prod.mk.inj seeded).1
  have top := (Prod.mk.inj seeded).2
  have read : ∀ i, 0 < i → i < 37 → mem' (base + s - 1 - i) = (initialContext f).getD i 0 := fun i pos lt => by
    rw [← frame]
    dsimp only
    rw [if_neg (by omega),if_pos (by omega),show base + s - 1 - (base + s - 1 - i) = i by omega]
  have pc : (popContextReti (mem',c)).2.pc = f % 256 * 65536 := by
    rw [(popContextReti_pc _ _).2.2,placed,← top,show base + s - 38 + 34 = base + s - 1 - 3 by omega,
      show base + s - 38 + 35 = base + s - 1 - 2 by omega,show base + s - 38 + 36 = base + s - 1 - 1 by omega,
      read 3 (by omega) (by omega),read 2 (by omega) (by omega),read 1 (by omega) (by omega)]
    simp [initialContext_eq,pcBytes]
  exact ⟨pc,fun pos => by rw [pc]; omega⟩

theorem demo_unstaged_entry : ∃ (mem' : Mem) (sp : Nat), prepareTaskStack (fun _ => 0) 0x200 50 0x100 = (mem',sp) ∧
    (popContextReti (mem',⟨fun _ => 0,0,sp,0⟩)).2.pc = 0 :=
  ⟨_,_,rfl,(popContextReti_unstaged (fun _ => 0) (by decide) rfl ⟨fun _ => 0,0,_,0⟩ rfl).1⟩

/-- The path above on the machine: after `rtos_initRTOS`, `rtos_setEvent(2)` releases task 0, whose
    function is at 0x100, and switches to it with no return code staged. `reti` then jumps to 0, the
    reset vector, whatever the CPU held. -/
theorem timerOnly_enters_reset : ∃ (k k' : Kernel 8) (mem : Mem),
    rtos_initRTOS demoConfig timerOnlyApplication.inits (fun _ => 0) = some (k,mem) ∧
    setEvent demoConfig 2 k = some (k',true) ∧ k'.pActiveTask = 0 ∧ (k'.task 0).taskFunction = 0x100 ∧
    ∀ c : Cpu, (switchContext k' mem c).2.2.pc = 0 := by
  obtain ⟨k,k',init,ok,active,entry,none,sp⟩ : ∃ (k k' : Kernel 8),
      rtos_initRTOS demoConfig timerOnlyApplication.inits (fun _ => 0) =
        some (k,(prepareTaskStack (prepareTaskStack (fun _ => 0) 0x200 50 0x100).1 0x240 50 0x101).1) ∧
      setEvent demoConfig 2 k = some (k',true) ∧ k'.pActiveTask = 0 ∧ (k'.task 0).taskFunction = 0x100 ∧
      (retCodeOfContextSwitch k').2 = none ∧ (k'.task 0).stackPointer = 0x20C := ⟨_,_,rfl,rfl,rfl,rfl,rfl,rfl⟩
  refine ⟨k,k',_,init,ok,active,entry,fun c => ?_⟩
  rw [switchContext_unstaged _ c none,(popContextReti_pc _ _).2.2]
  simp only [active,sp]
  rw [prepareTaskStack_eq _ _ _ _ (by decide),prepareTaskStack_eq _ _ _ _ (by decide)]
  decide

end RTuinOS
