import RTuinOS.Context

/-!
Saved contexts on a task's stack. A kernel entry pushes the program counter and the registers
with one of the push macros, and its exit pops them with `POP_CONTEXT_FROM_STACK` and `reti`. The
bytes of a context in push order are `contextBytes`; `Pushed mem sp bs` says that the bytes `bs`
lie on the stack right above `sp`, as pushing them left them. A frame that
`PUSH_CONTEXT_ONTO_STACK` wrote pops back to the registers it saved. A frame that
`PUSH_CONTEXT_WITHOUT_R24R25_ONTO_STACK` wrote does so only once `PUSH_RET_CODE_OF_CONTEXT_SWITCH`
has staged a return code below it, which is then loaded into `r24:r25`.
-/
namespace RTuinOS

/-- The bytes `bs` lie on the stack right above `sp`, the first byte highest: as pushing them from
    `sp + bs.length` down left them. -/
def Pushed (mem : Mem) (sp : Nat) (bs : List (BitVec 8)) : Prop :=
  ∀ i (h : i < bs.length), mem (sp + bs.length - i) = bs[i]

/-- The bytes a kernel entry pushes for the context `c`, in push order: the PC, least significant
    byte first, `r0`, `SREG`, `r1`..`r23`, `r26`..`r31` and, if `full`, `r24` and `r25`. -/
def contextBytes (c : Cpu) (full : Bool) : List (BitVec 8) :=
  pcBytes c.pc ++ [c.r 0, c.sreg] ++ (List.range' 1 23 ++ List.range' 26 6).map c.r ++
    if full then [c.r 24, c.r 25] else []

/-- The context `c` with the return code `v` of a suspend command in `r24:r25`. -/
def Cpu.withRetCode (c : Cpu) (v : BitVec 16) : Cpu :=
  { c with r := Function.update (Function.update c.r 24 (lowByte v)) 25 (highByte v) }

/-- The first half of every kernel entry: the call or the interrupt pushes the PC, the global
    interrupt flag is cleared (by the interrupt, or by `cli`), and `PUSH_CONTEXT_ONTO_STACK`, or
    `PUSH_CONTEXT_WITHOUT_R24R25_ONTO_STACK` if not `full`, saves the registers. -/
def enterKernel (full : Bool) (s : Mem × Cpu) : Mem × Cpu :=
  let (mem, sp) := pushBytes (pcBytes s.2.pc) s.1 s.2.sp
  execInstrs (if full then pushContextOntoStack else pushContextWithoutR24R25)
    (mem, { s.2 with sp := sp, sreg := s.2.sreg &&& ~~~0x80 })

section Pushed
variable {mem mem' : Mem} {sp : Nat} {bs cs : List (BitVec 8)}

theorem pushed_append : Pushed mem sp (bs ++ cs) ↔ Pushed mem (sp + cs.length) bs ∧ Pushed mem sp cs := by
  constructor
  · intro pushed
    refine ⟨fun i lt => ?_,fun i lt => ?_⟩
    · have byte := pushed i (by simp; omega)
      rw [List.getElem_append_left lt,List.length_append,show sp + (bs.length + cs.length) - i =
        sp + cs.length + bs.length - i by omega] at byte
      exact byte
    · have byte := pushed (bs.length + i) (by simp; omega)
      simp only [List.getElem_append_right (Nat.le_add_right _ _),Nat.add_sub_cancel_left,
        List.length_append] at byte
      rwa [show sp + (bs.length + cs.length) - (bs.length + i) = sp + cs.length - i by omega] at byte
  · rintro ⟨high,low⟩ i lt
    rw [List.getElem_append]
    split
    · next first => rw [← high i first,List.length_append]; congr 1; omega
    · next later =>
      rw [List.length_append] at lt
      rw [← low (i - bs.length) (by omega)]; congr 1; simp only [List.length_append]; omega

/-- A frame stays as long as the bytes it occupies do. -/
theorem Pushed.congr (pushed : Pushed mem sp bs) (same : ∀ a, sp < a → a ≤ sp + bs.length → mem' a = mem a) :
    Pushed mem' sp bs := fun i lt => by rw [same _ (by omega) (by omega)]; exact pushed i lt

/-- Pushing bytes leaves them right above the new stack pointer and writes nothing else. -/
theorem pushBytes_pushed (room : bs.length ≤ sp) :
    Pushed (pushBytes bs mem sp).1 (pushBytes bs mem sp).2 bs ∧ (pushBytes bs mem sp).2 = sp - bs.length ∧
      ∀ a, (a ≤ sp - bs.length ∨ sp < a) → (pushBytes bs mem sp).1 a = mem a := by
  rw [pushBytes_eq bs mem sp room]
  refine ⟨fun i lt => ?_,rfl,fun a out => if_neg (by omega)⟩
  dsimp only
  rw [if_pos (by omega),show sp - (sp - bs.length + bs.length - i) = i by omega,List.getD_eq_getElem]

end Pushed

/-- Popping distinct registers from the bytes of their values, pushed in the reverse order, loads
    them. -/
theorem execInstrs_pops {rs : List Nat} (distinct : rs.Nodup) (v : Nat → BitVec 8) {mem : Mem} (c : Cpu)
    (frame : Pushed mem c.sp (rs.reverse.map v)) :
    execInstrs (rs.map .pop) (mem,c) =
      (mem,{ c with r := fun j => if j ∈ rs then v j else c.r j, sp := c.sp + rs.length }) := by
  induction rs generalizing c with
  | nil => rfl
  | cons x rs ih =>
    obtain ⟨fresh,distinct⟩ := List.nodup_cons.mp distinct
    rw [List.reverse_cons,List.map_append,pushed_append] at frame
    have top : mem (c.sp + 1) = v x := frame.2 0 (by simp)
    simp only [List.map_cons,execInstrs,Instr.exec,top]
    rw [ih distinct _ (by simpa using frame.1)]
    congr 2
    · funext j
      by_cases later : j ∈ rs
      · simp [later]
      · by_cases first : j = x <;> simp [later,first,Function.update_apply]
    · simp only [List.length_cons]; omega

theorem contextBytes_length (c : Cpu) (full : Bool) :
    (contextBytes c full).length = if full then 36 else 34 := by
  cases full <;> rfl

/-- A full frame in pop order: the PC, `r0` and `SREG`, below them `r25`, `r24` and the rest. -/
theorem contextBytes_full (c : Cpu) :
    contextBytes c true = pcBytes c.pc ++ [c.r 0, c.sreg] ++ ([25, 24] ++ zeroRegs).reverse.map c.r := by
  simp [contextBytes,zeroRegs]

/-- Staging a return code below a frame without `r24` and `r25` completes it. -/
theorem contextBytes_withRetCode (c : Cpu) (v : BitVec 16) :
    contextBytes (c.withRetCode v) true = contextBytes c false ++ [lowByte v, highByte v] :=
  rfl

/-- The entry pushes the bytes of the context with the interrupt flag cleared; `r0` is left
    holding `SREG`. -/
theorem enterKernel_eq (full : Bool) (mem : Mem) (c : Cpu) :
    enterKernel full (mem,c) =
      ((pushBytes (contextBytes { c with sreg := c.sreg &&& ~~~0x80 } full) mem c.sp).1,
        { c with r := Function.update c.r 0 (c.sreg &&& ~~~0x80), sreg := c.sreg &&& ~~~0x80,
                 sp := (pushBytes (contextBytes { c with sreg := c.sreg &&& ~~~0x80 } full) mem c.sp).2 }) := by
  cases full <;> rfl

/-- The entry pushes the context, with the interrupt flag cleared, and writes nothing else. -/
theorem enterKernel_pushed (full : Bool) (mem : Mem) (c : Cpu) (room : 36 ≤ c.sp) :
    Pushed (enterKernel full (mem,c)).1 (enterKernel full (mem,c)).2.sp
        (contextBytes { c with sreg := c.sreg &&& ~~~0x80 } full) ∧
      (enterKernel full (mem,c)).2.sp = c.sp - (contextBytes c full).length ∧
      ∀ a, (a ≤ c.sp - (contextBytes c full).length ∨ c.sp < a) → (enterKernel full (mem,c)).1 a = mem a := by
  have len : ∀ c : Cpu, (contextBytes c full).length = if full then 36 else 34 := fun c => contextBytes_length c full
  rw [enterKernel_eq]
  exact pushBytes_pushed (by rw [len]; split <;> omega)

/-- `POP_CONTEXT_FROM_STACK` and `reti` on a full frame load the context it holds, with interrupts
    enabled, and leave the stack pointer above the frame. -/
theorem popContextReti_pushed {mem : Mem} {c saved : Cpu} (frame : Pushed mem c.sp (contextBytes saved true))
    (pcLt : saved.pc < 2^24) :
    (popContextReti (mem,c)).1 = mem ∧ (popContextReti (mem,c)).2.sp = c.sp + 36 ∧
      (∀ j < 32, (popContextReti (mem,c)).2.r j = saved.r j) ∧
      (popContextReti (mem,c)).2.sreg = saved.sreg ||| 0x80 ∧ (popContextReti (mem,c)).2.pc = saved.pc := by
  rw [contextBytes_full,pushed_append] at frame
  obtain ⟨top,regs⟩ := frame
  have saved_regs : ∀ j < 32, j ≠ 0 → j ∈ [25, 24] ++ zeroRegs := by decide
  have len : (([25, 24] ++ zeroRegs).reverse.map saved.r).length = 31 := rfl
  rw [len] at top
  have read : ∀ i (h : i < 5), mem (c.sp + 31 + 5 - i) = (pcBytes saved.pc ++ [saved.r 0, saved.sreg])[i] := top
  have sregByte : mem (c.sp + 32) = saved.sreg := read 4 (by omega)
  have r0Byte : mem (c.sp + 33) = saved.r 0 := read 3 (by omega)
  have hi : mem (c.sp + 34) = BitVec.ofNat 8 (saved.pc >>> 16) := read 2 (by omega)
  have mid : mem (c.sp + 35) = BitVec.ofNat 8 (saved.pc >>> 8) := read 1 (by omega)
  have lo : mem (c.sp + 36) = BitVec.ofNat 8 saved.pc := read 0 (by omega)
  have pops : popContextFromStack = ([25, 24] ++ zeroRegs).map .pop ++ [.pop 0, .outSreg, .pop 0] := rfl
  rw [popContextReti,pops,execInstrs_append,execInstrs_pops (by decide) saved.r c regs]
  simp only [execInstrs,Instr.exec,reti,show ([25, 24] ++ zeroRegs).length = 31 from rfl,sregByte,r0Byte,
    show c.sp + 31 + 1 + 1 = c.sp + 33 from rfl,show c.sp + 31 + 1 = c.sp + 32 from rfl,
    show c.sp + 33 + 1 = c.sp + 34 from rfl,show c.sp + 33 + 2 = c.sp + 35 from rfl,
    show c.sp + 33 + 3 = c.sp + 36 from rfl,hi,mid,lo]
  refine ⟨trivial,trivial,fun j lt => ?_,rfl,?_⟩
  · by_cases zero : j = 0
    · rw [zero,Function.update_same]
    · rw [Function.update_noteq zero,Function.update_noteq zero,if_pos (saved_regs j lt zero)]
  · simp only [BitVec.toNat_ofNat,Nat.shiftRight_eq_div_pow]
    omega

/-- `PUSH_RET_CODE_OF_CONTEXT_SWITCH` on a frame without `r24` and `r25` turns it into the full
    frame of the context with the return code, writing only the two bytes below it. -/
theorem pushRetCode_pushed {mem : Mem} {c saved : Cpu} (v : BitVec 16) (frame : Pushed mem c.sp (contextBytes saved false))
    (room : 2 ≤ c.sp) :
    Pushed (execInstrs (pushRetCode v) (mem,c)).1 (execInstrs (pushRetCode v) (mem,c)).2.sp
        (contextBytes (saved.withRetCode v) true) ∧
      (execInstrs (pushRetCode v) (mem,c)).2.sp = c.sp - 2 ∧
      ∀ a, (a + 1 < c.sp ∨ c.sp < a) → (execInstrs (pushRetCode v) (mem,c)).1 a = mem a := by
  have staged : execInstrs (pushRetCode v) (mem,c) =
      (Function.update (Function.update mem c.sp (lowByte v)) (c.sp - 1) (highByte v),
        { c with r := Function.update (Function.update c.r 0 (lowByte v)) 0 (highByte v), sp := c.sp - 1 - 1 }) :=
    rfl
  have below : ∀ a, (a + 1 < c.sp ∨ c.sp < a) →
      Function.update (Function.update mem c.sp (lowByte v)) (c.sp - 1) (highByte v) a = mem a := fun a out => by
    rw [Function.update_noteq (by omega),Function.update_noteq (by omega)]
  rw [staged,contextBytes_withRetCode,pushed_append]
  refine ⟨⟨?_,fun i lt => ?_⟩,by dsimp only; omega,below⟩
  · dsimp only
    rw [show c.sp - 1 - 1 + [lowByte v, highByte v].length = c.sp by simp; omega]
    exact frame.congr fun a above _ => below a (.inr above)
  · dsimp only
    match i, lt with
    | 0, _ =>
      show Function.update (Function.update mem c.sp (lowByte v)) (c.sp - 1) (highByte v) (c.sp - 1 - 1 + 2 - 0) =
        lowByte v
      rw [show c.sp - 1 - 1 + 2 - 0 = c.sp by omega,Function.update_noteq (by omega),Function.update_same]
    | 1, _ =>
      show Function.update (Function.update mem c.sp (lowByte v)) (c.sp - 1) (highByte v) (c.sp - 1 - 1 + 2 - 1) =
        highByte v
      rw [show c.sp - 1 - 1 + 2 - 1 = c.sp - 1 by omega,Function.update_same]

end RTuinOS
