import RTuinOS.Types
import Mathlib.Data.List.GetD

/-!
The context primitive of `rtos.c` on the data memory of the ATmega2560: the push and pop macros
as instruction lists, `reti` on the three-byte program counter, the seeding of a new task's stack
by `prepareTaskStack` and the reserve scan of `rtos_getStackReserve`. The stack grows down with
post-decrement: a push stores at the stack pointer and then decrements it.
-/
namespace RTuinOS

/-- The data memory, one byte per address. -/
abbrev Mem := Nat → BitVec 8

/-- The CPU state a context holds: `r0`..`r31`, `SREG`, the stack pointer and the program counter. -/
structure Cpu where
  r : Nat → BitVec 8
  sreg : BitVec 8
  sp : Nat
  pc : Nat

/-- `UNUSED_STACK_PATTERN`. -/
def unusedStackPattern : BitVec 8 := 0x29

/-- The instructions of the context macros; `lds` loads `r0` with the byte of a kernel variable. -/
inductive Instr where
  | push (r : Nat)
  | pop (r : Nat)
  | inSreg
  | outSreg
  | lds (b : BitVec 8)

/-- One instruction: `push rN`, `pop rN`, `in r0, __SREG__`, `out __SREG__, r0`, `lds r0, ...`. -/
def Instr.exec : Instr → Mem × Cpu → Mem × Cpu
  | .push r, (mem, c) => (Function.update mem c.sp (c.r r), { c with sp := c.sp - 1 })
  | .pop r, (mem, c) => (mem, { c with r := Function.update c.r r (mem (c.sp + 1)), sp := c.sp + 1 })
  | .inSreg, (mem, c) => (mem, { c with r := Function.update c.r 0 c.sreg })
  | .outSreg, (mem, c) => (mem, { c with sreg := c.r 0 })
  | .lds b, (mem, c) => (mem, { c with r := Function.update c.r 0 b })

/-- A sequence of instructions. -/
def execInstrs : List Instr → Mem × Cpu → Mem × Cpu
  | [], s => s
  | i :: is, s => execInstrs is (i.exec s)

/-- `PUSH_CONTEXT_WITHOUT_R24R25_ONTO_STACK`. -/
def pushContextWithoutR24R25 : List Instr :=
  [.push 0, .inSreg, .push 0] ++ (List.range' 1 23).map .push ++ (List.range' 26 6).map .push

/-- `PUSH_CONTEXT_ONTO_STACK`. -/
def pushContextOntoStack : List Instr := pushContextWithoutR24R25 ++ [.push 24, .push 25]

/-- `POP_CONTEXT_FROM_STACK`. -/
def popContextFromStack : List Instr :=
  [.pop 25, .pop 24] ++ (List.range' 26 6).reverse.map .pop ++ (List.range' 1 23).reverse.map .pop ++
    [.pop 0, .outSreg, .pop 0]

/-- The registers `POP_CONTEXT_FROM_STACK` loads from bytes it takes as zero. -/
def zeroRegs : List Nat := (List.range' 26 6).reverse ++ (List.range' 1 23).reverse

/-- The low byte of a 16-bit value. -/
def lowByte (v : BitVec 16) : BitVec 8 := BitVec.ofNat 8 v.toNat

/-- The high byte of a 16-bit value. -/
def highByte (v : BitVec 16) : BitVec 8 := BitVec.ofNat 8 (v.toNat >>> 8)

/-- The pushes of `PUSH_RET_CODE_OF_CONTEXT_SWITCH` for the return code `v`: low byte at the place
    of `r24`, high byte at the place of `r25`. -/
def pushRetCode (v : BitVec 16) : List Instr := [.lds (lowByte v), .push 0, .lds (highByte v), .push 0]

/-- `* sp-- = b` for each byte in turn. -/
def pushBytes : List (BitVec 8) → Mem → Nat → Mem × Nat
  | [], mem, sp => (mem, sp)
  | b :: bs, mem, sp => pushBytes bs (Function.update mem sp b) (sp - 1)

/-- The bytes of a program counter in the order a call pushes them, least significant first. -/
def pcBytes (pc : Nat) : List (BitVec 8) :=
  [BitVec.ofNat 8 pc, BitVec.ofNat 8 (pc >>> 8), BitVec.ofNat 8 (pc >>> 16)]

/-- `reti`: pop the three-byte program counter, most significant byte first, and enable interrupts. -/
def reti : Mem × Cpu → Mem × Cpu
  | (mem, c) =>
    (mem, { c with pc := (mem (c.sp+1)).toNat * 65536 + (mem (c.sp+2)).toNat * 256 + (mem (c.sp+3)).toNat,
                   sp := c.sp + 3, sreg := c.sreg ||| 0x80 })

/-- `POP_CONTEXT_FROM_STACK` and `reti`: the end of every kernel entry. -/
def popContextReti (s : Mem × Cpu) : Mem × Cpu := reti (execInstrs popContextFromStack s)

/-- The pops leave memory as it is; `reti` takes the three bytes above the 33 popped ones as the
    PC. -/
theorem popContextReti_pc (mem : Mem) (c : Cpu) :
    (popContextReti (mem,c)).1 = mem ∧ (popContextReti (mem,c)).2.sp = c.sp + 36 ∧
      (popContextReti (mem,c)).2.pc =
        (mem (c.sp + 34)).toNat * 65536 + (mem (c.sp + 35)).toNat * 256 + (mem (c.sp + 36)).toNat :=
  ⟨rfl,rfl,rfl⟩

/-- The bytes `prepareTaskStack` pushes, in push order: the guard return address 0, the task's
    entry point, `r0`, `SREG` with the interrupt flag, `r1`, then `r2`..`r23` and `r26`..`r31`. -/
def initialContext (taskEntryPoint : Nat) : List (BitVec 8) :=
  [0, 0, 0] ++ pcBytes taskEntryPoint ++ [0, 0x80, 0] ++ List.replicate 22 0 ++ List.replicate 6 0

/-- `while(sp >= pEmptyTaskStack) * sp-- = UNUSED_STACK_PATTERN;` At `pEmptyTaskStack = 0` the C
    loop wraps below address 0 and never ends, where this one stops: results about it take the
    non-null stack area that `rtos_initRTOS` asserts. -/
def fillUnused (pEmptyTaskStack : Nat) : Mem → Nat → Mem
  | mem, 0 => if pEmptyTaskStack ≤ 0 then Function.update mem 0 unusedStackPattern else mem
  | mem, sp+1 =>
    if pEmptyTaskStack ≤ sp+1 then
      fillUnused pEmptyTaskStack (Function.update mem (sp+1) unusedStackPattern) sp
    else mem

/-- `prepareTaskStack`: the seeded memory and the stack pointer below the initial context. -/
def prepareTaskStack (mem : Mem) (pEmptyTaskStack stackSize taskEntryPoint : Nat) : Mem × Nat :=
  let (mem, sp) := pushBytes (initialContext taskEntryPoint) mem (pEmptyTaskStack + stackSize - 1)
  (fillUnused pEmptyTaskStack mem sp, sp)

/-- The loop `while(*sp == UNUSED_STACK_PATTERN) ++ sp;` for at most `fuel` steps. -/
def reserveScan (mem : Mem) : Nat → Nat → Option Nat
  | 0, sp => if mem sp = unusedStackPattern then none else some sp
  | fuel+1, sp => if mem sp = unusedStackPattern then reserveScan mem fuel (sp+1) else some sp

/-- `rtos_getStackReserve`, its scan bounded by `fuel`. -/
def rtos_getStackReserve {w : Nat} (mem : Mem) (k : Kernel w) (idxTask fuel : Nat) : Option Nat :=
  (reserveScan mem fuel (k.task idxTask).pStackArea).map (· - (k.task idxTask).pStackArea)

theorem pushBytes_eq (bs : List (BitVec 8)) (mem : Mem) (sp : Nat) (room : bs.length ≤ sp) :
    pushBytes bs mem sp =
      (fun a => if sp - bs.length < a ∧ a ≤ sp then bs.getD (sp - a) 0 else mem a, sp - bs.length) := by
  induction bs generalizing mem sp with
  | nil =>
    refine Prod.ext (funext fun a => ?_) rfl
    simp only [pushBytes,List.length_nil,Nat.sub_zero]
    rw [if_neg (by omega)]
  | cons b bs ih =>
    have len : (b :: bs).length = bs.length + 1 := rfl
    rw [pushBytes,ih _ _ (by omega)]
    refine Prod.ext (funext fun a => ?_) (by simp only [len]; omega)
    simp only [Function.update_apply]
    by_cases top : a = sp
    · subst top
      rw [if_neg (by omega),if_pos rfl,if_pos (by omega),Nat.sub_self]
      rfl
    · rw [if_neg top]
      by_cases inside : sp - 1 - bs.length < a ∧ a ≤ sp - 1
      · rw [if_pos inside,if_pos (by omega),show sp - a = (sp - 1 - a) + 1 by omega]
        rfl
      · rw [if_neg inside,if_neg (by omega)]

theorem fillUnused_eq (base : Nat) (mem : Mem) (sp : Nat) :
    fillUnused base mem sp = fun a => if base ≤ a ∧ a ≤ sp then unusedStackPattern else mem a := by
  induction sp generalizing mem with
  | zero =>
    funext a
    by_cases below : base ≤ 0
    · rw [fillUnused,if_pos below,Function.update_apply]
      by_cases zero : a = 0
      · rw [if_pos zero,if_pos (by omega)]
      · rw [if_neg zero,if_neg (by omega)]
    · rw [fillUnused,if_neg below,if_neg (by omega)]
  | succ sp ih =>
    funext a
    by_cases below : base ≤ sp + 1
    · rw [fillUnused,if_pos below,ih]
      simp only [Function.update_apply]
      by_cases top : a = sp + 1
      · rw [if_neg (by omega),if_pos top,if_pos (by omega)]
      · rw [if_neg top]
        by_cases inside : base ≤ a ∧ a ≤ sp
        · rw [if_pos inside,if_pos (by omega)]
        · rw [if_neg inside,if_neg (by omega)]
    · rw [fillUnused,if_neg below,if_neg (by omega)]

theorem initialContext_eq (f : Nat) :
    initialContext f = [0, 0, 0] ++ pcBytes f ++ [0, 0x80] ++ List.replicate 29 0 := rfl

theorem prepareTaskStack_eq (mem : Mem) (base s f : Nat) (size : 38 ≤ s) :
    prepareTaskStack mem base s f =
      (fun a => if base ≤ a ∧ a ≤ base + s - 38 then unusedStackPattern
        else if base + s - 38 < a ∧ a ≤ base + s - 1 then (initialContext f).getD (base + s - 1 - a) 0 else mem a,
       base + s - 38) := by
  have len : (initialContext f).length = 37 := rfl
  simp only [prepareTaskStack,pushBytes_eq _ _ _ (show (initialContext f).length ≤ base + s - 1 by omega),len,
    fillUnused_eq]
  refine Prod.ext (funext fun a => ?_) (by simp only; omega)
  simp only [show base + s - 1 - 37 = base + s - 38 by omega]

theorem execInstrs_append (is js : List Instr) (s : Mem × Cpu) :
    execInstrs (is ++ js) s = execInstrs js (execInstrs is s) := by
  induction is generalizing s with
  | nil => rfl
  | cons i is ih => exact ih (i.exec s)

/-- Popping registers from bytes that are all `0` clears them. -/
theorem execInstrs_pops_zero (rs : List Nat) (mem : Mem) (c : Cpu)
    (zero : ∀ i < rs.length, mem (c.sp + 1 + i) = 0) :
    execInstrs (rs.map .pop) (mem, c) =
      (mem, { c with r := fun j => if j ∈ rs then 0 else c.r j, sp := c.sp + rs.length }) := by
  induction rs generalizing c with
  | nil => obtain ⟨r,sreg,sp,pc⟩ := c; simp [execInstrs]
  | cons x rs ih =>
    have first : mem (c.sp + 1) = 0 := zero 0 (Nat.succ_pos _)
    simp only [List.map_cons,execInstrs,Instr.exec]
    rw [ih _ (fun i lt => by
      rw [show c.sp + 1 + 1 + i = c.sp + 1 + (i+1) by omega]
      exact zero (i+1) (by simp; omega))]
    obtain ⟨r,sreg,sp,pc⟩ := c
    simp only [Prod.mk.injEq,true_and,first,List.mem_cons,List.length_cons,Cpu.mk.injEq,and_true]
    refine ⟨funext fun j => ?_,by omega⟩
    by_cases inRs : j ∈ rs
    · simp [inRs]
    · by_cases same : j = x <;> simp [inRs,same,Function.update_apply]

theorem popContextFromStack_eq :
    popContextFromStack = [.pop 25, .pop 24] ++ ((List.range' 26 6).reverse ++ (List.range' 1 23).reverse).map .pop ++
      [.pop 0, .outSreg, .pop 0] := by
  simp [popContextFromStack]

theorem mem_zeroRegs {j : Nat} (lt : j < 32) (ne0 : j ≠ 0) (ne24 : j ≠ 24) (ne25 : j ≠ 25) : j ∈ zeroRegs := by
  simp only [zeroRegs,List.mem_append,List.mem_reverse,List.mem_range'_1]
  omega

/-- `POP_CONTEXT_FROM_STACK` and `reti` over a frame above `sp`: `r25`, `r24`, 29 zero bytes for
    `r31`..`r26` and `r23`..`r1`, `SREG`, `r0` and the program counter, most significant byte
    first. -/
theorem popContextReti_frame {mem mem' : Mem} {c c' : Cpu} (hi lo sreg r0 : BitVec 8)
    (r25 : mem (c.sp + 1) = hi) (r24 : mem (c.sp + 2) = lo) (zero : ∀ i < 29, mem (c.sp + 3 + i) = 0)
    (sregByte : mem (c.sp + 32) = sreg) (r0Byte : mem (c.sp + 33) = r0)
    (entered : popContextReti (mem, c) = (mem', c')) :
    mem' = mem ∧ c'.sp = c.sp + 36 ∧ c'.sreg = sreg ||| 0x80 ∧
      c'.pc = (mem (c.sp + 34)).toNat * 65536 + (mem (c.sp + 35)).toNat * 256 + (mem (c.sp + 36)).toNat ∧
      c'.r 0 = r0 ∧ c'.r 24 = lo ∧ c'.r 25 = hi ∧ ∀ j < 32, j ≠ 0 → j ≠ 24 → j ≠ 25 → c'.r j = 0 := by
  have two : execInstrs [.pop 25, .pop 24] (mem, c) =
      (mem, { c with r := Function.update (Function.update c.r 25 hi) 24 lo, sp := c.sp + 2 }) := by
    simp only [execInstrs,Instr.exec,r25]
    rw [show c.sp + 1 + 1 = c.sp + 2 from rfl,r24]
  rw [popContextReti,popContextFromStack_eq,execInstrs_append,execInstrs_append,two,
    show ((List.range' 26 6).reverse ++ (List.range' 1 23).reverse) = zeroRegs from rfl,
    execInstrs_pops_zero _ _ _ (fun i lt => by
      rw [show c.sp + 2 + 1 + i = c.sp + 3 + i by omega]
      exact zero i lt)] at entered
  simp only [execInstrs,Instr.exec,reti,show zeroRegs.length = 29 from rfl] at entered
  obtain ⟨rfl,rfl⟩ := Prod.mk.inj entered
  have out24 : 24 ∉ zeroRegs := by decide
  have out25 : 25 ∉ zeroRegs := by decide
  rw [show c.sp + 2 + 29 + 1 = c.sp + 32 from rfl,sregByte,show c.sp + 32 + 1 = c.sp + 33 from rfl,r0Byte]
  refine ⟨rfl,rfl,by simp,rfl,by simp,?_,?_,fun j lt ne0 ne24 ne25 => ?_⟩
  · simp [Function.update_apply,out24]
  · simp [Function.update_apply,out25]
  · simp [Function.update_apply,ne0,mem_zeroRegs lt ne0 ne24 ne25]

theorem initialContext_getD_zero {f i : Nat} (regs : 8 ≤ i) : (initialContext f).getD i 0 = 0 := by
  rw [initialContext_eq,List.getD_append_right _ _ _ _ (by simp [pcBytes]; omega)]
  rw [List.getD_eq_getElem?_getD,List.getElem?_replicate]
  split <;> rfl

/-- The reserve scan steps over `n` pattern bytes and stops at the first other one. -/
theorem reserveScan_eq (mem : Mem) {n : Nat} : ∀ {sp fuel : Nat}, (∀ i < n, mem (sp + i) = unusedStackPattern) →
    mem (sp + n) ≠ unusedStackPattern → n ≤ fuel → reserveScan mem fuel sp = some (sp + n) := by
  induction n with
  | zero =>
    intro sp fuel _ stop _
    rw [Nat.add_zero] at stop ⊢
    cases fuel <;> simp [reserveScan,stop]
  | succ n ih =>
    intro sp fuel fill stop enough
    obtain ⟨fuel,rfl⟩ : ∃ m, fuel = m + 1 := ⟨fuel - 1,by omega⟩
    have shift : ∀ i, sp + 1 + i = sp + (i + 1) := fun i => by omega
    have rest := @ih (sp + 1) fuel (fun i lt => by rw [shift]; exact fill (i+1) (by omega)) (by rwa [shift]) (by omega)
    rw [reserveScan,if_pos (by simpa using fill 0 (Nat.succ_pos n)),rest,shift]

/-- For a non-null stack area of at least 50 bytes and a 24-bit entry address, as `rtos_initRTOS`
    asserts them, `prepareTaskStack` writes only inside the area and returns the stack pointer 38
    bytes below its end. It fills the area up to the stack pointer with the unused-stack pattern
    and leaves the 37-byte initial context above it. Staging a return code `v` there and popping the context enters the task function
    with `v` in `r24:r25`, every other register zero, `SREG` 0x80 and the zero guard as return
    address. The reserve scan of the fresh stack stops at the context, `stackSize - 37` bytes up. -/
theorem prepareTaskStack_seeds (mem : Mem) {base s f : Nat} {mem' : Mem} {sp : Nat} (_nonNull : 0 < base)
    (size : 50 ≤ s) (entry : f < 2^24) (seeded : prepareTaskStack mem base s f = (mem',sp)) :
    (∀ a, (a < base ∨ base + s ≤ a) → mem' a = mem a) ∧ sp = base + s - 38 ∧
    (∀ a, base ≤ a → a ≤ sp → mem' a = unusedStackPattern) ∧
    (List.range 37).map (fun i => mem' (base + s - 1 - i)) = initialContext f ∧
    (∀ (c : Cpu) (v : BitVec 16) (mem'' : Mem) (c' : Cpu), c.sp = sp →
      popContextReti (execInstrs (pushRetCode v) (mem',c)) = (mem'',c') →
      c'.pc = f ∧ c'.r 24 = lowByte v ∧ c'.r 25 = highByte v ∧ (∀ j < 32, j ≠ 24 → j ≠ 25 → c'.r j = 0) ∧
      c'.sreg = 0x80 ∧ c'.sp = base + s - 4 ∧ mem'' (c'.sp + 1) = 0 ∧ mem'' (c'.sp + 2) = 0 ∧
      mem'' (c'.sp + 3) = 0) ∧
    ∀ {w : Nat} (k : Kernel w) (idxTask fuel : Nat), (k.task idxTask).pStackArea = base → s - 37 ≤ fuel →
      rtos_getStackReserve mem' k idxTask fuel = some (s - 37) := by
  rw [prepareTaskStack_eq mem base s f (by omega),Prod.mk.injEq] at seeded
  obtain ⟨written,rfl⟩ := seeded
  have read : ∀ a, mem' a = if base ≤ a ∧ a ≤ base + s - 38 then unusedStackPattern
      else if base + s - 38 < a ∧ a ≤ base + s - 1 then (initialContext f).getD (base + s - 1 - a) 0 else mem a :=
    fun a => by rw [← written]
  have frame : ∀ j < 37, mem' (base + s - 38 + 1 + j) = (initialContext f).getD (36 - j) 0 := fun j lt => by
    rw [read,if_neg (by omega),if_pos (by omega),show base + s - 1 - (base + s - 38 + 1 + j) = 36 - j by omega]
  refine ⟨fun a out => by rw [read,if_neg (by omega),if_neg (by omega)],rfl,
    fun a low high => by rw [read,if_pos ⟨low,high⟩],?_,fun c v mem'' c' sp entered => ?_,
    fun {w} k idxTask fuel area enough => ?_⟩
  · refine List.ext_getElem (by simp [initialContext_eq,pcBytes]) fun i lt _ => ?_
    simp only [List.getElem_map,List.getElem_range]
    rw [List.length_map,List.length_range] at lt
    rw [show base + s - 1 - i = base + s - 38 + 1 + (36 - i) by omega,frame _ (by omega),
      show 36 - (36 - i) = i by omega,List.getD_eq_getElem]
  · simp only [pushRetCode,execInstrs,Instr.exec,Function.update_same] at entered
    have staged : ∀ a, Function.update (Function.update mem' c.sp (lowByte v)) (c.sp - 1) (highByte v) a =
        if a = c.sp - 1 then highByte v else if a = c.sp then lowByte v else mem' a := fun a => by
      simp only [Function.update_apply]
    have above : ∀ j < 37, Function.update (Function.update mem' c.sp (lowByte v)) (c.sp - 1) (highByte v)
        (c.sp - 1 - 1 + 3 + j) = (initialContext f).getD (36 - j) 0 := fun j lt => by
      rw [staged,if_neg (by omega),if_neg (by omega),show c.sp - 1 - 1 + 3 + j = base + s - 38 + 1 + j by omega,
        frame j lt]
    obtain ⟨rfl,spEq,sreg,pc,r0,r24,r25,others⟩ := popContextReti_frame (highByte v) (lowByte v) 0x80 0
      (by dsimp only; rw [staged,if_pos (by omega)]) (by dsimp only; rw [staged,if_neg (by omega),if_pos (by omega)])
      (fun i lt => by dsimp only; rw [above i (by omega),initialContext_getD_zero (by omega)])
      (by dsimp only; rw [show c.sp - 1 - 1 + 32 = c.sp - 1 - 1 + 3 + 29 by omega,above 29 (by omega)]; rfl)
      (by dsimp only; rw [show c.sp - 1 - 1 + 33 = c.sp - 1 - 1 + 3 + 30 by omega,above 30 (by omega)]; rfl) entered
    dsimp only at spEq pc
    refine ⟨?_,r24,r25,fun j lt ne24 ne25 => ?_,by rw [sreg]; rfl,by omega,?_,?_,?_⟩
    · rw [pc,show c.sp - 1 - 1 + 34 = c.sp - 1 - 1 + 3 + 31 by omega,above 31 (by omega),
        show c.sp - 1 - 1 + 35 = c.sp - 1 - 1 + 3 + 32 by omega,above 32 (by omega),
        show c.sp - 1 - 1 + 36 = c.sp - 1 - 1 + 3 + 33 by omega,above 33 (by omega)]
      simp only [show 36 - 31 = 5 from rfl,show 36 - 32 = 4 from rfl,show 36 - 33 = 3 from rfl]
      show (BitVec.ofNat 8 (f >>> 16)).toNat * 65536 + (BitVec.ofNat 8 (f >>> 8)).toNat * 256 + (BitVec.ofNat 8 f).toNat = f
      simp only [BitVec.toNat_ofNat,Nat.shiftRight_eq_div_pow]
      omega
    · by_cases zero : j = 0
      · rw [zero,r0]
      · exact others j lt zero ne24 ne25
    · rw [spEq,show c.sp - 1 - 1 + 36 + 1 = c.sp - 1 - 1 + 3 + 34 by omega,above 34 (by omega)]; rfl
    · rw [spEq,show c.sp - 1 - 1 + 36 + 2 = c.sp - 1 - 1 + 3 + 35 by omega,above 35 (by omega)]; rfl
    · rw [spEq,show c.sp - 1 - 1 + 36 + 3 = c.sp - 1 - 1 + 3 + 36 by omega,above 36 (by omega)]; rfl
  · rw [rtos_getStackReserve,area,reserveScan_eq mem' (n := s - 37) (fun i lt => by rw [read,if_pos (by omega)])
      (by rw [show base + (s - 37) = base + s - 38 + 1 + 0 by omega,frame 0 (by omega),
        initialContext_getD_zero (by omega)]; decide) enough]
    simp

theorem demo_seeded_stack : ∃ (mem' : Mem) (sp : Nat), prepareTaskStack (fun _ => 0) 0x200 50 0x100 = (mem',sp) ∧
    sp = 0x200 + 50 - 38 :=
  ⟨_,_,rfl,(@prepareTaskStack_seeds (fun _ => 0) 0x200 50 0x100 _ _ (by decide) (by decide) (by decide) rfl).2.1⟩

end RTuinOS
