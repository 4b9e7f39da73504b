import RTuinOS.Reachable
import RTuinOS.Timers
import Mathlib.Logic.Function.Iterate

/-!
Round robin within a priority class. With round robin compiled in, every due task behind the head
of its class holds its full slice: the release scan, the rotation in `onTimerTic` and the removal
of the head in `waitForEvent` all keep this. So along ticks and posts that release no task into the
active class or above, the kernel runs the class as the round-robin schedule `Turns` does: the
head for what is left of its slice, then each task in queue order for its full slice. A class of
one task is not rotated: its task runs on with its slice reloaded.
-/
namespace RTuinOS
variable {w : Nat} (cfg : Config)

/-- With round robin compiled in, every due task behind the head of its class has its full
    slice. -/
def FullSlices (k : Kernel w) : Prop :=
  ∀ c < cfg.noPrioClasses, ∀ T ∈ (k.dueList c).tail, (k.task T).cntRoundRobin = (k.task T).timeRoundRobin

/-- The slice of every task, as `rtos_initializeTask` stored it. -/
def Kernel.slices (k : Kernel w) (T : Nat) : Nat := (k.task T).timeRoundRobin.toNat

theorem mem_tail_append {T : Nat} : ∀ {l l' : List Nat}, T ∈ (l ++ l').tail → T ∈ l.tail ∨ T ∈ l'
  | [], _, mem => .inr (List.mem_of_mem_tail mem)
  | _ :: _, _, mem => List.mem_append.mp mem

theorem sliceExpires_iff {t : Task w} : sliceExpires t ↔ t.cntRoundRobin.toNat = 1 := by
  by_cases pos : 1 ≤ t.cntRoundRobin.toNat
  · exact delay_expires_iff pos
  · have zero : t.cntRoundRobin = 0 := BitVec.eq_of_toNat_eq (by simp; omega)
    simp [sliceExpires,zero]

theorem sliceCount_toNat {t : Task w} (fresh : ¬ sliceExpires t) :
    (sliceCount t).toNat = t.cntRoundRobin.toNat - 1 := by
  by_cases pos : 1 ≤ t.cntRoundRobin.toNat
  · have gt : t.cntRoundRobin > 0 := by rw [gt_iff_lt,BitVec.lt_def]; simpa using pos
    rw [sliceCount,if_pos gt,if_neg (fun zero => fresh ⟨gt,zero⟩)]
    exact toNat_sub_one pos
  · have zero : t.cntRoundRobin = 0 := BitVec.eq_of_toNat_eq (by simp; omega)
    simp [sliceCount,zero]

namespace ListsInv
variable {cfg} {k : Kernel w} (inv : ListsInv cfg k)
include inv

/-- No due task is suspended. -/
theorem not_mem_due {c T : Nat} (lt : c < cfg.noPrioClasses) (susp : T ∈ k.suspendedList) : T ∉ k.dueList c :=
  fun due => List.disjoint_of_nodup_append inv.nodup susp ((dueList_sublist_allDue cfg lt).subset due)

end ListsInv

namespace SchedInv
variable {cfg} {k : Kernel w} (inv : SchedInv cfg k)
include inv

/-- A task behind the head of a class is not the active task. -/
theorem ne_active_of_mem_tail {c T : Nat} (lt : c < cfg.noPrioClasses) (mem : T ∈ (k.dueList c).tail) :
    T ≠ k.pActiveTask := by
  rintro rfl
  have due := List.mem_of_mem_tail mem
  have busy : k.pActiveTask ≠ cfg.idleTaskId := Nat.ne_of_lt (inv.due_lt lt due)
  have head := (inv.active_head busy).2
  have nodup : (k.dueList c).Nodup :=
    inv.nodup.sublist ((dueList_sublist_allDue cfg lt).trans (List.sublist_append_right _ _))
  rw [inv.dueClass c lt _ due] at head
  rw [head] at nodup
  exact (List.nodup_cons.mp nodup).1 mem

/-- The head of a class with no due task above it is the active task. -/
theorem active_eq_head {c b : Nat} {l : List Nat} (lt : c < cfg.noPrioClasses) (head : k.dueList c = b :: l)
    (above : ∀ c', c < c' → c' < cfg.noPrioClasses → k.dueList c' = []) : k.pActiveTask = b := by
  have busy : k.pActiveTask ≠ cfg.idleTaskId := fun idle => by
    have empty := inv.idle_iff.mp idle c lt
    rw [← Kernel.length_dueList,head] at empty
    cases empty
  obtain ⟨_,heads⟩ := inv.active_head busy
  have cls : (k.task k.pActiveTask).prioClass = c := by
    have := inv.due_le_active lt (by rw [head]; exact List.mem_cons_self _ _)
    by_contra ne
    rw [above _ (by omega) (inv.active_prioClass_lt busy)] at heads
    cases heads
  rw [cls,head] at heads
  exact (List.cons.inj heads).1.symm

/-- No task is due above the active task's class. -/
theorem dueList_above {c : Nat} (gt : (k.task k.pActiveTask).prioClass < c) (lt : c < cfg.noPrioClasses) :
    k.dueList c = [] :=
  List.eq_nil_iff_forall_not_mem.mpr fun T mem => by have := inv.due_le_active lt mem; omega

end SchedInv

section Frames
variable {cfg} {k k1 : Kernel w}

theorem Released.timeRoundRobin (rel : Released cfg k k1) (T : Nat) :
    (k1.task T).timeRoundRobin = (k.task T).timeRoundRobin := by
  rw [rel.2.2.1]; split <;> rfl

theorem Ticked.timeRoundRobin (ticked : Ticked cfg k k1) (T : Nat) :
    (k1.task T).timeRoundRobin = (k.task T).timeRoundRobin := by
  rw [ticked.2.2.1]; split_ifs <;> simp

theorem Ticked.prioClass (ticked : Ticked cfg k k1) (T : Nat) : (k1.task T).prioClass = (k.task T).prioClass := by
  rw [ticked.2.2.1]; split_ifs <;> simp

@[simp] theorem handOver_suspendedList (switch : Bool) :
    (if switch then (retCodeOfContextSwitch k1).1 else k1).suspendedList = k1.suspendedList := by
  split <;> simp [retCodeOfContextSwitch_fst]

end Frames

namespace FullSlices
variable {cfg} {k k' : Kernel w} (full : FullSlices cfg k)
include full

/-- The release scan appends released tasks, whose slices it reloads, and touches no due task. -/
theorem released (rr : cfg.roundRobinModeSupported = true) (inv : ListsInv cfg k) (rel : Released cfg k k') :
    FullSlices cfg k' := by
  obtain ⟨_,due,tasks,_⟩ := rel
  intro c lt T mem
  rw [due c] at mem
  rcases mem_tail_append mem with old | new
  · have kept : T ∉ releasedOf cfg k k.suspendedList := fun freed =>
      inv.not_mem_due lt (List.mem_of_mem_filter freed) (List.mem_of_mem_tail old)
    rw [tasks,if_neg kept]
    exact full c lt T old
  · rw [tasks,if_pos (List.mem_of_mem_filter new)]
    simp [releaseTask,rr]

/-- The round-robin phase reloads the slice of the head it moves to the back. -/
theorem ticked (rr : cfg.roundRobinModeSupported = true) (inv : SchedInv cfg k) (ticked : Ticked cfg k k') :
    FullSlices cfg k' := by
  obtain ⟨_,_,tasks,due⟩ := ticked
  have same : ∀ c < cfg.noPrioClasses, ∀ T ∈ (k.dueList c).tail, k'.task T = k.task T := fun c lt T mem => by
    rw [tasks,if_neg (fun susp => inv.not_mem_due lt susp (List.mem_of_mem_tail mem)),
      if_neg (fun active => inv.ne_active_of_mem_tail lt mem active.2)]
  intro c lt T mem
  rw [due c] at mem
  split at mem
  · next rolls =>
    rcases mem_tail_append mem with old | last
    · have old := List.mem_of_mem_tail old
      rw [same c lt T old]
      exact full c lt T old
    · rw [List.mem_singleton.mp last,tasks,if_neg inv.active_not_mem_suspended,if_pos ⟨rr,rfl⟩]
      exact sliceCount_of_expires rolls.2.1.1
  · rw [same c lt T mem]
    exact full c lt T mem

/-- Removing a class's head keeps the slices behind it. -/
theorem waited (inv : SchedInv cfg k) {t : Task w}
    (due : ∀ c, k'.dueList c = if c = (k.task k.pActiveTask).prioClass then (k.dueList c).tail else k.dueList c)
    (ary : k'.taskAry = Function.update k.taskAry k.pActiveTask t) : FullSlices cfg k' := by
  intro c lt T mem
  have old : T ∈ (k.dueList c).tail := by
    rw [due c] at mem
    split at mem
    · exact List.mem_of_mem_tail mem
    · exact mem
  rw [task_of_update_other ary (inv.ne_active_of_mem_tail lt old)]
  exact full c lt T old

/-- Posting events touches only suspended tasks. -/
theorem posted (inv : ListsInv cfg k) (f : Task w → Task w) : FullSlices cfg (k.mapTasks k.suspendedList f) := by
  intro c lt T mem
  rw [Kernel.mapTasks_dueList] at mem
  rw [Kernel.mapTasks_task,if_neg (fun susp => inv.not_mem_due lt susp (List.mem_of_mem_tail mem))]
  exact full c lt T mem

/-- Handing over the return code touches only the active task's event vector. -/
theorem retCode (inv : SchedInv cfg k) : FullSlices cfg (retCodeOfContextSwitch k).1 := by
  intro c lt T mem
  rw [retCodeOfContextSwitch_fst,Kernel.setTask_dueList] at mem
  rw [retCodeOfContextSwitch_fst,Kernel.setTask_task_other _ _ (inv.ne_active_of_mem_tail lt mem)]
  exact full c lt T mem

theorem step (rr : cfg.roundRobinModeSupported = true) (inv : SchedInv cfg k) {a : Action w}
    (stepped : RTuinOS.step cfg a k = some k') : FullSlices cfg k' := by
  obtain ⟨k1,switch,⟨inv1,_⟩,rfl,effect⟩ := step_cases cfg inv stepped
  have full1 : FullSlices cfg k1 := by
    rcases effect with ⟨_,k2,lists2,ticked,released⟩ | ⟨_,_,released⟩ | ⟨_,_,_,_,_,_,due,ary,_⟩
    · exact (full.ticked rr inv ticked).released rr lists2 released
    · exact (full.posted inv.toListsInv _).released rr
        (inv.toListsInv.mapTasks (postEvents_prioClass _) inv.idle_not_mem_suspended) released
    · exact full.waited inv due ary
  split
  · exact full1.retCode inv1
  · exact full1

end FullSlices

theorem reachable_fullSlices (rr : cfg.roundRobinModeSupported = true) {app : Application cfg w} {k : Kernel w}
    (reach : Reachable cfg app k) : FullSlices cfg k := by
  induction reach with
  | init ok =>
    obtain ⟨_,_,_,noDue,_,_⟩ := rtos_initRTOS_spec cfg ok
    intro c _ T mem
    simp [Kernel.dueList,aryList,noDue] at mem
  | step a reach stepped full => exact full.step rr (reachable_inv cfg reach) stepped

/-- The round-robin schedule of a class, as its purpose states it: the class's due tasks in turn
    order, the running one first, and the ticks left of its slice. -/
structure Turns where
  queue : List Nat
  left : Nat
  deriving DecidableEq

namespace Turns
variable (slice : Nat → Nat)

/-- A tick: the running task uses a tick of its slice and, with the last one, goes behind the
    others while the next one starts its full slice. A slice of `0` never runs out. -/
def tick (s : Turns) : Turns :=
  match s.queue with
  | [] => s
  | a :: q => if s.left = 1 then ⟨q ++ [a], slice (q.headD a)⟩ else ⟨a :: q, s.left - 1⟩

theorem tick_cons (a : Nat) (q : List Nat) (r : Nat) :
    tick slice ⟨a :: q, r⟩ = if r = 1 then ⟨q ++ [a], slice (q.headD a)⟩ else ⟨a :: q, r - 1⟩ := rfl

/-- The running task keeps running while its slice lasts. -/
theorem tick_iterate_lt (a : Nat) (q : List Nat) {r : Nat} :
    ∀ {n : Nat}, n < r → (tick slice)^[n] ⟨a :: q, r⟩ = ⟨a :: q, r - n⟩
  | 0, _ => rfl
  | n+1, lt => by
    rw [Function.iterate_succ_apply',tick_iterate_lt a q (Nat.lt_of_succ_lt lt),tick_cons,if_neg (by omega),
      Nat.sub_sub]

/-- With the last tick of its slice the running task goes behind the others and the next one
    starts its full slice. -/
theorem tick_iterate_left (a : Nat) (q : List Nat) {r : Nat} (pos : 0 < r) :
    (tick slice)^[r] ⟨a :: q, r⟩ = ⟨q ++ [a], slice (q.headD a)⟩ := by
  obtain ⟨n,rfl⟩ : ∃ n, r = n + 1 := ⟨r - 1,by omega⟩
  rw [Function.iterate_succ_apply',tick_iterate_lt slice a q (Nat.lt_succ_self n),tick_cons,if_pos (by omega)]

end Turns

/-- No suspended task of class `c` or above is released from `k` to `k'`. -/
def Quiet (c : Nat) (k k' : Kernel w) : Prop :=
  ∀ T ∈ k.suspendedList, c ≤ (k.task T).prioClass → T ∈ k'.suspendedList

instance (c : Nat) (k k' : Kernel w) : Decidable (Quiet c k k') :=
  inferInstanceAs (Decidable (∀ T ∈ k.suspendedList, c ≤ (k.task T).prioClass → T ∈ k'.suspendedList))

/-- A run of ticks and posts, with no suspension, along which no task of class `c` or above is
    released. -/
inductive QuietRun (c : Nat) : Kernel w → List (Action w) → Kernel w → Prop
  | nil (k : Kernel w) : QuietRun c k [] k
  | tick {k k1 k' : Kernel w} {as : List (Action w)} :
      step cfg .timerTic k = some k1 → Quiet c k k1 → QuietRun c k1 as k' → QuietRun c k (.timerTic :: as) k'
  | post {k k1 k' : Kernel w} {as : List (Action w)} (eventVec : BitVec 16) :
      step cfg (.setEvent eventVec) k = some k1 → Quiet c k k1 → QuietRun c k1 as k' →
        QuietRun c k (.setEvent eventVec :: as) k'

/-- The system-timer ticks among kernel entries. -/
def tickCount : List (Action w) → Nat
  | [] => 0
  | .timerTic :: as => tickCount as + 1
  | _ :: as => tickCount as

theorem QuietRun.run {c : Nat} {k k' : Kernel w} {as : List (Action w)} (quiet : QuietRun cfg c k as k') :
    RTuinOS.run cfg as k = some k' := by
  induction quiet with
  | nil => rfl
  | tick stepped _ _ ih => simp [RTuinOS.run,stepped,ih]
  | post _ stepped _ _ ih => simp [RTuinOS.run,stepped,ih]

/-- The kernel runs class `c` as the schedule `s` says: the class's due list is the queue, headed
    by the active task, whose counter holds the ticks left; `slice` gives every task's slice. -/
structure Follows (slice : Nat → Nat) (c : Nat) (k : Kernel w) (s : Turns) : Prop where
  lt : c < cfg.noPrioClasses
  queue : k.dueList c = s.queue
  head : s.queue.head? = some k.pActiveTask
  left : (k.task k.pActiveTask).cntRoundRobin.toNat = s.left
  slices : ∀ T, (k.task T).timeRoundRobin.toNat = slice T

section Quiet
variable {cfg} {c : Nat} {k k1 k2 : Kernel w}

/-- A release scan that frees no task of class `c` or above leaves those classes' lists alone. -/
theorem Released.dueList_of_quiet (rel : Released cfg k k1) (quiet : Quiet c k k1) {c' : Nat} (ge : c ≤ c') :
    k1.dueList c' = k.dueList c' := by
  obtain ⟨susp,due,_,_⟩ := rel
  have none : inClass k c' (releasedOf cfg k k.suspendedList) = [] := List.filter_eq_nil_iff.mpr fun T freed cls => by
    obtain ⟨mem,rel⟩ := List.mem_filter.mp freed
    have stays := quiet T mem (by simp at cls; omega)
    rw [susp] at stays
    have kept := (List.mem_filter.mp stays).2
    rw [rel] at kept
    cases kept
  rw [due c',none,List.append_nil]

/-- After such a scan from a state with nothing due above `c`, the head of `c` is active. -/
theorem Released.head_active (rel : Released cfg k2 k1) (quiet : Quiet c k2 k1) (inv1 : SchedInv cfg k1)
    (lt : c < cfg.noPrioClasses) (above : ∀ c', c < c' → c' < cfg.noPrioClasses → k2.dueList c' = [])
    {b : Nat} {l : List Nat} (head : k2.dueList c = b :: l) : k1.dueList c = b :: l ∧ k1.pActiveTask = b := by
  have due := (rel.dueList_of_quiet quiet (le_refl c)).trans head
  exact ⟨due,inv1.active_eq_head lt due fun c' gt lt' => (rel.dueList_of_quiet quiet gt.le).trans (above c' gt lt')⟩

end Quiet

namespace Follows
variable {cfg} {slice : Nat → Nat} {c : Nat} {k k' : Kernel w} {s : Turns}

theorem retCode (follows : Follows cfg slice c k s) : Follows cfg slice c (retCodeOfContextSwitch k).1 s := by
  obtain ⟨lt,queue,head,left,slices⟩ := follows
  rw [retCodeOfContextSwitch_fst]
  refine ⟨lt,by rw [Kernel.setTask_dueList,queue],by rw [Kernel.setTask_pActiveTask,head],by simpa using left,
    fun T => ?_⟩
  by_cases same : T = k.pActiveTask
  · subst same; simpa using slices _
  · rw [Kernel.setTask_task_other _ _ same]; exact slices T

theorem handOver (follows : Follows cfg slice c k s) (switch : Bool) :
    Follows cfg slice c (if switch then (retCodeOfContextSwitch k).1 else k) s := by
  split
  · exact follows.retCode
  · exact follows

/-- The schedule's queue is the class's due list, headed by the active task. -/
theorem queue_cons (follows : Follows cfg slice c k s) : ∃ q r, s = ⟨k.pActiveTask :: q,r⟩ := by
  obtain ⟨queue,r⟩ := s
  cases queue with
  | nil => cases follows.head
  | cons b q =>
    have head := follows.head
    simp only [List.head?_cons,Option.some.injEq] at head
    exact ⟨q,r,by rw [head]⟩

/-- A tick whose release scan frees no task of class `c` or above advances the schedule by a
    tick. -/
theorem tick (rr : cfg.roundRobinModeSupported = true) (inv : SchedInv cfg k) (full : FullSlices cfg k)
    (follows : Follows cfg slice c k s) (stepped : step cfg .timerTic k = some k') (quiet : Quiet c k k') :
    Follows cfg slice c k' (s.tick slice) := by
  obtain ⟨q,r,rfl⟩ := follows.queue_cons
  obtain ⟨lt,queue,_,left,slices⟩ := follows
  dsimp only at queue left
  obtain ⟨k1,switch,⟨inv1,_⟩,rfl,effect⟩ := step_cases cfg inv stepped
  obtain ⟨k2,_,ticked,released⟩ : ∃ k2, ListsInv cfg k2 ∧ Ticked cfg k k2 ∧ Released cfg k2 k1 := by
    rcases effect with ⟨_,ticked⟩ | ⟨_,wrong,_⟩ | ⟨_,_,_,wrong,_⟩
    · exact ticked
    · cases wrong
    · cases wrong
  replace quiet : Quiet c k k1 := fun T mem ge => by simpa using quiet T mem ge
  refine Follows.handOver ?_ switch
  have cls : (k.task k.pActiveTask).prioClass = c :=
    inv.dueClass c lt _ (by rw [queue]; exact List.mem_cons_self _ _)
  have quiet2 : Quiet c k2 k1 := fun T mem ge => quiet T (by rwa [ticked.2.1] at mem) (by rwa [ticked.prioClass] at ge)
  have above : ∀ c', c < c' → c' < cfg.noPrioClasses → k2.dueList c' = [] := fun c' gt lt' => by
    rw [ticked.2.2.2 c',if_neg (fun rolls => by have := rolls.2.2; omega)]
    exact inv.dueList_above (by omega) lt'
  have task1 : ∀ T ∉ k.suspendedList, k1.task T = k2.task T := fun T out => by
    rw [released.2.2.1,if_neg (show T ∉ releasedOf cfg k2 k2.suspendedList from
      fun freed => out (ticked.2.1 ▸ List.mem_of_mem_filter freed))]
  have active2 : k2.task k.pActiveTask =
      { k.task k.pActiveTask with cntRoundRobin := sliceCount (k.task k.pActiveTask) } := by
    rw [ticked.2.2.1,if_neg inv.active_not_mem_suspended,if_pos ⟨rr,rfl⟩]
  have slices1 : ∀ T, (k1.task T).timeRoundRobin.toNat = slice T := fun T => by
    rw [released.timeRoundRobin,ticked.timeRoundRobin]; exact slices T
  rw [Turns.tick_cons]
  by_cases expires : sliceExpires (k.task k.pActiveTask)
  · rw [if_pos (left.symm.trans (sliceExpires_iff.mp expires))]
    cases q with
    | nil =>
      have due2 : k2.dueList c = [k.pActiveTask] := by
        rw [ticked.2.2.2 c,if_neg (fun rolls => by
          have more := rolls.2.1.2
          rw [cls,← Kernel.length_dueList,queue] at more
          simp at more),queue]
      obtain ⟨due1,active1⟩ := released.head_active quiet2 inv1 lt above due2
      refine ⟨lt,due1,by rw [active1]; rfl,?_,slices1⟩
      rw [active1,task1 _ inv.active_not_mem_suspended,active2]
      dsimp only
      rw [sliceCount_of_expires expires]
      exact slices _
    | cons b q =>
      have due2 : k2.dueList c = b :: (q ++ [k.pActiveTask]) := by
        rw [ticked.2.2.2 c,if_pos ⟨rr,⟨expires,by rw [cls,← Kernel.length_dueList,queue]; simp⟩,cls.symm⟩,queue]
        rfl
      obtain ⟨due1,active1⟩ := released.head_active quiet2 inv1 lt above due2
      have behind : b ∈ (k.dueList c).tail := by rw [queue]; exact List.mem_cons_self _ _
      refine ⟨lt,due1,by rw [active1]; rfl,?_,slices1⟩
      rw [active1,task1 b (fun susp => inv.not_mem_due lt susp (List.mem_of_mem_tail behind)),ticked.2.2.1,
        if_neg (fun susp => inv.not_mem_due lt susp (List.mem_of_mem_tail behind)),
        if_neg (fun h => inv.ne_active_of_mem_tail lt behind h.2),full c lt b behind]
      exact slices b
  · rw [if_neg (fun one => expires (sliceExpires_iff.mpr (left.trans one)))]
    have due2 : k2.dueList c = k.pActiveTask :: q := by
      rw [ticked.2.2.2 c,if_neg (fun rolls => expires rolls.2.1.1),queue]
    obtain ⟨due1,active1⟩ := released.head_active quiet2 inv1 lt above due2
    refine ⟨lt,due1,by rw [active1]; rfl,?_,slices1⟩
    rw [active1,task1 _ inv.active_not_mem_suspended,active2]
    dsimp only
    rw [sliceCount_toNat expires,left]

/-- A post that releases no task of class `c` or above leaves the schedule where it is. -/
theorem post (inv : SchedInv cfg k) (follows : Follows cfg slice c k s) {eventVec : BitVec 16}
    (stepped : step cfg (.setEvent eventVec) k = some k') (quiet : Quiet c k k') : Follows cfg slice c k' s := by
  obtain ⟨q,r,rfl⟩ := follows.queue_cons
  obtain ⟨lt,queue,_,left,slices⟩ := follows
  dsimp only at queue left
  obtain ⟨k1,switch,⟨inv1,_⟩,rfl,effect⟩ := step_cases cfg inv stepped
  obtain ⟨posted,released⟩ : ∃ posted, Released cfg (k.mapTasks k.suspendedList (postEvents posted)) k1 := by
    rcases effect with ⟨wrong,_⟩ | ⟨_,_,released⟩ | ⟨_,_,_,wrong,_⟩
    · cases wrong
    · exact ⟨_,released⟩
    · cases wrong
  replace quiet : Quiet c k k1 := fun T mem ge => by simpa using quiet T mem ge
  refine Follows.handOver ?_ switch
  have cls : (k.task k.pActiveTask).prioClass = c :=
    inv.dueClass c lt _ (by rw [queue]; exact List.mem_cons_self _ _)
  have quiet2 : Quiet c (k.mapTasks k.suspendedList (postEvents posted)) k1 := fun T mem ge => quiet T mem (by
    rw [Kernel.mapTasks_task] at ge
    split at ge <;> exact ge)
  obtain ⟨due1,active1⟩ := released.head_active quiet2 inv1 lt
    (fun c' gt lt' => inv.dueList_above (by omega) lt') queue
  have out : k.pActiveTask ∉ releasedOf cfg (k.mapTasks k.suspendedList (postEvents posted)) k.suspendedList :=
    fun freed =>
    inv.active_not_mem_suspended (List.mem_of_mem_filter freed)
  refine ⟨lt,due1,by rw [active1]; rfl,?_,fun T => ?_⟩
  · rw [active1,released.2.2.1,Kernel.mapTasks_suspendedList,if_neg out,Kernel.mapTasks_task,
      if_neg inv.active_not_mem_suspended,left]
  · rw [released.timeRoundRobin,Kernel.mapTasks_task,← slices T]
    split <;> rfl

end Follows

/-- Along a quiet run from a reachable state the class follows the schedule, a tick at a time. -/
theorem QuietRun.follows (rr : cfg.roundRobinModeSupported = true) {app : Application cfg w} {slice : Nat → Nat}
    {c : Nat} {k k' : Kernel w} {as : List (Action w)} (quiet : QuietRun cfg c k as k') (reach : Reachable cfg app k)
    {s : Turns} (follows : Follows cfg slice c k s) : Follows cfg slice c k' ((Turns.tick slice)^[tickCount as] s) := by
  induction quiet generalizing s with
  | nil => exact follows
  | tick stepped calm _ ih =>
    rw [tickCount,Function.iterate_succ_apply]
    exact ih (reach.step _ stepped)
      (follows.tick rr (reachable_inv cfg reach) (reachable_fullSlices cfg rr reach) stepped calm)
  | post _ stepped calm _ ih => exact ih (reach.step _ stepped) (follows.post (reachable_inv cfg reach) stepped calm)

theorem head?_append_singleton (q : List Nat) (a : Nat) : (q ++ [a]).head? = some (q.headD a) := by
  cases q <;> rfl

/-- With round robin compiled in, in every reachable state every due task behind the head of its
    class has its full slice. Take the active task `A` heading class `c` with `r` ticks left of its
    slice. Along any run of ticks and posts that releases no task into class `c` or above, the class
    runs as the round-robin schedule of the tasks' slices, the active task being the schedule's
    running task. So `A` stays active for `r` ticks; with the last one its counter is reloaded and
    it goes behind the other due tasks of `c`, the first of which becomes active with its full
    slice, while the only task of a class stays active. -/
theorem reachable_round_robin (rr : cfg.roundRobinModeSupported = true) {app : Application cfg w} {k : Kernel w}
    (reach : Reachable cfg app k) :
    FullSlices cfg k ∧
      ∀ {A c r : Nat} {q : List Nat} {as : List (Action w)} {k' : Kernel w},
        k.pActiveTask = A → c < cfg.noPrioClasses → k.dueList c = A :: q → (k.task A).cntRoundRobin.toNat = r →
        QuietRun cfg c k as k' →
        Follows cfg k.slices c k' ((Turns.tick k.slices)^[tickCount as] ⟨A :: q,r⟩) ∧
        (tickCount as < r → k'.pActiveTask = A ∧ k'.dueList c = A :: q ∧
          (k'.task A).cntRoundRobin.toNat = r - tickCount as) ∧
        (tickCount as = r → 0 < r → k'.dueList c = q ++ [A] ∧ k'.pActiveTask = q.headD A ∧
          (k'.task k'.pActiveTask).cntRoundRobin = (k'.task k'.pActiveTask).timeRoundRobin) := by
  refine ⟨reachable_fullSlices cfg rr reach,?_⟩
  intro A c r q as k' active lt head left quiet
  subst active
  have follows : Follows cfg k.slices c k' ((Turns.tick k.slices)^[tickCount as] ⟨k.pActiveTask :: q,r⟩) :=
    quiet.follows cfg rr reach ⟨lt,head,rfl,left,fun _ => rfl⟩
  refine ⟨follows,fun short => ?_,fun ticks pos => ?_⟩
  · rw [Turns.tick_iterate_lt _ _ _ short] at follows
    obtain ⟨_,queue,head',left,_⟩ := follows
    have active : k'.pActiveTask = k.pActiveTask := (Option.some.inj head').symm
    rw [active] at left
    exact ⟨active,queue,left⟩
  · rw [ticks,Turns.tick_iterate_left _ _ _ pos] at follows
    obtain ⟨_,queue,head',left,slices⟩ := follows
    rw [head?_append_singleton,Option.some.injEq] at head'
    refine ⟨queue,head'.symm,BitVec.eq_of_toNat_eq ?_⟩
    rw [left,slices,head']

/-- The small configuration with room for both tasks in one class. -/
def sharedConfig : Config := { demoConfig with maxNoTasksInPrioClass := 2 }

/-- Both tasks in class 0 with a slice of two ticks, each waiting for event 0. -/
def sharedApplication : Application sharedConfig 8 where
  inits i := { taskFunction := 0x100 + i, prioClass := 0, timeRoundRobin := 2, pStackArea := 0x200 + 0x40 * i,
               stackSize := 50, startEventMask := 1, startByAllEvents := false, startTimeout := 0 }
  prioClass_lt := by decide
  classFit := by decide

/-- `rtos_setEvent(1)` releases both tasks into class 0, task 0 first; two ticks later its slice is
    used up and task 1 runs, task 0 queued behind it. -/
theorem demo_round_robin : ∃ k k' : Kernel 8, Reachable sharedConfig sharedApplication k ∧ FullSlices sharedConfig k ∧
    k.pActiveTask = 0 ∧ k.dueList 0 = [0,1] ∧ QuietRun sharedConfig 0 k [.timerTic,.timerTic] k' ∧
    k'.dueList 0 = [1,0] ∧ k'.pActiveTask = 1 := by
  obtain ⟨k,k',reach,active,due,left,quiet⟩ : ∃ k k' : Kernel 8, Reachable sharedConfig sharedApplication k ∧
      k.pActiveTask = 0 ∧ k.dueList 0 = [0,1] ∧ (k.task 0).cntRoundRobin.toNat = 2 ∧
      QuietRun sharedConfig 0 k [.timerTic,.timerTic] k' :=
    ⟨_,_,.step (.setEvent 1) (@Reachable.init 8 sharedConfig sharedApplication (fun _ => 0) _ _ rfl) rfl,rfl,rfl,rfl,
      .tick rfl (by decide) (.tick rfl (by decide) (.nil _))⟩
  obtain ⟨full,turns⟩ := reachable_round_robin sharedConfig rfl reach
  obtain ⟨queue,next,-⟩ := (turns active (by decide) due left quiet).2.2 rfl (by decide)
  exact ⟨k,k',reach,full,active,due,quiet,queue,next⟩

/-- Task 1, released by event 0, is the only due task of class 1. It does not go behind another
    task when its two-tick slice runs out: it stays active. -/
theorem demo_lone_task_stays_active : ∃ k k' : Kernel 8, Reachable demoConfig demoApplication k ∧
    k.pActiveTask = 1 ∧ k.dueList 1 = [1] ∧ (k.task 1).cntRoundRobin.toNat = 2 ∧ (k.task 1).timeRoundRobin.toNat = 2 ∧
    QuietRun demoConfig 1 k [.timerTic,.timerTic] k' ∧ k'.pActiveTask = 1 ∧ k'.dueList 1 = [1] :=
  let start := @Reachable.init 8 demoConfig demoApplication (fun _ => 0) _ _ rfl
  ⟨_,_,.step (.setEvent 1) start rfl,rfl,rfl,rfl,rfl,.tick rfl (by decide) (.tick rfl (by decide) (.nil _)),rfl,rfl⟩

end RTuinOS
