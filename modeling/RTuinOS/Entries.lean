import RTuinOS.Release

/-!
What each phase of a kernel entry does to the kernel's data, stated once so that the invariants
never unfold the C logic again: the loops over the suspended tasks touch exactly their
descriptors, the round-robin phase either only counts down the active task's slice or rolls its
class by one, and `waitForEvent` moves the active task from the head of its class to the end of the
suspended list.
-/
namespace RTuinOS
variable {w : Nat} (cfg : Config)

/-- The kernel with `f` applied to the descriptors of the tasks in `l`. -/
def Kernel.mapTasks (k : Kernel w) (l : List Nat) (f : Task w → Task w) : Kernel w :=
  { k with taskAry := fun i => if i ∈ l then f (k.taskAry i) else k.taskAry i }

namespace Kernel
variable {k : Kernel w} {l : List Nat} {f : Task w → Task w}

theorem mapTasks_task (i : Nat) : (k.mapTasks l f).task i = if i ∈ l then f (k.task i) else k.task i := rfl

@[simp] theorem mapTasks_suspendedList : (k.mapTasks l f).suspendedList = k.suspendedList := rfl

@[simp] theorem mapTasks_dueList (c : Nat) : (k.mapTasks l f).dueList c = k.dueList c := rfl

@[simp] theorem mapTasks_noSuspendedTasks : (k.mapTasks l f).noSuspendedTasks = k.noSuspendedTasks := rfl

@[simp] theorem mapTasks_noDueTasksAry : (k.mapTasks l f).noDueTasksAry = k.noDueTasksAry := rfl

@[simp] theorem mapTasks_pDueTaskAryAry : (k.mapTasks l f).pDueTaskAryAry = k.pDueTaskAryAry := rfl

@[simp] theorem mapTasks_pSuspendedTaskAry : (k.mapTasks l f).pSuspendedTaskAry = k.pSuspendedTaskAry := rfl

@[simp] theorem mapTasks_pActiveTask : (k.mapTasks l f).pActiveTask = k.pActiveTask := rfl

@[simp] theorem mapTasks_pSuspendedTask : (k.mapTasks l f).pSuspendedTask = k.pSuspendedTask := rfl

@[simp] theorem mapTasks_time : (k.mapTasks l f).time = k.time := rfl

/-- Applying `f` to one task first and then to the others is applying it to all of them. -/
theorem setTask_mapTasks {t : Nat} (fresh : t ∉ l) :
    (k.setTask t (f (k.task t))).mapTasks l f = k.mapTasks (t :: l) f := by
  simp only [mapTasks,setTask,task]
  congr 1
  funext i
  by_cases same : i = t
  · subst i; simp [fresh]
  · simp [same]

end Kernel

/-- The loop over `count` suspended tasks from `first` on applies its body to each of them once. -/
theorem forEachSuspended_spec (body : Task w → Task w) (k : Kernel w) (first count : Nat)
    (inside : first + count ≤ cfg.noTasks)
    (distinct : ((List.range' first count).map k.pSuspendedTaskAry).Nodup) :
    forEachSuspended cfg body k first count =
      some (k.mapTasks ((List.range' first count).map k.pSuspendedTaskAry) body) := by
  induction count generalizing k first with
  | zero => rfl
  | succ count ih =>
    simp only [List.range'_succ,List.map_cons,List.nodup_cons] at distinct ⊢
    simp only [forEachSuspended,readAry_of_lt (show first < cfg.noTasks by omega),Option.bind_eq_bind,
      Option.some_bind]
    exact (ih (k.setTask (k.pSuspendedTaskAry first) (body (k.task (k.pSuspendedTaskAry first)))) (first+1)
      (by omega) distinct.2).trans (congrArg some (Kernel.setTask_mapTasks distinct.1))

/-- Over the whole suspended list, the loop applies its body to every suspended task. -/
theorem forEachSuspended_all (body : Task w → Task w) (k : Kernel w) (room : k.noSuspendedTasks ≤ cfg.noTasks)
    (distinct : k.suspendedList.Nodup) :
    forEachSuspended cfg body k 0 k.noSuspendedTasks = some (k.mapTasks k.suspendedList body) := by
  have view : (List.range' 0 k.noSuspendedTasks).map k.pSuspendedTaskAry = k.suspendedList := by
    rw [← List.range_eq_range']; rfl
  rw [forEachSuspended_spec cfg body k 0 _ (by omega) (by rwa [view]),view]

/-- The active task's slice expires at this tick. -/
def sliceExpires (t : Task w) : Prop := t.cntRoundRobin > 0 ∧ t.cntRoundRobin - 1 = 0

instance (t : Task w) : Decidable (sliceExpires t) := inferInstanceAs (Decidable (_ ∧ _))

/-- The slice counter after a tick: counted down, and reloaded when it expires. -/
def sliceCount (t : Task w) : BitVec w :=
  if t.cntRoundRobin > 0 then
    if t.cntRoundRobin - 1 = 0 then t.timeRoundRobin else t.cntRoundRobin - 1
  else t.cntRoundRobin

theorem sliceCount_of_expires {t : Task w} (expires : sliceExpires t) : sliceCount t = t.timeRoundRobin := by
  simp only [sliceCount,if_pos expires.1,if_pos expires.2]

/-- The round-robin phase counts the active task's slice and, when it expires while other tasks
    of the class are due, rolls the class by one, moving the head behind the others. -/
theorem roundRobin_spec (k : Kernel w) {a : Nat} {t : Task w} (active : k.pActiveTask = a)
    (task_a : k.task a = t) (prioLt : sliceExpires t → t.prioClass < cfg.noPrioClasses)
    (fit : sliceExpires t → k.noDueTasksAry t.prioClass ≤ cfg.maxNoTasksInPrioClass) :
    ∃ k', roundRobin cfg k = some (k',decide (sliceExpires t ∧ 1 < k.noDueTasksAry t.prioClass)) ∧
      k'.taskAry = Function.update k.taskAry a { t with cntRoundRobin := sliceCount t } ∧
      (∀ c, k'.dueList c = if (sliceExpires t ∧ 1 < k.noDueTasksAry t.prioClass) ∧ c = t.prioClass then
        (k.dueList c).tail ++ [a] else k.dueList c) ∧
      k'.noDueTasksAry = k.noDueTasksAry ∧ k'.suspendedList = k.suspendedList ∧ k'.time = k.time ∧
      k'.pActiveTask = a ∧ k'.pSuspendedTask = k.pSuspendedTask := by
  subst active
  by_cases pos : t.cntRoundRobin > 0
  · by_cases expires : t.cntRoundRobin - 1 = 0
    · have expired : sliceExpires t := ⟨pos,expires⟩
      have lt := prioLt expired
      have count : sliceCount t = t.timeRoundRobin := by simp only [sliceCount,if_pos pos,if_pos expires]
      by_cases more : 1 < k.noDueTasksAry t.prioClass
      · obtain ⟨row,rolled,view⟩ := aryList_roll (show 0 < k.noDueTasksAry t.prioClass by omega) (fit expired)
          (k.pDueTaskAryAry t.prioClass) k.pActiveTask
        refine ⟨{ k.setTask k.pActiveTask { t with cntRoundRobin := t.timeRoundRobin } with
            pDueTaskAryAry := Function.update k.pDueTaskAryAry t.prioClass row },?_,by rw [count]; rfl,?_,
            rfl,rfl,rfl,rfl,rfl⟩
        · simp only [roundRobin,task_a,if_pos pos,if_pos expires,readAry_of_lt lt,Option.bind_eq_bind,
            Option.some_bind,Kernel.setTask_noDueTasksAry,if_pos more,Kernel.setTask_pDueTaskAryAry,
            decide_eq_true (And.intro expired more)]
          rw [← Option.bind_assoc,rolled,Option.some_bind]
          rfl
        · intro c
          by_cases same : c = t.prioClass
          · subst c; simp [Kernel.dueList,expired,more,view]
          · simp [Kernel.dueList,same,Function.update_noteq same]
      · refine ⟨k.setTask k.pActiveTask { t with cntRoundRobin := t.timeRoundRobin },?_,by rw [count]; rfl,
          by simp [more],rfl,rfl,rfl,rfl,rfl⟩
        simp only [roundRobin,task_a,if_pos pos,if_pos expires,readAry_of_lt lt,Option.bind_eq_bind,
          Option.some_bind,Kernel.setTask_noDueTasksAry,if_neg more,
          decide_eq_false (show ¬ (sliceExpires t ∧ 1 < k.noDueTasksAry t.prioClass) from fun h => more h.2)]
        rfl
    · have fresh : ¬ sliceExpires t := fun expired => expires expired.2
      have count : sliceCount t = t.cntRoundRobin - 1 := by simp only [sliceCount,if_pos pos,if_neg expires]
      refine ⟨k.setTask k.pActiveTask { t with cntRoundRobin := t.cntRoundRobin - 1 },?_,by rw [count]; rfl,
        by simp [fresh],rfl,rfl,rfl,rfl,rfl⟩
      simp only [roundRobin,task_a,if_pos pos,if_neg expires,
        decide_eq_false (show ¬ (sliceExpires t ∧ 1 < k.noDueTasksAry t.prioClass) from fun h => fresh h.1)]
      rfl
  · have fresh : ¬ sliceExpires t := fun expired => pos expired.1
    have count : sliceCount t = t.cntRoundRobin := by simp only [sliceCount,if_neg pos]
    refine ⟨k,?_,?_,by simp [fresh],rfl,rfl,rfl,rfl,rfl⟩
    · simp only [roundRobin,task_a,if_neg pos,
        decide_eq_false (show ¬ (sliceExpires t ∧ 1 < k.noDueTasksAry t.prioClass) from fun h => fresh h.1)]
      rfl
    · rw [count,← task_a]
      exact (Function.update_eq_self _ _).symm

/-- `waitForEvent` takes the active task off the head of its class, appends it to the suspended
    list with its resume condition, and makes `activeOf` of the result active. -/
theorem waitForEvent_spec (k : Kernel w) {a : Nat} {t : Task w} (active : k.pActiveTask = a)
    (task_a : k.task a = t) (eventMask : BitVec 16) (all : Bool) (timeout : BitVec w)
    (prioLt : t.prioClass < cfg.noPrioClasses) (pos : 0 < k.noDueTasksAry t.prioClass)
    (dueSmall : k.noDueTasksAry t.prioClass ≤ cfg.noTasks) (room : k.noSuspendedTasks < cfg.noTasks)
    (dueFit : ∀ c < cfg.noPrioClasses, k.noDueTasksAry c ≤ cfg.maxNoTasksInPrioClass) :
    ∃ k', waitForEvent cfg eventMask all timeout k = some (k',true) ∧
      k'.suspendedList = k.suspendedList ++ [a] ∧
      (∀ c, k'.dueList c = if c = t.prioClass then (k.dueList c).tail else k.dueList c) ∧
      k'.taskAry = Function.update k.taskAry a (storeResumeCondition cfg k.time t eventMask all timeout) ∧
      k'.time = k.time ∧ k'.pSuspendedTask = a ∧ k'.pActiveTask = activeOf cfg k' := by
  subst active task_a
  have bound := cfg.noTasks_lt
  set prio := (k.task k.pActiveTask).prioClass with prio_def
  obtain ⟨row,shifted,view⟩ := aryList_shiftDown pos (dueFit prio prioLt) (k.pDueTaskAryAry prio)
  simp only [Nat.sub_zero] at shifted
  let k1 : Kernel w :=
    { time := k.time
      taskAry := Function.update k.taskAry k.pActiveTask
        (storeResumeCondition cfg k.time (k.task k.pActiveTask) eventMask all timeout)
      pActiveTask := k.pActiveTask
      pSuspendedTask := k.pActiveTask
      pDueTaskAryAry := Function.update k.pDueTaskAryAry prio row
      noDueTasksAry := Function.update k.noDueTasksAry prio (k.noDueTasksAry prio - 1)
      pSuspendedTaskAry := Function.update k.pSuspendedTaskAry k.noSuspendedTasks k.pActiveTask
      noSuspendedTasks := k.noSuspendedTasks + 1 }
  have susp1 : k1.suspendedList = k.suspendedList ++ [k.pActiveTask] := aryList_update_count _ _ _
  have due1 : ∀ c, k1.dueList c = if c = prio then (k.dueList c).tail else k.dueList c := by
    intro c
    by_cases same : c = prio
    · subst c; simpa [Kernel.dueList,k1] using view
    · simp [Kernel.dueList,k1,same,Function.update_noteq same]
  have run : waitForEvent cfg eventMask all timeout k =
      match findDueClass k1.noDueTasksAry cfg.noPrioClasses with
      | some idxPrio => do
        let head ← readAry cfg.maxNoTasksInPrioClass (k1.pDueTaskAryAry idxPrio) 0
        pure ({ k1 with pActiveTask := head }, true)
      | none => pure ({ k1 with pActiveTask := cfg.idleTaskId }, true) := by
    simp only [waitForEvent,readAry_of_lt prioLt,Option.bind_eq_bind,Option.some_bind,
      decU8_of_pos pos (by omega),shifted,Kernel.setTask_pSuspendedTaskAry,Kernel.setTask_noSuspendedTasks,
      Kernel.setTask_time,writeAry_of_lt room,incU8_of_lt (show k.noSuspendedTasks < 255 by omega)]
    rfl
  rw [run]
  cases found : findDueClass k1.noDueTasksAry cfg.noPrioClasses with
  | none =>
    exact ⟨{ k1 with pActiveTask := cfg.idleTaskId },rfl,susp1,due1,rfl,rfl,rfl,by simp [activeOf,found]⟩
  | some c =>
    obtain ⟨lt,pos',_⟩ := findDueClass_eq_some.mp found
    have fit : k1.noDueTasksAry c ≤ cfg.maxNoTasksInPrioClass := by
      by_cases same : c = prio
      · subst c
        show Function.update k.noDueTasksAry prio (k.noDueTasksAry prio - 1) prio ≤ _
        rw [Function.update_same]; have := dueFit _ prioLt; omega
      · simpa [k1,same,Function.update_noteq same] using dueFit c lt
    refine ⟨{ k1 with pActiveTask := k1.pDueTaskAryAry c 0 },?_,susp1,due1,rfl,rfl,rfl,
      by simp [activeOf,found]⟩
    simp only [readAry_of_lt (show 0 < cfg.maxNoTasksInPrioClass by omega),Option.bind_eq_bind,Option.some_bind]
    rfl

end RTuinOS