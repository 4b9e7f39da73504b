import RTuinOS.Entries
import RTuinOS.Init

/-!
The scheduler's invariant. Every application task is in exactly one of the suspended list and the
due lists, each due task in the list of its class; and the active task is the head of the highest
non-empty class, or the idle task when no task is due. Each kernel entry keeps the invariant, and
from a state that satisfies it no entry indexes an array out of bounds.
-/
namespace RTuinOS
variable {w : Nat} (cfg : Config)

/-- The due lists of all classes, lowest class first. -/
def allDue (k : Kernel w) : List Nat := (List.range cfg.noPrioClasses).flatMap k.dueList

/-- The application tasks of class `c`. -/
def classTasks (k : Kernel w) (c : Nat) : List Nat := inClass k c (List.range cfg.noTasks)

/-- The lists of the scheduler: every application task once, each due task in the list of its
    class, every class within its array, and the idle task without a slice. -/
structure ListsInv (k : Kernel w) : Prop where
  perm : (k.suspendedList ++ allDue cfg k).Perm (List.range cfg.noTasks)
  dueClass : ∀ c < cfg.noPrioClasses, ∀ t ∈ k.dueList c, (k.task t).prioClass = c
  prioLt : ∀ t < cfg.noTasks, (k.task t).prioClass < cfg.noPrioClasses
  classFit : ∀ c < cfg.noPrioClasses, (classTasks cfg k c).length ≤ cfg.maxNoTasksInPrioClass
  idleSlice : (k.task cfg.idleTaskId).cntRoundRobin = 0

/-- The scheduler's invariant: the lists, and the head of the highest non-empty class active. -/
structure SchedInv (k : Kernel w) extends ListsInv cfg k : Prop where
  active : k.pActiveTask = activeOf cfg k

section Perm
variable {k : Kernel w}

/-- Splitting a list by class and joining the classes again permutes it. -/
theorem flatMap_inClass_perm (n : Nat) (l : List Nat) (below : ∀ t ∈ l, (k.task t).prioClass < n) :
    ((List.range n).flatMap (fun c => inClass k c l)).Perm l := by
  induction n generalizing l with
  | zero => cases l with
    | nil => simp
    | cons t _ => exact absurd (below t (List.mem_cons_self _ _)) (Nat.not_lt_zero _)
  | succ n ih =>
    let low := l.filter (fun t => decide ((k.task t).prioClass < n))
    have lower : ∀ c ∈ List.range n, inClass k c l = inClass k c low := by
      intro c mem
      simp only [inClass,low,List.filter_filter]
      exact List.filter_congr (fun t _ => by simp at mem; by_cases h : (k.task t).prioClass = c <;> simp [h]; omega)
    rw [List.range_succ,List.flatMap_append,List.flatMap_congr lower]
    have top : inClass k n l = l.filter (fun t => !decide ((k.task t).prioClass < n)) :=
      List.filter_congr (fun t mem => by have := below t mem; by_cases h : (k.task t).prioClass = n <;> simp [h]; omega)
    simp only [List.flatMap_cons,List.flatMap_nil,List.append_nil,top]
    exact ((ih low (fun t mem => by simpa [low] using (List.mem_filter.mp mem).2)).append_right _).trans
      (List.filter_append_perm _ l)

/-- Joining a single class's list over all classes gives that list. -/
theorem flatMap_single {n c0 : Nat} (lt : c0 < n) (l : List Nat) :
    (List.range n).flatMap (fun c => if c = c0 then l else []) = l := by
  induction n with
  | zero => omega
  | succ n ih =>
    rw [List.range_succ,List.flatMap_append]
    by_cases top : c0 = n
    · subst top
      have none : (List.range c0).flatMap (fun c => if c = c0 then l else []) = [] := by
        simp only [List.flatMap_eq_nil_iff,List.mem_range]
        intro c lt'; simp [show c ≠ c0 by omega]
      simp [none]
    · simp [ih (by omega),Ne.symm top]

end Perm

theorem Kernel.dueList_cons {k : Kernel w} {c : Nat} (pos : 0 < k.noDueTasksAry c) :
    k.dueList c = k.pDueTaskAryAry c 0 :: (k.dueList c).tail := by
  obtain ⟨n,count⟩ : ∃ n, k.noDueTasksAry c = n+1 := ⟨_,(Nat.succ_pred_eq_of_pos pos).symm⟩
  simp [Kernel.dueList,aryList,count,List.range_succ_eq_map]

theorem allDue_perm {k k' : Kernel w} (same : ∀ c, (k'.dueList c).Perm (k.dueList c)) :
    (allDue cfg k').Perm (allDue cfg k) :=
  List.Perm.flatMap_left _ (fun c _ => same c)

/-- Updating one descriptor within its class keeps every task's class. -/
theorem prioClass_of_update {k k' : Kernel w} {a : Nat} {t : Task w} (ary : k'.taskAry = Function.update k.taskAry a t)
    (same : t.prioClass = (k.task a).prioClass) (i : Nat) : (k'.task i).prioClass = (k.task i).prioClass := by
  by_cases eq : i = a
  · subst eq; simp [Kernel.task,ary,same]
  · simp [Kernel.task,ary,eq]

theorem task_of_update_other {k k' : Kernel w} {a : Nat} {t : Task w} (ary : k'.taskAry = Function.update k.taskAry a t)
    {i : Nat} (other : i ≠ a) : k'.task i = k.task i := by
  simp [Kernel.task,ary,other]

theorem dueList_sublist_allDue {k : Kernel w} {c : Nat} (lt : c < cfg.noPrioClasses) :
    (k.dueList c).Sublist (allDue cfg k) :=
  List.sublist_flatten_of_mem (List.mem_map.mpr ⟨c,List.mem_range.mpr lt,rfl⟩)

/-- The scheduler picks the same task from equal due lists. -/
theorem activeOf_congr {k k' : Kernel w} (same : ∀ c, k'.dueList c = k.dueList c) : activeOf cfg k' = activeOf cfg k := by
  have counts : k'.noDueTasksAry = k.noDueTasksAry := funext fun c => by
    rw [← Kernel.length_dueList,same,Kernel.length_dueList]
  unfold activeOf
  rw [counts]
  split
  · next c found =>
    have pos := (findDueClass_eq_some.mp found).2.1
    have heads := congrArg (fun l => l[0]?) (same c)
    simpa [Kernel.dueList,aryList,List.getElem?_map,List.getElem?_range,pos,counts] using heads
  · rfl

namespace ListsInv
variable {cfg} {k : Kernel w} (inv : ListsInv cfg k)
include inv

theorem nodup : (k.suspendedList ++ allDue cfg k).Nodup := inv.perm.nodup_iff.mpr (List.nodup_range _)

theorem suspended_nodup : k.suspendedList.Nodup := (List.nodup_append.mp inv.nodup).1

theorem mem_lt {t : Nat} (mem : t ∈ k.suspendedList ++ allDue cfg k) : t < cfg.noTasks :=
  List.mem_range.mp (inv.perm.subset mem)

theorem suspended_lt {t : Nat} (mem : t ∈ k.suspendedList) : t < cfg.noTasks :=
  inv.mem_lt (List.mem_append_left _ mem)

theorem due_lt {c t : Nat} (lt : c < cfg.noPrioClasses) (mem : t ∈ k.dueList c) : t < cfg.noTasks :=
  inv.mem_lt (List.mem_append_right _ ((dueList_sublist_allDue cfg lt).subset mem))

theorem noSuspendedTasks_le : k.noSuspendedTasks ≤ cfg.noTasks := by
  have := inv.perm.length_eq
  simp only [List.length_append,List.length_range,Kernel.length_suspendedList] at this
  omega

/-- A due list and the released tasks of its class are distinct tasks of the class, so together
    they fit the class's array and number at most the application tasks. -/
theorem dueRoom {c : Nat} (lt : c < cfg.noPrioClasses) :
    k.noDueTasksAry c + (inClass k c (releasedOf cfg k k.suspendedList)).length ≤
      min cfg.maxNoTasksInPrioClass cfg.noTasks := by
  have sub : (inClass k c (releasedOf cfg k k.suspendedList) ++ k.dueList c).Sublist (k.suspendedList ++ allDue cfg k) :=
    ((List.filter_sublist _).trans (List.filter_sublist _)).append (dueList_sublist_allDue cfg lt)
  have inside : inClass k c (releasedOf cfg k k.suspendedList) ++ k.dueList c ⊆ classTasks cfg k c := by
    intro t mem
    have ltN := inv.mem_lt (sub.subset mem)
    simp only [classTasks,inClass,List.mem_filter,List.mem_range,ltN,true_and,decide_eq_true_eq]
    rcases List.mem_append.mp mem with released | due
    · exact of_decide_eq_true (List.mem_filter.mp released).2
    · exact inv.dueClass c lt t due
  have length := ((inv.nodup.sublist sub).subperm inside).length_le
  have fits := inv.classFit c lt
  have fewer : (classTasks cfg k c).length ≤ cfg.noTasks := by
    simpa [classTasks] using List.length_filter_le _ (List.range cfg.noTasks)
  rw [List.length_append,Kernel.length_dueList] at length
  omega

theorem dueFit {c : Nat} (lt : c < cfg.noPrioClasses) :
    k.noDueTasksAry c ≤ min cfg.maxNoTasksInPrioClass cfg.noTasks := by
  have := inv.dueRoom lt; omega

theorem idle_not_mem_suspended : cfg.idleTaskId ∉ k.suspendedList :=
  fun mem => Nat.lt_irrefl _ (inv.suspended_lt mem)

/-- The lists carry over to a kernel whose tasks keep their classes, given its own lists. -/
theorem of_classes {k' : Kernel w} (classes : ∀ t, (k'.task t).prioClass = (k.task t).prioClass)
    (perm : (k'.suspendedList ++ allDue cfg k').Perm (List.range cfg.noTasks))
    (dueClass : ∀ c < cfg.noPrioClasses, ∀ t ∈ k'.dueList c, (k.task t).prioClass = c)
    (idle : (k'.task cfg.idleTaskId).cntRoundRobin = 0) : ListsInv cfg k' where
  perm := perm
  dueClass := fun c lt t mem => (classes t).trans (dueClass c lt t mem)
  prioLt := fun t lt => (classes t).symm ▸ inv.prioLt t lt
  classFit := fun c lt => by
    rw [classTasks,inClass_congr (fun t _ => classes t)]; exact inv.classFit c lt
  idleSlice := idle

/-- Releasing moves tasks from the suspended list to the due lists of their classes. -/
theorem release_perm {k1 : Kernel w} (susp : k1.suspendedList = keptOf cfg k k.suspendedList)
    (due : ∀ c, k1.dueList c = k.dueList c ++ inClass k c (releasedOf cfg k k.suspendedList)) :
    (k1.suspendedList ++ allDue cfg k1).Perm (List.range cfg.noTasks) := by
  have classes : ((List.range cfg.noPrioClasses).flatMap (fun c => inClass k c (releasedOf cfg k k.suspendedList))).Perm
      (releasedOf cfg k k.suspendedList) :=
    flatMap_inClass_perm _ _ (fun t mem => inv.prioLt t (inv.suspended_lt (List.mem_of_mem_filter mem)))
  have dues : (allDue cfg k1).Perm (allDue cfg k ++ releasedOf cfg k k.suspendedList) := by
    rw [allDue,List.flatMap_congr (fun c _ => due c)]
    exact (List.flatMap_append_perm _ _ _).symm.trans (List.Perm.append_left _ classes)
  rw [susp]
  refine ((dues.append_left _).trans ((List.perm_append_comm.append_left _).trans ?_)).trans inv.perm
  rw [← List.append_assoc]
  exact (List.perm_append_comm.trans (List.filter_append_perm _ _)).append_right _

/-- The lists do not depend on which task is active or was left. -/
theorem setActive (a b : Nat) : ListsInv cfg { k with pActiveTask := a, pSuspendedTask := b } :=
  ⟨inv.perm,inv.dueClass,inv.prioLt,inv.classFit,inv.idleSlice⟩

/-- A descriptor may change in every field but its class and its slice counter. -/
theorem setTask {i : Nat} {t : Task w} (cls : t.prioClass = (k.task i).prioClass)
    (slice : t.cntRoundRobin = (k.task i).cntRoundRobin) : ListsInv cfg (k.setTask i t) := by
  refine inv.of_classes (prioClass_of_update rfl cls) inv.perm inv.dueClass ?_
  by_cases idle : cfg.idleTaskId = i
  · subst idle; simpa [slice] using inv.idleSlice
  · rw [task_of_update_other rfl idle]; exact inv.idleSlice

/-- Descriptors of suspended tasks may change in every field but their class. -/
theorem mapTasks {l : List Nat} {f : Task w → Task w} (cls : ∀ t, (f t).prioClass = t.prioClass)
    (idleOut : cfg.idleTaskId ∉ l) : ListsInv cfg (k.mapTasks l f) :=
  inv.of_classes (fun t => by rw [Kernel.mapTasks_task]; split <;> simp [cls]) inv.perm inv.dueClass
    (by rw [Kernel.mapTasks_task,if_neg idleOut]; exact inv.idleSlice)

end ListsInv

/-- What a kernel entry's logic guarantees: the invariant, a switch exactly when the active task
    changed, and then the left task recorded in `_pSuspendedTask`. -/
def EntryExit (k k' : Kernel w) (switch : Bool) : Prop :=
  SchedInv cfg k' ∧ (switch = true ↔ k'.pActiveTask ≠ k.pActiveTask) ∧
    (switch = true → k'.pSuspendedTask = k.pActiveTask)

/-- What the release scan does to the data: the tasks the release condition keeps stay suspended,
    the others join the due lists of their classes, released. -/
def Released (k k' : Kernel w) : Prop :=
  k'.suspendedList = keptOf cfg k k.suspendedList ∧
    (∀ c, k'.dueList c = k.dueList c ++ inClass k c (releasedOf cfg k k.suspendedList)) ∧
    (∀ i, k'.task i = if i ∈ releasedOf cfg k k.suspendedList then releaseTask cfg (k.task i) else k.task i) ∧
    k'.time = k.time

/-- `checkForTaskActivation` establishes the invariant when its hint is honest: without a hint
    the active task was already right, and with one some task is due. It switches exactly when the
    active task changes, and then records the left one. -/
theorem checkForTaskActivation_inv {k : Kernel w} (inv : ListsInv cfg k) (hint : Bool)
    (settled : hint = false → k.pActiveTask = activeOf cfg k)
    (hinted : hint = true → ∃ c < cfg.noPrioClasses, 0 < k.noDueTasksAry c) :
    ∃ k' switch, checkForTaskActivation cfg k hint = some (k',switch) ∧ EntryExit cfg k k' switch ∧
      Released cfg k k' := by
  have small := cfg.noTasks_lt
  obtain ⟨k1,susp,due,tasks,time1,active1,left1,result⟩ := checkForTaskActivation_spec cfg k hint
    inv.noSuspendedTasks_le inv.suspended_nodup
    (fun t mem => inv.prioLt t (inv.suspended_lt (List.mem_of_mem_filter mem)))
    (fun t mem => by
      have := inv.dueRoom (inv.prioLt t (inv.suspended_lt (List.mem_of_mem_filter mem))); omega)
    (fun c lt => by have := inv.dueFit lt; omega) hinted
  have idleOut : cfg.idleTaskId ∉ releasedOf cfg k k.suspendedList :=
    fun mem => inv.idle_not_mem_suspended (List.mem_of_mem_filter mem)
  have inv1 : ListsInv cfg k1 := inv.of_classes
    (fun t => by rw [tasks]; split <;> rfl) (inv.release_perm susp due)
    (fun c lt t mem => by
      rw [due] at mem
      rcases List.mem_append.mp mem with old | new
      · exact inv.dueClass c lt t old
      · exact of_decide_eq_true (List.mem_filter.mp new).2)
    (by rw [tasks,if_neg idleOut]; exact inv.idleSlice)
  by_cases woke : (hint || !(releasedOf cfg k k.suspendedList).isEmpty) = true
  · rw [if_pos woke] at result
    exact ⟨_,_,result,⟨{ inv1.setActive _ _ with active := rfl },by simp [active1],fun _ => rfl⟩,
      susp,due,tasks,time1⟩
  · rw [if_neg woke] at result
    simp only [Bool.or_eq_true,not_or,Bool.not_eq_true',List.isEmpty_eq_false,Bool.not_eq_false,ne_eq,
      Decidable.not_not] at woke
    have unchanged : ∀ c, k1.dueList c = k.dueList c := fun c => by
      rw [due,woke.2]; simp [inClass]
    refine ⟨_,_,result,⟨{ inv1 with active := ?_ },by simp [active1],fun h => absurd h (by simp)⟩,
      susp,due,tasks,time1⟩
    rw [activeOf_congr cfg unchanged,active1]
    exact settled (by simpa using woke.1)

namespace SchedInv
variable {cfg} {k : Kernel w} (inv : SchedInv cfg k)
include inv

/-- The active task, unless idle, heads the due list of its class, the highest non-empty one. -/
theorem active_head (busy : k.pActiveTask ≠ cfg.idleTaskId) :
    findDueClass k.noDueTasksAry cfg.noPrioClasses = some (k.task k.pActiveTask).prioClass ∧
      k.dueList (k.task k.pActiveTask).prioClass = k.pActiveTask :: (k.dueList (k.task k.pActiveTask).prioClass).tail := by
  have act := inv.active
  unfold activeOf at act
  split at act
  · next c found =>
    obtain ⟨lt,pos,_⟩ := findDueClass_eq_some.mp found
    have head : k.dueList c = k.pActiveTask :: (k.dueList c).tail := by rw [act]; exact Kernel.dueList_cons pos
    have cls : (k.task k.pActiveTask).prioClass = c :=
      inv.dueClass c lt _ (by rw [head]; exact List.mem_cons_self _ _)
    rw [cls]; exact ⟨found,head⟩
  · exact absurd act busy

theorem active_prioClass_lt (busy : k.pActiveTask ≠ cfg.idleTaskId) :
    (k.task k.pActiveTask).prioClass < cfg.noPrioClasses :=
  (findDueClass_eq_some.mp (inv.active_head busy).1).1

theorem active_mem_allDue (busy : k.pActiveTask ≠ cfg.idleTaskId) : k.pActiveTask ∈ allDue cfg k :=
  (dueList_sublist_allDue cfg (inv.active_prioClass_lt busy)).subset
    (by rw [(inv.active_head busy).2]; exact List.mem_cons_self _ _)

/-- The active task is never suspended. -/
theorem active_not_mem_suspended : k.pActiveTask ∉ k.suspendedList := by
  intro mem
  by_cases busy : k.pActiveTask = cfg.idleTaskId
  · exact inv.idle_not_mem_suspended (busy ▸ mem)
  · exact List.disjoint_of_nodup_append inv.nodup mem (inv.active_mem_allDue busy)

/-- The active task is the head of the highest class with a due task, or the idle task when no
    task is due. -/
theorem selection :
    (∃ c < cfg.noPrioClasses, 0 < k.noDueTasksAry c ∧
        (∀ c', c < c' → c' < cfg.noPrioClasses → k.noDueTasksAry c' = 0) ∧ k.pActiveTask = k.pDueTaskAryAry c 0) ∨
      ((∀ c < cfg.noPrioClasses, k.noDueTasksAry c = 0) ∧ k.pActiveTask = cfg.idleTaskId) := by
  have act := inv.active
  unfold activeOf at act
  split at act
  · next c found =>
    obtain ⟨lt,pos,above⟩ := findDueClass_eq_some.mp found
    exact Or.inl ⟨c,lt,pos,above,act⟩
  · next found => exact Or.inr ⟨findDueClass_eq_none.mp found,act⟩

theorem idle_iff : k.pActiveTask = cfg.idleTaskId ↔ ∀ c < cfg.noPrioClasses, k.noDueTasksAry c = 0 := by
  rcases inv.selection with ⟨c,lt,pos,_,head⟩ | ⟨empty,idle⟩
  · have mem : k.pActiveTask ∈ k.dueList c := by
      rw [head,Kernel.dueList_cons pos]; exact List.mem_cons_self _ _
    have busy : k.pActiveTask ≠ cfg.idleTaskId := fun idle => Nat.lt_irrefl _ (idle ▸ inv.due_lt lt mem)
    exact ⟨fun idle => absurd idle busy,fun empty => absurd (empty c lt) (Nat.pos_iff_ne_zero.mp pos)⟩
  · exact ⟨fun _ => empty,fun _ => idle⟩

/-- No due task belongs to a higher class than the active task. -/
theorem due_le_active {c t : Nat} (lt : c < cfg.noPrioClasses) (mem : t ∈ k.dueList c) :
    c ≤ (k.task k.pActiveTask).prioClass := by
  have pos : 0 < k.noDueTasksAry c := by rw [← Kernel.length_dueList]; exact List.length_pos_of_mem mem
  have busy : k.pActiveTask ≠ cfg.idleTaskId := fun idle => by have := inv.idle_iff.mp idle c lt; omega
  obtain ⟨_,_,above⟩ := findDueClass_eq_some.mp (inv.active_head busy).1
  by_contra higher
  have := above c (by omega) lt
  omega

theorem busy_of_sliceExpires (expires : sliceExpires (k.task k.pActiveTask)) : k.pActiveTask ≠ cfg.idleTaskId := by
  intro idle
  have pos := expires.1
  rw [idle,inv.idleSlice] at pos
  exact absurd pos (by simp)

theorem setTask {i : Nat} {t : Task w} (cls : t.prioClass = (k.task i).prioClass)
    (slice : t.cntRoundRobin = (k.task i).cntRoundRobin) : SchedInv cfg (k.setTask i t) :=
  { inv.toListsInv.setTask cls slice with active := inv.active }

theorem mapTasks {l : List Nat} {f : Task w → Task w} (cls : ∀ t, (f t).prioClass = t.prioClass)
    (idleOut : cfg.idleTaskId ∉ l) : SchedInv cfg (k.mapTasks l f) :=
  { inv.toListsInv.mapTasks cls idleOut with active := inv.active }

theorem setTime (time : BitVec w) : SchedInv cfg { k with time := time } :=
  ⟨⟨inv.perm,inv.dueClass,inv.prioLt,inv.classFit,inv.idleSlice⟩,inv.active⟩

/-- Handing over the return code keeps the invariant. -/
theorem retCode : SchedInv cfg (retCodeOfContextSwitch k).1 := by
  simp only [retCodeOfContextSwitch]
  split
  · exact inv.setTask rfl rfl
  · exact inv

/-- The round-robin phase keeps the lists and the active task. It asks for a new selection only
    after rolling a class that has another due task; otherwise the selection still holds. -/
theorem roundRobin_inv : ∃ k' rolled, roundRobin cfg k = some (k',rolled) ∧ ListsInv cfg k' ∧
    k'.pActiveTask = k.pActiveTask ∧ (rolled = false → k'.pActiveTask = activeOf cfg k') ∧
    (rolled = true → ∃ c < cfg.noPrioClasses, 0 < k'.noDueTasksAry c) ∧
    k'.taskAry = Function.update k.taskAry k.pActiveTask
      { k.task k.pActiveTask with cntRoundRobin := sliceCount (k.task k.pActiveTask) } ∧
    (∀ c, k'.dueList c = if (sliceExpires (k.task k.pActiveTask) ∧
        1 < k.noDueTasksAry (k.task k.pActiveTask).prioClass) ∧ c = (k.task k.pActiveTask).prioClass then
      (k.dueList c).tail ++ [k.pActiveTask] else k.dueList c) ∧
    k'.suspendedList = k.suspendedList ∧ k'.time = k.time := by
  have head := fun expires => inv.active_head (inv.busy_of_sliceExpires expires)
  have lt := fun expires => inv.active_prioClass_lt (inv.busy_of_sliceExpires expires)
  obtain ⟨k',result,ary,due,noDue,susp,time',active',_⟩ := roundRobin_spec cfg k rfl rfl lt
    (fun expires => by have := inv.dueFit (lt expires); omega)
  have dueP : ∀ c, (k'.dueList c).Perm (k.dueList c) := fun c => by
    rw [due c]
    split
    · next rolls =>
      rw [rolls.2]
      conv => right; rw [(head rolls.1.1).2]
      exact List.perm_append_singleton _ _
    · exact List.Perm.refl _
  have idle : (k'.task cfg.idleTaskId).cntRoundRobin = 0 := by
    by_cases busy : cfg.idleTaskId = k.pActiveTask
    · have slice : (k.task k.pActiveTask).cntRoundRobin = 0 := busy ▸ inv.idleSlice
      rw [Kernel.task,ary,busy,Function.update_same]
      simp [sliceCount,slice]
    · rw [task_of_update_other ary busy]; exact inv.idleSlice
  refine ⟨k',_,result,inv.of_classes (prioClass_of_update ary rfl) ?_
    (fun c lt t mem => inv.dueClass c lt t ((dueP c).subset mem)) idle,active',?_,?_,ary,due,susp,time'⟩
  · rw [susp]; exact ((allDue_perm cfg dueP).append_left _).trans inv.perm
  · intro quiet
    have same : ∀ c, k'.dueList c = k.dueList c := fun c => by
      rw [due c,if_neg (fun rolls => by simp [rolls.1] at quiet)]
    rw [activeOf_congr cfg same,active',inv.active]
  · intro rolled
    obtain ⟨expires,more⟩ := of_decide_eq_true rolled
    exact ⟨_,lt expires,by rw [noDue]; omega⟩

/-- `waitForEvent` from a non-idle active task keeps the invariant and switches away from the
    calling task, which it records as the left one. -/
theorem waitForEvent_inv (busy : k.pActiveTask ≠ cfg.idleTaskId) (eventMask : BitVec 16) (all : Bool)
    (timeout : BitVec w) : ∃ k', waitForEvent cfg eventMask all timeout k = some (k',true) ∧ SchedInv cfg k' ∧
      k'.pActiveTask ≠ k.pActiveTask ∧ k'.pSuspendedTask = k.pActiveTask ∧
      k'.suspendedList = k.suspendedList ++ [k.pActiveTask] ∧
      (∀ c, k'.dueList c = if c = (k.task k.pActiveTask).prioClass then (k.dueList c).tail else k.dueList c) ∧
      k'.taskAry = Function.update k.taskAry k.pActiveTask
        (storeResumeCondition cfg k.time (k.task k.pActiveTask) eventMask all timeout) ∧ k'.time = k.time := by
  obtain ⟨_,head⟩ := inv.active_head busy
  have lt := inv.active_prioClass_lt busy
  have pos : 0 < k.noDueTasksAry (k.task k.pActiveTask).prioClass := by
    rw [← Kernel.length_dueList,head]; exact Nat.succ_pos _
  have room : k.noSuspendedTasks < cfg.noTasks := by
    have total := inv.perm.length_eq
    have due := List.length_pos_of_mem (inv.active_mem_allDue busy)
    simp only [List.length_append,List.length_range,Kernel.length_suspendedList] at total
    omega
  obtain ⟨k',result,susp,due,ary,time',left',active'⟩ := waitForEvent_spec cfg k rfl rfl eventMask all timeout lt pos
    (by have := inv.dueFit lt; omega) room (fun c lt => by have := inv.dueFit lt; omega)
  have split : (allDue cfg k).Perm (allDue cfg k' ++ [k.pActiveTask]) := by
    have parts : ∀ c, (k.dueList c).Perm
        (k'.dueList c ++ if c = (k.task k.pActiveTask).prioClass then [k.pActiveTask] else []) := fun c => by
      rw [due c]
      split
      · next same => rw [same,head]; exact (List.perm_append_singleton _ _).symm
      · simp
    refine (List.Perm.flatMap_left _ (fun c _ => parts c)).trans ((List.flatMap_append_perm _ _ _).symm.trans ?_)
    rw [flatMap_single lt]
    exact List.Perm.refl _
  have lists : ListsInv cfg k' := inv.of_classes (prioClass_of_update ary (storeResumeCondition_prioClass _ _ _ _ _ _))
    (by
      rw [susp,List.append_assoc]
      exact ((List.perm_append_comm.trans split.symm).append_left _).trans inv.perm)
    (fun c lt t mem => by
      rw [due c] at mem
      split at mem
      · next same => exact inv.dueClass c lt t (List.mem_of_mem_tail mem)
      · exact inv.dueClass c lt t mem)
    (by rw [task_of_update_other ary (Ne.symm busy)]; exact inv.idleSlice)
  have inv' : SchedInv cfg k' := { lists with active := active' }
  refine ⟨k',result,inv',fun same => inv'.active_not_mem_suspended ?_,left',susp,due,ary,time'⟩
  rw [same,susp]
  exact List.mem_append_right _ (List.mem_singleton_self _)

end SchedInv

/-- What the timer and round-robin phases of a tick do to the data: the time advances, every
    suspended task's timers run and, with round robin, the active task's slice is counted and its
    class rolled when the slice expires while another task of the class is due. -/
def Ticked (k k2 : Kernel w) : Prop :=
  k2.time = k.time + 1 ∧ k2.suspendedList = k.suspendedList ∧
    (∀ i, k2.task i = if i ∈ k.suspendedList then ticTask cfg (k.time + 1) (k.task i)
      else if cfg.roundRobinModeSupported ∧ i = k.pActiveTask then
        { k.task i with cntRoundRobin := sliceCount (k.task i) }
      else k.task i) ∧
    ∀ c, k2.dueList c = if cfg.roundRobinModeSupported ∧ (sliceExpires (k.task k.pActiveTask) ∧
        1 < k.noDueTasksAry (k.task k.pActiveTask).prioClass) ∧ c = (k.task k.pActiveTask).prioClass then
      (k.dueList c).tail ++ [k.pActiveTask] else k.dueList c

/-- `onTimerTic` keeps the invariant: the timer and round-robin phases, then the release scan. -/
theorem onTimerTic_inv {k : Kernel w} (inv : SchedInv cfg k) :
    ∃ k' switch, onTimerTic cfg k = some (k',switch) ∧ EntryExit cfg k k' switch ∧
      ∃ k2, ListsInv cfg k2 ∧ Ticked cfg k k2 ∧ Released cfg k2 k' := by
  have inv1 := inv.setTime (k.time + 1)
  have inv2 : SchedInv cfg ({ k with time := k.time + 1 }.mapTasks k.suspendedList (ticTask cfg (k.time + 1))) :=
    inv1.mapTasks (ticTask_prioClass cfg (k.time + 1)) inv1.idle_not_mem_suspended
  have run : onTimerTic cfg k =
      (if cfg.roundRobinModeSupported then roundRobin cfg ({ k with time := k.time + 1 }.mapTasks k.suspendedList
        (ticTask cfg (k.time + 1))) else pure ({ k with time := k.time + 1 }.mapTasks k.suspendedList
        (ticTask cfg (k.time + 1)),false)).bind (fun y => checkForTaskActivation cfg y.1 y.2) := by
    simp only [onTimerTic,Option.bind_eq_bind,forEachSuspended_all cfg _ _ inv1.noSuspendedTasks_le inv1.suspended_nodup,
      Option.some_bind]
    split <;> rfl
  have ticked2 : ({ k with time := k.time + 1 }.mapTasks k.suspendedList (ticTask cfg (k.time + 1))).time = k.time + 1 ∧
      ({ k with time := k.time + 1 }.mapTasks k.suspendedList (ticTask cfg (k.time + 1))).suspendedList =
        k.suspendedList ∧
      (∀ c, ({ k with time := k.time + 1 }.mapTasks k.suspendedList (ticTask cfg (k.time + 1))).dueList c =
        k.dueList c) ∧
      ({ k with time := k.time + 1 }.mapTasks k.suspendedList (ticTask cfg (k.time + 1))).pActiveTask = k.pActiveTask ∧
      ({ k with time := k.time + 1 }.mapTasks k.suspendedList (ticTask cfg (k.time + 1))).noDueTasksAry =
        k.noDueTasksAry ∧
      ∀ i, ({ k with time := k.time + 1 }.mapTasks k.suspendedList (ticTask cfg (k.time + 1))).task i =
        if i ∈ k.suspendedList then ticTask cfg (k.time + 1) (k.task i) else k.task i :=
    ⟨rfl,rfl,fun _ => rfl,rfl,rfl,fun _ => rfl⟩
  generalize ({ k with time := k.time + 1 }.mapTasks k.suspendedList (ticTask cfg (k.time + 1))) = k2 at inv2 run ticked2
  obtain ⟨time2,susp2,due2,active2,noDue2,task2⟩ := ticked2
  have idle2 : k2.task k.pActiveTask = k.task k.pActiveTask := by rw [task2,if_neg inv.active_not_mem_suspended]
  obtain ⟨k3,hint,phase,lists3,active3,settled,hinted,ticked⟩ : ∃ k3 hint,
      (if cfg.roundRobinModeSupported then roundRobin cfg k2 else pure (k2,false)) = some (k3,hint) ∧
      ListsInv cfg k3 ∧ k3.pActiveTask = k.pActiveTask ∧ (hint = false → k3.pActiveTask = activeOf cfg k3) ∧
      (hint = true → ∃ c < cfg.noPrioClasses, 0 < k3.noDueTasksAry c) ∧ Ticked cfg k k3 := by
    split
    · next rr =>
      obtain ⟨k3,rolled,result,lists,active3,settled,hinted,ary,due,susp,time3⟩ := inv2.roundRobin_inv
      refine ⟨k3,rolled,result,lists,active3.trans active2,settled,hinted,by rw [time3,time2],
        by rw [susp,susp2],fun i => ?_,fun c => ?_⟩
      · by_cases active : i = k.pActiveTask
        · subst active
          have slice : k3.task k.pActiveTask =
              { k.task k.pActiveTask with cntRoundRobin := sliceCount (k.task k.pActiveTask) } := by
            show k3.taskAry _ = _
            rw [ary,active2,Function.update_same,idle2]
          rw [slice,if_neg inv.active_not_mem_suspended,if_pos ⟨rr,rfl⟩]
        · rw [task_of_update_other ary (active2 ▸ active),task2]
          simp [active]
      · rw [due,active2,idle2,noDue2,due2]
        simp [rr]
    · next rr =>
      refine ⟨k2,false,rfl,inv2.toListsInv,active2,fun _ => inv2.active,fun h => absurd h (by simp),time2,susp2,
        fun i => by rw [task2]; simp [rr],fun c => by rw [due2]; simp [rr]⟩
  obtain ⟨k',switch,check,⟨inv',change,left⟩,released⟩ := checkForTaskActivation_inv cfg lists3 hint settled hinted
  rw [active3] at change left
  exact ⟨k',switch,by rw [run,phase]; exact check,⟨inv',change,left⟩,k3,lists3,ticked,released⟩

/-- `setEvent` keeps the invariant: the events are posted to the suspended tasks, then the release
    scan runs. -/
theorem setEvent_inv {k : Kernel w} (inv : SchedInv cfg k) (eventVec : BitVec 16) :
    ∃ k' switch, setEvent cfg eventVec k = some (k',switch) ∧ EntryExit cfg k k' switch ∧
      Released cfg (k.mapTasks k.suspendedList (postEvents (eventVec &&& ~~~cfg.timerEvtMask))) k' := by
  have inv1 := inv.mapTasks (postEvents_prioClass (eventVec &&& ~~~cfg.timerEvtMask)) inv.idle_not_mem_suspended
  obtain ⟨k',switch,check,exit,released⟩ := checkForTaskActivation_inv cfg inv1.toListsInv false
    (fun _ => inv1.active) (fun h => absurd h (by simp))
  refine ⟨k',switch,?_,exit,released⟩
  simp only [setEvent,Option.bind_eq_bind,forEachSuspended_all cfg _ _ inv.noSuspendedTasks_le inv.suspended_nodup,
    Option.some_bind]
  exact check

/-- The entries the application may make: the idle task must not suspend. -/
def Action.allowed (k : Kernel w) : Action w → Prop
  | .waitForEvent .. => k.pActiveTask ≠ cfg.idleTaskId
  | _ => True

/-- From the invariant, every allowed entry's logic runs to its end within the arrays and leaves
    the invariant, switching exactly when the active task changes. -/
theorem logic_inv {k : Kernel w} (inv : SchedInv cfg k) (a : Action w) (allowed : a.allowed cfg k) :
    ∃ k' switch, a.logic cfg k = some (k',switch) ∧ EntryExit cfg k k' switch := by
  cases a with
  | timerTic => obtain ⟨k',switch,result,exit,_⟩ := onTimerTic_inv cfg inv; exact ⟨k',switch,result,exit⟩
  | setEvent eventVec => obtain ⟨k',switch,result,exit,_⟩ := setEvent_inv cfg inv eventVec; exact ⟨k',switch,result,exit⟩
  | waitForEvent eventMask all timeout =>
    obtain ⟨k',result,inv',change,left,_⟩ := inv.waitForEvent_inv allowed eventMask all timeout
    exact ⟨k',true,by simp only [Action.logic,if_neg allowed,result],inv',by simp [change],fun _ => left⟩

theorem logic_eq_none {k : Kernel w} {a : Action w} (forbidden : ¬ a.allowed cfg k) : a.logic cfg k = none := by
  cases a with
  | waitForEvent => simp only [Action.allowed,not_not] at forbidden; simp [Action.logic,forbidden]
  | _ => exact absurd trivial forbidden

theorem step_inv {k k' : Kernel w} (inv : SchedInv cfg k) {a : Action w} (stepped : step cfg a k = some k') :
    SchedInv cfg k' := by
  by_cases allowed : a.allowed cfg k
  · obtain ⟨k1,switch,result,inv1,_⟩ := logic_inv cfg inv a allowed
    simp only [step,result,Option.bind_eq_bind,Option.some_bind,Option.pure_def,Option.some.injEq] at stepped
    subst stepped
    split
    · exact inv1.retCode
    · exact inv1
  · simp [step,logic_eq_none cfg allowed] at stepped

/-- Whatever entry the logic completes leaves the invariant and switches exactly when the active
    task changes. -/
theorem logic_exit {k k' : Kernel w} (inv : SchedInv cfg k) {a : Action w} {switch : Bool}
    (result : a.logic cfg k = some (k',switch)) : EntryExit cfg k k' switch := by
  by_cases allowed : a.allowed cfg k
  · obtain ⟨k1,switch1,result1,exit⟩ := logic_inv cfg inv a allowed
    rw [result1,Option.some.injEq,Prod.mk.injEq] at result
    obtain ⟨rfl,rfl⟩ := result
    exact exit
  · rw [logic_eq_none cfg allowed] at result; cases result

/-- `rtos_waitForEvent` always switches away from its caller. -/
theorem logic_waitForEvent_switch {k k' : Kernel w} (inv : SchedInv cfg k) {eventMask : BitVec 16} {all : Bool}
    {timeout : BitVec w} {switch : Bool} (result : (Action.waitForEvent eventMask all timeout).logic cfg k = some (k',switch)) :
    switch = true := by
  by_cases idle : k.pActiveTask = cfg.idleTaskId
  · simp [Action.logic,idle] at result
  · obtain ⟨k1,result1,_⟩ := inv.waitForEvent_inv idle eventMask all timeout
    simp only [Action.logic,if_neg idle,result1,Option.some.injEq,Prod.mk.injEq] at result
    exact result.2.symm

/-- What the logic of an entry did, entry by entry: the invariant and the switch as
    `EntryExit` says, and the effect on the data. -/
theorem logic_cases {k k1 : Kernel w} (inv : SchedInv cfg k) {a : Action w} {switch : Bool}
    (result : a.logic cfg k = some (k1,switch)) :
    EntryExit cfg k k1 switch ∧
      ((a = .timerTic ∧ ∃ k2, ListsInv cfg k2 ∧ Ticked cfg k k2 ∧ Released cfg k2 k1) ∨
        (∃ eventVec, a = .setEvent eventVec ∧
          Released cfg (k.mapTasks k.suspendedList (postEvents (eventVec &&& ~~~cfg.timerEvtMask))) k1) ∨
        (∃ eventMask all timeout, a = .waitForEvent eventMask all timeout ∧ k.pActiveTask ≠ cfg.idleTaskId ∧
          k1.suspendedList = k.suspendedList ++ [k.pActiveTask] ∧
          (∀ c, k1.dueList c = if c = (k.task k.pActiveTask).prioClass then (k.dueList c).tail else k.dueList c) ∧
          k1.taskAry = Function.update k.taskAry k.pActiveTask
            (storeResumeCondition cfg k.time (k.task k.pActiveTask) eventMask all timeout) ∧ k1.time = k.time)) := by
  have same : ∀ {k1' switch'}, a.logic cfg k = some (k1',switch') → k1' = k1 ∧ switch' = switch := fun other => by
    rw [result,Option.some.injEq,Prod.mk.injEq] at other
    exact ⟨other.1.symm,other.2.symm⟩
  cases a with
  | timerTic =>
    obtain ⟨k1',switch',result',exit,effect⟩ := onTimerTic_inv cfg inv
    obtain ⟨rfl,rfl⟩ := same result'
    exact ⟨exit,.inl ⟨rfl,effect⟩⟩
  | setEvent eventVec =>
    obtain ⟨k1',switch',result',exit,effect⟩ := setEvent_inv cfg inv eventVec
    obtain ⟨rfl,rfl⟩ := same result'
    exact ⟨exit,.inr (.inl ⟨eventVec,rfl,effect⟩)⟩
  | waitForEvent eventMask all timeout =>
    by_cases idle : k.pActiveTask = cfg.idleTaskId
    · simp [Action.logic,idle] at result
    · obtain ⟨k1',result',inv1,change,left,effect⟩ := inv.waitForEvent_inv idle eventMask all timeout
      have logic : (Action.waitForEvent eventMask all timeout).logic cfg k = some (k1',true) := by
        simp only [Action.logic,if_neg idle,result']
      obtain ⟨rfl,rfl⟩ := same logic
      exact ⟨⟨inv1,by simp [change],fun _ => left⟩,.inr (.inr ⟨_,_,_,rfl,idle,effect⟩)⟩

/-- What a completed kernel entry did, entry by entry: the logic's effect on the data, then on a
    switch the return code handed over. -/
theorem step_cases {k k' : Kernel w} (inv : SchedInv cfg k) {a : Action w} (stepped : step cfg a k = some k') :
    ∃ k1 switch, EntryExit cfg k k1 switch ∧ k' = (if switch then (retCodeOfContextSwitch k1).1 else k1) ∧
      ((a = .timerTic ∧ ∃ k2, ListsInv cfg k2 ∧ Ticked cfg k k2 ∧ Released cfg k2 k1) ∨
        (∃ eventVec, a = .setEvent eventVec ∧
          Released cfg (k.mapTasks k.suspendedList (postEvents (eventVec &&& ~~~cfg.timerEvtMask))) k1) ∨
        (∃ eventMask all timeout, a = .waitForEvent eventMask all timeout ∧ k.pActiveTask ≠ cfg.idleTaskId ∧
          k1.suspendedList = k.suspendedList ++ [k.pActiveTask] ∧
          (∀ c, k1.dueList c = if c = (k.task k.pActiveTask).prioClass then (k.dueList c).tail else k.dueList c) ∧
          k1.taskAry = Function.update k.taskAry k.pActiveTask
            (storeResumeCondition cfg k.time (k.task k.pActiveTask) eventMask all timeout) ∧ k1.time = k.time)) := by
  simp only [step,Option.bind_eq_bind,Option.bind_eq_some,Option.pure_def,Option.some.injEq] at stepped
  obtain ⟨⟨k1,switch⟩,result,rfl⟩ := stepped
  obtain ⟨exit,effect⟩ := logic_cases cfg inv result
  exact ⟨k1,switch,exit,rfl,effect⟩

end RTuinOS
