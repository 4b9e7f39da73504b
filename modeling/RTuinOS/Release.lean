import RTuinOS.Kernel

/-!
The release scan of `checkForTaskActivation` is a stable partition of the suspended list: the
loop steps over a task that stays suspended, and erases a released one in place and appends it
to the due list of its class, so that after as many iterations as there were suspended tasks the
suspended list is the kept tasks and each due list has gained the released tasks of its class,
both in their old order (`releaseLoop_spec`).
-/
namespace RTuinOS
variable {w : Nat} (cfg : Config)

/-- The tasks of `l` that the release condition frees, in order. -/
def releasedOf (k : Kernel w) (l : List Nat) : List Nat := l.filter (fun t => isReleased cfg (k.task t))

/-- The tasks of `l` that stay suspended, in order. -/
def keptOf (k : Kernel w) (l : List Nat) : List Nat := l.filter (fun t => !isReleased cfg (k.task t))

/-- The tasks of `l` in priority class `c`, in order. -/
def inClass (k : Kernel w) (c : Nat) (l : List Nat) : List Nat :=
  l.filter (fun t => decide ((k.task t).prioClass = c))

@[simp] theorem releaseTask_prioClass (t : Task w) : (releaseTask cfg t).prioClass = t.prioClass := rfl

section Lists
variable {cfg} {k k' : Kernel w}

theorem releasedOf_congr {l : List Nat} (same : ∀ t ∈ l, k'.task t = k.task t) :
    releasedOf cfg k' l = releasedOf cfg k l :=
  List.filter_congr (fun t mem => by rw [same t mem])

theorem keptOf_congr {l : List Nat} (same : ∀ t ∈ l, k'.task t = k.task t) :
    keptOf cfg k' l = keptOf cfg k l :=
  List.filter_congr (fun t mem => by rw [same t mem])

theorem inClass_congr {c : Nat} {l : List Nat}
    (same : ∀ t ∈ l, (k'.task t).prioClass = (k.task t).prioClass) : inClass k' c l = inClass k c l :=
  List.filter_congr (fun t mem => by rw [same t mem])

theorem releasedOf_cons {t : Nat} {l : List Nat} :
    releasedOf cfg k (t :: l) = if isReleased cfg (k.task t) then t :: releasedOf cfg k l else releasedOf cfg k l := by
  by_cases h : isReleased cfg (k.task t) <;> simp [releasedOf,List.filter_cons,h]

theorem keptOf_cons {t : Nat} {l : List Nat} :
    keptOf cfg k (t :: l) = if isReleased cfg (k.task t) then keptOf cfg k l else t :: keptOf cfg k l := by
  by_cases h : isReleased cfg (k.task t) <;> simp [keptOf,List.filter_cons,h]

theorem inClass_cons {c t : Nat} {l : List Nat} :
    inClass k c (t :: l) = if (k.task t).prioClass = c then t :: inClass k c l else inClass k c l := by
  by_cases h : (k.task t).prioClass = c <;> simp [inClass,List.filter_cons,h]

theorem take_eraseIdx {l : List Nat} {i : Nat} (inside : i < l.length) : (l.eraseIdx i).take i = l.take i := by
  rw [List.eraseIdx_eq_take_drop_succ,List.take_append_of_le_length (by simp; omega)]
  simp

theorem drop_eraseIdx {l : List Nat} {i : Nat} (inside : i < l.length) :
    (l.eraseIdx i).drop i = l.drop (i+1) := by
  rw [List.eraseIdx_eq_take_drop_succ,List.drop_append_of_le_length (by simp; omega)]
  simp [Nat.min_eq_left (Nat.le_of_lt inside)]

end Lists

section Iteration
variable {cfg} {fuel idx pT : Nat} {k : Kernel w} {isNew : Bool}

/-- An iteration that meets a task staying suspended only advances the index. -/
theorem releaseLoop_stay (inside : idx < k.noSuspendedTasks) (room : k.noSuspendedTasks ≤ cfg.noTasks)
    (at_idx : k.pSuspendedTaskAry idx = pT) (stays : isReleased cfg (k.task pT) = false) :
    releaseLoop cfg (fuel+1) k idx isNew = releaseLoop cfg fuel k (idx+1) isNew := by
  simp [releaseLoop,inside,readAry_of_lt (show idx < cfg.noTasks by omega),at_idx,stays]

/-- An iteration that releases a task erases it from the suspended list and appends it to the due
    list of its class. -/
theorem releaseLoop_release (inside : idx < k.noSuspendedTasks) (room : k.noSuspendedTasks ≤ cfg.noTasks)
    (at_idx : k.pSuspendedTaskAry idx = pT) (released : isReleased cfg (k.task pT) = true)
    (prioLt : (k.task pT).prioClass < cfg.noPrioClasses)
    (dueRoom : k.noDueTasksAry (k.task pT).prioClass < cfg.maxNoTasksInPrioClass)
    (dueSmall : k.noDueTasksAry (k.task pT).prioClass < 255) :
    ∃ k1, releaseLoop cfg (fuel+1) k idx isNew = releaseLoop cfg fuel k1 idx true ∧
      k1.suspendedList = k.suspendedList.eraseIdx idx ∧
      (∀ c, k1.dueList c = k.dueList c ++ if (k.task pT).prioClass = c then [pT] else []) ∧
      (∀ i, k1.task i = if i = pT then releaseTask cfg (k.task pT) else k.task i) ∧
      k1.time = k.time ∧ k1.pActiveTask = k.pActiveTask ∧ k1.pSuspendedTask = k.pSuspendedTask := by
  have small : k.noSuspendedTasks < 256 := by have := cfg.noTasks_lt; omega
  obtain ⟨suspended,compacted,view⟩ :=
    aryList_shiftDown inside room k.pSuspendedTaskAry
  let prio := (k.task pT).prioClass
  refine ⟨{ k.setTask pT (releaseTask cfg (k.task pT)) with
      pDueTaskAryAry := Function.update k.pDueTaskAryAry prio
        (Function.update (k.pDueTaskAryAry prio) (k.noDueTasksAry prio) pT)
      noDueTasksAry := Function.update k.noDueTasksAry prio (k.noDueTasksAry prio + 1)
      pSuspendedTaskAry := suspended
      noSuspendedTasks := k.noSuspendedTasks - 1 },?_,?_,?_,?_,rfl,rfl,rfl⟩
  · simp only [releaseLoop,inside,if_true,readAry_of_lt (show idx < cfg.noTasks by omega),at_idx,
      released,readAry_of_lt prioLt,writeAry_of_lt dueRoom,decU8_of_pos (by omega) small,
      incU8_of_lt dueSmall,Option.bind_eq_bind,Option.some_bind,compacted]
  · simpa [Kernel.suspendedList] using view
  · intro c
    by_cases same : (k.task pT).prioClass = c
    · subst c
      simp [Kernel.dueList,incU8_of_lt dueSmall,aryList_update_count]
    · simp [Kernel.dueList,same,Function.update_noteq (Ne.symm same)]
  · intro i
    by_cases same : i = pT
    · subst i; simp [Kernel.task,Kernel.setTask]
    · simp [Kernel.task,Kernel.setTask,same]

/-- Past the end of the suspended list the loop stops. -/
theorem releaseLoop_done (past : k.noSuspendedTasks ≤ idx) : releaseLoop cfg fuel k idx isNew = some (k,isNew) := by
  cases fuel <;> simp [releaseLoop,Nat.not_lt.mpr past]

end Iteration

/-- The release loop from `idx` on, given enough fuel, room in the due lists and distinct tasks,
    releases exactly the tasks of the rest of the suspended list that satisfy the release
    condition: they leave the suspended list and join the due lists of their classes, both in
    order, and only their descriptors change. -/
theorem releaseLoop_spec (fuel : Nat) (k : Kernel w) (idx : Nat) (isNew : Bool)
    (start : idx ≤ k.noSuspendedTasks) (enough : k.noSuspendedTasks - idx ≤ fuel)
    (room : k.noSuspendedTasks ≤ cfg.noTasks) (distinct : (k.suspendedList.drop idx).Nodup)
    (prioLt : ∀ t ∈ releasedOf cfg k (k.suspendedList.drop idx), (k.task t).prioClass < cfg.noPrioClasses)
    (dueRoom : ∀ t ∈ releasedOf cfg k (k.suspendedList.drop idx),
      k.noDueTasksAry (k.task t).prioClass +
        (inClass k (k.task t).prioClass (releasedOf cfg k (k.suspendedList.drop idx))).length ≤
          min cfg.maxNoTasksInPrioClass 255) :
    ∃ k', releaseLoop cfg fuel k idx isNew =
        some (k',isNew || !(releasedOf cfg k (k.suspendedList.drop idx)).isEmpty) ∧
      k'.suspendedList = k.suspendedList.take idx ++ keptOf cfg k (k.suspendedList.drop idx) ∧
      (∀ c, k'.dueList c = k.dueList c ++ inClass k c (releasedOf cfg k (k.suspendedList.drop idx))) ∧
      (∀ i, k'.task i = if i ∈ releasedOf cfg k (k.suspendedList.drop idx) then releaseTask cfg (k.task i)
        else k.task i) ∧
      k'.time = k.time ∧ k'.pActiveTask = k.pActiveTask ∧ k'.pSuspendedTask = k.pSuspendedTask := by
  generalize rest : k.suspendedList.drop idx = l at distinct prioLt dueRoom ⊢
  induction l generalizing fuel k idx isNew with
  | nil =>
    have past : k.noSuspendedTasks ≤ idx := by simpa [Kernel.suspendedList] using rest
    refine ⟨k,by simpa [releasedOf] using releaseLoop_done past,?_,?_,?_,rfl,rfl,rfl⟩
    · rw [List.take_of_length_le (by simp [Kernel.suspendedList]; omega)]; simp [keptOf]
    · simp [releasedOf,inClass]
    · simp [releasedOf]
  | cons pT l ih =>
    have length : idx < k.suspendedList.length := by
      by_contra past
      rw [List.drop_of_length_le (Nat.not_lt.mp past)] at rest
      cases rest
    have inside : idx < k.noSuspendedTasks := by simpa [Kernel.suspendedList] using length
    obtain ⟨fuel,rfl⟩ : ∃ f, fuel = f + 1 := ⟨fuel - 1,by omega⟩
    rw [List.drop_eq_getElem_cons length] at rest
    obtain ⟨head,tail⟩ := List.cons.inj rest
    have at_idx : k.pSuspendedTaskAry idx = pT := by simpa [Kernel.suspendedList] using head
    obtain ⟨fresh,distinct⟩ := List.nodup_cons.mp distinct
    cases released : isReleased cfg (k.task pT)
    · rw [releaseLoop_stay inside room at_idx released]
      simp only [releasedOf_cons,keptOf_cons,released,Bool.false_eq_true,if_false] at prioLt dueRoom ⊢
      obtain ⟨k',run,susp,due,tasks,frame⟩ := ih fuel k (idx+1) isNew inside (by omega) room tail distinct prioLt dueRoom
      refine ⟨k',run,?_,due,tasks,frame⟩
      rw [susp,List.take_succ,List.getElem?_eq_getElem length,head]
      simp
    · simp only [releasedOf_cons,keptOf_cons,released,if_true] at prioLt dueRoom ⊢
      have room1 := dueRoom pT (List.mem_cons_self _ _)
      simp only [inClass_cons,if_true,List.length_cons] at room1
      obtain ⟨k1,step,susp1,due1,task1,time1,active1,left1⟩ :=
        @releaseLoop_release w cfg fuel idx pT k isNew inside room at_idx released
          (prioLt pT (List.mem_cons_self _ _)) (by omega) (by omega)
      have count1 : k1.noSuspendedTasks = k.noSuspendedTasks - 1 := by
        simpa [List.length_eraseIdx,length,Kernel.suspendedList,inside] using congrArg List.length susp1
      have drop1 : k1.suspendedList.drop idx = l := by rw [susp1,drop_eraseIdx length,tail]
      have same : ∀ t ∈ l, k1.task t = k.task t := fun t mem => by
        rw [task1,if_neg (fun (eq : t = pT) => fresh (eq ▸ mem))]
      have sameClass : ∀ t, (k1.task t).prioClass = (k.task t).prioClass := fun t => by
        by_cases is : t = pT <;> simp [task1,is]
      have noDue1 : ∀ c, k1.noDueTasksAry c = k.noDueTasksAry c + if (k.task pT).prioClass = c then 1 else 0 := by
        intro c
        have lengths := congrArg List.length (due1 c)
        simp only [Kernel.dueList,aryList_length,List.length_append] at lengths
        rw [lengths]; split <;> simp
      have released1 : releasedOf cfg k1 l = releasedOf cfg k l := releasedOf_congr same
      have class1 : ∀ c l, inClass k1 c l = inClass k c l := fun c l => inClass_congr (fun t _ => sameClass t)
      have notLater : pT ∉ releasedOf cfg k l := fun mem => fresh (List.mem_of_mem_filter mem)
      obtain ⟨k',run,susp,due,tasks,time',active',left'⟩ := ih fuel k1 idx true
        (by omega) (by omega) (by omega) drop1 distinct
        (by rw [released1]; intro t mem; rw [sameClass]; exact prioLt t (List.mem_cons_of_mem _ mem))
        (by
          rw [released1]; intro t mem
          have bound := dueRoom t (List.mem_cons_of_mem _ mem)
          rw [sameClass,noDue1,class1]
          by_cases same : (k.task pT).prioClass = (k.task t).prioClass <;>
            simp only [inClass_cons,same,if_true,if_false,List.length_cons] at bound ⊢ <;> omega)
      rw [step]
      refine ⟨k',by simpa [released1] using run,?_,?_,?_,by rw [time',time1],by rw [active',active1],
        by rw [left',left1]⟩
      · rw [susp,keptOf_congr same,susp1,take_eraseIdx length]
      · intro c
        rw [due,due1,released1,class1,inClass_cons]
        split <;> simp
      · intro i
        rw [tasks,released1,task1]
        by_cases same : i = pT
        · subst i; simp [notLater]
        · simp [same]

/-- The task the scheduler should run: the head of the highest class with a due task, or else
    the idle task. -/
def activeOf (k : Kernel w) : Nat :=
  match findDueClass k.noDueTasksAry cfg.noPrioClasses with
  | some c => k.pDueTaskAryAry c 0
  | none => cfg.idleTaskId

theorem findDueClass_eq_some {noDue : Nat → Nat} {n c : Nat} :
    findDueClass noDue n = some c ↔ c < n ∧ 0 < noDue c ∧ ∀ c', c < c' → c' < n → noDue c' = 0 := by
  induction n with
  | zero => simp [findDueClass]
  | succ n ih =>
    by_cases top : 0 < noDue n
    · simp only [findDueClass,top,if_true,Option.some.injEq]
      constructor
      · rintro rfl; exact ⟨by omega,top,fun c' _ _ => by omega⟩
      · rintro ⟨_,pos,above⟩
        by_contra other
        have := above n (by omega) (by omega); omega
    · simp only [findDueClass,top,if_false,ih]
      constructor
      · rintro ⟨lt,pos,above⟩
        exact ⟨by omega,pos,fun c' gt lt' => if eq : c' = n then by subst eq; omega else above c' gt (by omega)⟩
      · rintro ⟨lt,pos,above⟩
        have : c ≠ n := fun eq => top (eq ▸ pos)
        exact ⟨by omega,pos,fun c' gt lt' => above c' gt (by omega)⟩

theorem findDueClass_eq_none {noDue : Nat → Nat} {n : Nat} :
    findDueClass noDue n = none ↔ ∀ c < n, noDue c = 0 := by
  induction n with
  | zero => simp [findDueClass]
  | succ n ih =>
    by_cases top : 0 < noDue n
    · simp only [findDueClass,top,if_true]
      simp only [reduceCtorEq,false_iff,not_forall]
      exact ⟨n,by omega,by omega⟩
    · simp only [findDueClass,top,if_false,ih]
      exact ⟨fun below c lt => if eq : c = n then by subst eq; omega else below c (by omega),
        fun below c lt => below c (by omega)⟩

theorem findDueClass_isSome {noDue : Nat → Nat} {n c : Nat} (lt : c < n) (pos : 0 < noDue c) :
    ∃ c', findDueClass noDue n = some c' := by
  cases found : findDueClass noDue n with
  | some c' => exact ⟨c',rfl⟩
  | none => have := findDueClass_eq_none.mp found c lt; omega

/-- `checkForTaskActivation` releases as `releaseLoop_spec` says and then, if a task was released
    or the caller asked for it, makes `activeOf` active and reports whether that is a new task. -/
theorem checkForTaskActivation_spec (k : Kernel w) (hint : Bool)
    (room : k.noSuspendedTasks ≤ cfg.noTasks) (distinct : k.suspendedList.Nodup)
    (prioLt : ∀ t ∈ releasedOf cfg k k.suspendedList, (k.task t).prioClass < cfg.noPrioClasses)
    (dueRoom : ∀ t ∈ releasedOf cfg k k.suspendedList,
      k.noDueTasksAry (k.task t).prioClass + (inClass k (k.task t).prioClass (releasedOf cfg k k.suspendedList)).length ≤
        min cfg.maxNoTasksInPrioClass 255)
    (dueFit : ∀ c < cfg.noPrioClasses, k.noDueTasksAry c ≤ cfg.maxNoTasksInPrioClass)
    (hinted : hint = true → ∃ c < cfg.noPrioClasses, 0 < k.noDueTasksAry c) :
    ∃ k1, k1.suspendedList = keptOf cfg k k.suspendedList ∧
      (∀ c, k1.dueList c = k.dueList c ++ inClass k c (releasedOf cfg k k.suspendedList)) ∧
      (∀ i, k1.task i = if i ∈ releasedOf cfg k k.suspendedList then releaseTask cfg (k.task i) else k.task i) ∧
      k1.time = k.time ∧ k1.pActiveTask = k.pActiveTask ∧ k1.pSuspendedTask = k.pSuspendedTask ∧
      checkForTaskActivation cfg k hint =
        some (if hint || !(releasedOf cfg k k.suspendedList).isEmpty then
            ({ k1 with pSuspendedTask := k.pActiveTask, pActiveTask := activeOf cfg k1 },
              activeOf cfg k1 != k.pActiveTask)
          else (k1,false)) := by
  obtain ⟨k1,loop,susp,due,tasks,time1,active1,left1⟩ :=
    releaseLoop_spec cfg k.noSuspendedTasks k 0 hint (Nat.zero_le _) (by omega) room (by simpa using distinct)
      (by simpa using prioLt) (by simpa using dueRoom)
  simp only [List.drop_zero,List.take_zero,List.nil_append] at loop susp due tasks
  refine ⟨k1,susp,due,tasks,time1,active1,left1,?_⟩
  have noDue1 : ∀ c, k1.noDueTasksAry c = k.noDueTasksAry c + (inClass k c (releasedOf cfg k k.suspendedList)).length :=
    fun c => by simpa [Kernel.length_dueList] using congrArg List.length (due c)
  simp only [checkForTaskActivation,loop,Option.bind_eq_bind,Option.some_bind]
  split
  · next isNew =>
    obtain ⟨c,lt,pos⟩ : ∃ c < cfg.noPrioClasses, 0 < k1.noDueTasksAry c := by
      rcases Bool.or_eq_true_iff.mp isNew with asked | released
      · obtain ⟨c,lt,pos⟩ := hinted asked
        exact ⟨c,lt,by rw [noDue1]; omega⟩
      · obtain ⟨t,mem⟩ := List.exists_mem_of_ne_nil _ (by simpa using released)
        refine ⟨(k.task t).prioClass,prioLt t mem,?_⟩
        rw [noDue1]
        have : t ∈ inClass k (k.task t).prioClass (releasedOf cfg k k.suspendedList) := by
          simp [inClass,mem]
        have := List.length_pos_of_mem this
        omega
    obtain ⟨c',found⟩ := findDueClass_isSome lt pos
    obtain ⟨lt',pos',_⟩ := findDueClass_eq_some.mp found
    have fit : k1.noDueTasksAry c' ≤ cfg.maxNoTasksInPrioClass := by
      rw [noDue1]
      cases emptyClass : inClass k c' (releasedOf cfg k k.suspendedList) with
      | nil => simpa using dueFit c' lt'
      | cons t rest =>
        have mem : t ∈ inClass k c' (releasedOf cfg k k.suspendedList) := by simp [emptyClass]
        obtain ⟨rel,cls⟩ := List.mem_filter.mp mem
        have bound := dueRoom t rel
        rw [of_decide_eq_true cls] at bound
        rw [← emptyClass]; omega
    simp only [found,readAry_of_lt (show 0 < cfg.maxNoTasksInPrioClass by omega),Option.some_bind,
      activeOf,active1,isNew,if_true]
    rfl
  · next notNew => simp [notNew]

end RTuinOS
