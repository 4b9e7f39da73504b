import RTuinOS.Kernel

/-!
The timers of one task. `storeResumeCondition` loads either the delay counter or the absolute due
time, and the timer phase of `onTimerTic` counts them and posts the timer event. The due time is
compared with the system time through the signed difference `(intTime_t)(timeDueAt - _time)`;
read so, the absolute timer keeps its cadence and counts an overrun exactly when the task comes a
period or more late.
-/
namespace RTuinOS
variable {w : Nat} (cfg : Config)

section Signed

/-- The signed reading of `(N - b + a) % N`, for `a` and `b` below half of `N`. -/
theorem signed_sub_eq (N a b : Nat) (ha : 2 * a < N) (hb : 2 * b < N) :
    (if 2 * ((N - b + a) % N) < N then (((N - b + a) % N : Nat) : Int) else ((N - b + a) % N : Nat) - (N : Int)) =
      (a : Int) - b := by
  by_cases le : b ≤ a
  · rw [show N - b + a = (a - b) + N by omega,Nat.add_mod_right,Nat.mod_eq_of_lt (by omega),if_pos (by omega)]
    omega
  · rw [Nat.mod_eq_of_lt (by omega),if_neg (by omega)]
    omega

theorem sub_one_mod (N a : Nat) (pos : 1 ≤ a) (lt : a < N) : (N - 1 + a) % N = a - 1 := by
  rw [show N - 1 + a = (a - 1) + N by omega,Nat.add_mod_right,Nat.mod_eq_of_lt (by omega)]

theorem two_mul_toNat_lt {x : BitVec w} (nonneg : 0 ≤ x.toInt) : 2 * x.toNat < 2^w := by
  rw [BitVec.toInt_eq_toNat_cond] at nonneg
  split at nonneg
  · assumption
  · have := x.isLt; omega

/-- Two non-negative times are subtracted without wrapping. -/
theorem toInt_sub_of_nonneg {x y : BitVec w} (hx : 0 ≤ x.toInt) (hy : 0 ≤ y.toInt) :
    (x - y).toInt = x.toInt - y.toInt := by
  have ax := two_mul_toNat_lt hx
  have ay := two_mul_toNat_lt hy
  rw [BitVec.toInt_eq_toNat_cond (x - y),BitVec.toNat_sub,signed_sub_eq _ _ _ ax ay,
    BitVec.toInt_eq_toNat_cond x,BitVec.toInt_eq_toNat_cond y,if_pos ax,if_pos ay]

theorem toNat_one (pos : 0 < w) : (1 : BitVec w).toNat = 1 := by
  have := Nat.one_lt_two_pow (show w ≠ 0 by omega)
  show (BitVec.ofNat w 1).toNat = 1
  rw [BitVec.toNat_ofNat,Nat.mod_eq_of_lt this]

theorem toInt_one (wide : 2 ≤ w) : (1 : BitVec w).toInt = 1 := by
  have four := Nat.pow_le_pow_right (show 0 < 2 by decide) wide
  rw [BitVec.toInt_eq_toNat_cond,toNat_one (by omega),if_pos (by omega)]
  rfl

theorem toInt_sub_one (wide : 2 ≤ w) {x : BitVec w} (two : 2 ≤ x.toInt) : (x - 1).toInt = x.toInt - 1 := by
  rw [toInt_sub_of_nonneg (by omega) (by rw [toInt_one wide]; omega),toInt_one wide]

theorem eq_one_of_toInt (wide : 2 ≤ w) {x : BitVec w} (one : x.toInt = 1) : x = 1 :=
  BitVec.eq_of_toInt_eq (one.trans (toInt_one wide).symm)

theorem toNat_sub_one {x : BitVec w} (pos : 1 ≤ x.toNat) : (x - 1).toNat = x.toNat - 1 := by
  have lt := x.isLt
  rw [BitVec.toNat_sub,toNat_one (Nat.pos_of_ne_zero (fun zero => by subst zero; simp at lt; omega))]
  exact sub_one_mod _ _ pos lt

end Signed

section Bits
variable {p m x y : BitVec 16}

theorem and_and_or_eq_zero (clean : p &&& m &&& (x ||| y) = 0) : p &&& m &&& x = 0 := by
  ext i
  have bit := congrArg (fun v => v.getLsbD i) clean
  simp only [BitVec.getLsbD_and,BitVec.getLsbD_or,BitVec.ofNat_eq_ofNat,BitVec.getLsbD_zero] at bit ⊢
  revert bit
  cases p.getLsbD i <;> cases m.getLsbD i <;> cases x.getLsbD i <;> simp

/-- A posted event of the mask shows in the posted vector's part of the mask. -/
theorem posted_and_ne_zero (hasX : m &&& x ≠ 0) : (p ||| x &&& m) &&& m &&& (x ||| y) ≠ 0 := by
  intro zero
  apply hasX
  ext i
  have bit := congrArg (fun v => v.getLsbD i) zero
  simp only [BitVec.getLsbD_and,BitVec.getLsbD_or,BitVec.ofNat_eq_ofNat,BitVec.getLsbD_zero] at bit ⊢
  revert bit
  cases p.getLsbD i <;> cases m.getLsbD i <;> cases x.getLsbD i <;> cases y.getLsbD i <;> simp

/-- An event of the mask that was not posted is posted exactly when it fires. -/
theorem posted_iff (fire : Prop) [Decidable fire] (clean : p &&& m &&& x = 0) (hasX : m &&& x ≠ 0) :
    (p ||| (if fire then x &&& m else 0)) &&& m &&& x ≠ 0 ↔ fire := by
  split
  · next fires =>
    have posted := posted_and_ne_zero (p := p) (y := x) hasX
    rw [BitVec.or_self] at posted
    exact ⟨fun _ => fires,fun _ => posted⟩
  · next quiet => simp [clean,quiet]

theorem and_or_ne_zero (posted : p &&& m &&& x ≠ 0) : p &&& m &&& (x ||| y) ≠ 0 := by
  intro zero
  exact posted (and_and_or_eq_zero zero)

/-- The event vector after a tick, with the absolute timer's and the delay timer's posts in either
    order: only the posts of the mask's own event `x` show in it. -/
theorem tic_posted_iff (c1 c2 : Prop) [Decidable c1] [Decidable c2] (clean : p &&& m &&& x = 0)
    (hasX : m &&& x ≠ 0) (noY : m &&& y = 0) :
    ((p ||| (if c1 then y &&& m else 0) ||| (if c2 then x &&& m else 0)) &&& m &&& x ≠ 0 ↔ c2) ∧
    ((p ||| (if c2 then x &&& m else 0) ||| (if c1 then y &&& m else 0)) &&& m &&& x ≠ 0 ↔ c2) := by
  have gone : (if c1 then y &&& m else 0) = 0 := by split <;> simp [BitVec.and_comm,noY]
  rw [gone]
  simp only [BitVec.ofNat_eq_ofNat,BitVec.or_zero]
  exact ⟨posted_iff c2 clean hasX,posted_iff c2 clean hasX⟩

end Bits

/-- A task whose posted events include a timer event of its mask is released, in either mode. -/
theorem isReleased_of_timer {t : Task w} (posted : t.postedEventVec &&& t.eventMask &&& cfg.timerEvtMask ≠ 0) :
    isReleased cfg t = true := by
  have any : t.postedEventVec ≠ 0 := fun zero => posted (by simp [zero])
  unfold isReleased
  cases t.waitForAnyEvent
  · simp only [Bool.false_and,Bool.not_false,Bool.true_and,Bool.false_or,Bool.or_eq_true,bne_iff_ne]
    exact Or.inr posted
  · simp only [Bool.true_and,bne_iff_ne,ne_eq,decide_not,Bool.or_eq_true]
    exact Or.inl (by simpa using any)

/-- A task the release condition keeps has no timer event of its mask posted. -/
theorem unposted_of_kept {t : Task w} (kept : isReleased cfg t = false) :
    t.postedEventVec &&& t.eventMask &&& cfg.timerEvtMask = 0 := by
  by_contra posted
  rw [isReleased_of_timer cfg posted] at kept
  cases kept

/-- The delay counter `storeResumeCondition` loads for a timeout: one tick more, unless that
    wraps to 0. -/
def delayReload (timeout : BitVec w) : BitVec w := if timeout + 1 ≠ 0 then timeout + 1 else timeout

theorem delayReload_pos (pos : 0 < w) (timeout : BitVec w) : 1 ≤ (delayReload timeout).toNat := by
  have nonzero : delayReload timeout ≠ 0 := by
    unfold delayReload
    split
    · assumption
    · next wraps =>
      rintro rfl
      have := toNat_one pos
      simp_all
  exact Nat.pos_of_ne_zero (fun zero => nonzero (BitVec.eq_of_toNat_eq (by simpa using zero)))

section Store
variable (time : BitVec w) (t : Task w) (eventMask : BitVec 16) (all : Bool) (timeout : BitVec w)

@[simp] theorem storeResumeCondition_eventMask : (storeResumeCondition cfg time t eventMask all timeout).eventMask = eventMask := by
  unfold storeResumeCondition; split_ifs <;> rfl

@[simp] theorem storeResumeCondition_postedEventVec :
    (storeResumeCondition cfg time t eventMask all timeout).postedEventVec = t.postedEventVec := by
  unfold storeResumeCondition; split_ifs <;> rfl

/-- Without the absolute timer in the mask the delay counter is loaded. -/
theorem storeResumeCondition_cntDelay (noAbs : eventMask &&& cfg.evtAbsoluteTimer = 0) :
    (storeResumeCondition cfg time t eventMask all timeout).cntDelay = delayReload timeout := by
  simp only [storeResumeCondition,if_neg (not_not.mpr noAbs)]
  rfl

/-- With the absolute timer in the mask the due time is loaded strictly ahead of the system time. -/
theorem storeResumeCondition_ahead (wide : 2 ≤ w) (abs : eventMask &&& cfg.evtAbsoluteTimer ≠ 0) :
    1 ≤ ((storeResumeCondition cfg time t eventMask all timeout).timeDueAt - time).toInt := by
  simp only [storeResumeCondition,if_pos abs]
  split
  · rw [add_sub_cancel_left,toInt_one wide]
  · next ahead => dsimp only; omega

end Store

section Tic
variable (time : BitVec w) (t : Task w)

@[simp] theorem ticTask_eventMask : (ticTask cfg time t).eventMask = t.eventMask := by
  simp only [ticTask]; split_ifs <;> rfl

@[simp] theorem ticTask_timeDueAt : (ticTask cfg time t).timeDueAt = t.timeDueAt := by
  simp only [ticTask]; split_ifs <;> rfl

theorem ticTask_cntDelay : (ticTask cfg time t).cntDelay = if t.cntDelay > 0 then t.cntDelay - 1 else t.cntDelay := by
  simp only [ticTask]; split_ifs <;> rfl

theorem ticTask_postedEventVec : (ticTask cfg time t).postedEventVec =
    t.postedEventVec ||| (if time = t.timeDueAt then cfg.evtAbsoluteTimer &&& t.eventMask else 0) |||
      (if t.cntDelay > 0 ∧ t.cntDelay - 1 = 0 then cfg.evtDelayTimer &&& t.eventMask else 0) := by
  unfold ticTask
  by_cases due : time = t.timeDueAt <;> by_cases pos : t.cntDelay > 0 <;> by_cases last : t.cntDelay - 1 = 0 <;>
    simp only [due,pos,last,if_true,if_false,and_true,and_false] <;> simp only [BitVec.ofNat_eq_ofNat,BitVec.or_zero]

end Tic

/-- A wait mask with the delay timer and without the absolute timer. -/
def DelayOnly (mask : BitVec 16) : Prop := mask &&& cfg.evtDelayTimer ≠ 0 ∧ mask &&& cfg.evtAbsoluteTimer = 0

/-- A wait mask with the absolute timer and without the delay timer. -/
def AbsoluteOnly (mask : BitVec 16) : Prop := mask &&& cfg.evtAbsoluteTimer ≠ 0 ∧ mask &&& cfg.evtDelayTimer = 0

instance (mask : BitVec 16) : Decidable (DelayOnly cfg mask) := inferInstanceAs (Decidable (_ ∧ _))

instance (mask : BitVec 16) : Decidable (AbsoluteOnly cfg mask) := inferInstanceAs (Decidable (_ ∧ _))

theorem delay_expires_iff {x : BitVec w} (pos : 1 ≤ x.toNat) : (x > 0 ∧ x - 1 = 0) ↔ x.toNat = 1 := by
  have below := toNat_sub_one pos
  constructor
  · rintro ⟨_,zero⟩
    rw [zero] at below
    simp at below; omega
  · intro one
    refine ⟨by rw [gt_iff_lt,BitVec.lt_def]; simp; omega,BitVec.eq_of_toNat_eq ?_⟩
    rw [below]; simp; omega

section Fire
variable {time : BitVec w} {t : Task w} (clean : t.postedEventVec &&& t.eventMask &&& cfg.timerEvtMask = 0)
include clean

/-- The delay timer of a task waiting for it without the absolute timer fires exactly at the tick
    that counts it down from 1, and that tick releases the task; any other tick counts it down. -/
theorem ticTask_delay (only : DelayOnly cfg t.eventMask) (pos : 1 ≤ t.cntDelay.toNat) :
    ((ticTask cfg time t).postedEventVec &&& t.eventMask &&& cfg.evtDelayTimer ≠ 0 ↔ t.cntDelay.toNat = 1) ∧
    (t.cntDelay.toNat = 1 → isReleased cfg (ticTask cfg time t) = true) ∧
    (ticTask cfg time t).cntDelay.toNat = t.cntDelay.toNat - 1 := by
  have cleanD : t.postedEventVec &&& t.eventMask &&& cfg.evtDelayTimer = 0 := by
    rw [Config.timerEvtMask,BitVec.or_comm] at clean; exact and_and_or_eq_zero clean
  have fires : (ticTask cfg time t).postedEventVec &&& t.eventMask &&& cfg.evtDelayTimer ≠ 0 ↔ t.cntDelay.toNat = 1 := by
    rw [ticTask_postedEventVec,← delay_expires_iff pos]
    exact (tic_posted_iff _ _ cleanD only.1 only.2).1
  refine ⟨fires,fun one => isReleased_of_timer cfg ?_,?_⟩
  · have posted := and_or_ne_zero (y := cfg.evtAbsoluteTimer) (fires.mpr one)
    rw [BitVec.or_comm,← Config.timerEvtMask] at posted
    rwa [ticTask_eventMask]
  · rw [ticTask_cntDelay,if_pos (by rw [gt_iff_lt,BitVec.lt_def]; simp; omega),toNat_sub_one pos]

/-- The absolute timer of a task waiting for it without the delay timer fires exactly at the tick
    that reaches its due time, and that tick releases the task. -/
theorem ticTask_absolute (only : AbsoluteOnly cfg t.eventMask) :
    ((ticTask cfg time t).postedEventVec &&& t.eventMask &&& cfg.evtAbsoluteTimer ≠ 0 ↔ time = t.timeDueAt) ∧
    (time = t.timeDueAt → isReleased cfg (ticTask cfg time t) = true) := by
  have cleanA : t.postedEventVec &&& t.eventMask &&& cfg.evtAbsoluteTimer = 0 := and_and_or_eq_zero clean
  have fires : (ticTask cfg time t).postedEventVec &&& t.eventMask &&& cfg.evtAbsoluteTimer ≠ 0 ↔
      time = t.timeDueAt := by
    rw [ticTask_postedEventVec]
    exact (tic_posted_iff _ _ cleanA only.1 only.2).2
  refine ⟨fires,fun due => isReleased_of_timer cfg ?_⟩
  have posted := and_or_ne_zero (y := cfg.evtDelayTimer) (fires.mpr due)
  rw [← Config.timerEvtMask] at posted
  rwa [ticTask_eventMask]

end Fire

/-- The timers of a suspended task at system time `time`, suspended with `timeout` `ticks` ticks
    ago: no timer event of its mask posted yet; waiting for the delay timer alone, a counter that
    has counted one tick down per tick from its reload without reaching 0; waiting for the absolute
    timer alone, a due time strictly ahead. -/
def TaskTimers (time : BitVec w) (t : Task w) (timeout : BitVec w) (ticks : Nat) : Prop :=
  t.postedEventVec &&& t.eventMask &&& cfg.timerEvtMask = 0 ∧
    (DelayOnly cfg t.eventMask → 1 ≤ t.cntDelay.toNat ∧ t.cntDelay.toNat + ticks = (delayReload timeout).toNat) ∧
    (AbsoluteOnly cfg t.eventMask → 1 ≤ (t.timeDueAt - time).toInt)

namespace TaskTimers
variable {cfg} {time timeout : BitVec w} {t : Task w} {ticks : Nat}

/-- A task suspended with a clear event vector: its timers are just loaded. -/
theorem of_store (wide : 2 ≤ w) (t' : Task w) (eventMask : BitVec 16) (all : Bool)
    (posted : t.postedEventVec = 0) (mask : t.eventMask = eventMask)
    (cnt : t.cntDelay = (storeResumeCondition cfg time t' eventMask all timeout).cntDelay)
    (due : t.timeDueAt = (storeResumeCondition cfg time t' eventMask all timeout).timeDueAt) :
    TaskTimers cfg time t timeout 0 := by
  refine ⟨by simp [posted],fun only => ?_,fun only => ?_⟩
  · rw [cnt,storeResumeCondition_cntDelay cfg _ _ _ _ _ (mask ▸ only.2)]
    exact ⟨delayReload_pos (by omega) _,rfl⟩
  · rw [due]
    exact storeResumeCondition_ahead cfg _ _ _ _ _ wide (mask ▸ only.1)

/-- A tick that leaves a task suspended counts its timers down without letting them run out. -/
theorem tic (wide : 2 ≤ w) (timers : TaskTimers cfg time t timeout ticks)
    (kept : isReleased cfg (ticTask cfg (time + 1) t) = false) :
    TaskTimers cfg (time + 1) (ticTask cfg (time + 1) t) timeout (ticks + 1) := by
  obtain ⟨clean,delay,absolute⟩ := timers
  refine ⟨unposted_of_kept cfg kept,fun only => ?_,fun only => ?_⟩
  · rw [ticTask_eventMask] at only
    obtain ⟨pos,count⟩ := delay only
    obtain ⟨_,releases,next⟩ := @ticTask_delay w cfg (time + 1) t clean only pos
    have more : t.cntDelay.toNat ≠ 1 := fun one => by rw [releases one] at kept; cases kept
    rw [next]
    omega
  · rw [ticTask_eventMask] at only
    rw [ticTask_timeDueAt]
    have ahead := absolute only
    have notDue : time + 1 ≠ t.timeDueAt := fun due => by
      rw [(ticTask_absolute cfg clean only).2 due] at kept; cases kept
    have two : 2 ≤ (t.timeDueAt - time).toInt := by
      by_contra one
      apply notDue
      have := eq_one_of_toInt wide (show (t.timeDueAt - time).toInt = 1 by omega)
      rw [← this,add_comm,sub_add_cancel]
    rw [← sub_sub,toInt_sub_one wide two]
    omega

/-- Posted events that leave a task suspended leave its timers as they are. -/
theorem post (timers : TaskTimers cfg time t timeout ticks) (eventVec : BitVec 16)
    (kept : isReleased cfg (postEvents eventVec t) = false) : TaskTimers cfg time (postEvents eventVec t) timeout ticks :=
  ⟨unposted_of_kept cfg kept,timers.2.1,timers.2.2⟩

end TaskTimers

theorem saturating_toNat (c : BitVec 8) : (if c < 0xff then c + 1 else c).toNat = min (c.toNat + 1) 255 := by
  have := c.isLt
  split
  · next lt => rw [BitVec.lt_def] at lt; simp at lt ⊢; omega
  · next ge => rw [BitVec.lt_def] at ge; simp at ge; omega

/-- The absolute timer's cadence. Called `late` ticks after the previous due time with period
    `timeout`, both below half the cycle, `storeResumeCondition` advances the due time by the
    period if the task is in time; otherwise it counts an overrun, saturating at 255, and makes the
    task due at the next tick. -/
theorem storeResumeCondition_cadence (t : Task w) (time timeout late : BitVec w) (all : Bool)
    (absBit : cfg.evtAbsoluteTimer ≠ 0) (period : 0 < timeout.toInt) (lateness : 0 ≤ late.toInt)
    (since : time = t.timeDueAt + late) :
    (late.toInt < timeout.toInt →
      (storeResumeCondition cfg time t cfg.evtAbsoluteTimer all timeout).timeDueAt = t.timeDueAt + timeout ∧
      (storeResumeCondition cfg time t cfg.evtAbsoluteTimer all timeout).cntOverrun = t.cntOverrun) ∧
    (timeout.toInt ≤ late.toInt →
      (storeResumeCondition cfg time t cfg.evtAbsoluteTimer all timeout).cntOverrun.toNat =
        min (t.cntOverrun.toNat + 1) 255 ∧
      (storeResumeCondition cfg time t cfg.evtAbsoluteTimer all timeout).timeDueAt = time + 1) := by
  have signed : (t.timeDueAt + timeout - time).toInt = timeout.toInt - late.toInt := by
    rw [since,add_sub_add_left_eq_sub,toInt_sub_of_nonneg (by omega) lateness]
  simp only [storeResumeCondition,BitVec.and_self,if_pos absBit,signed]
  refine ⟨fun inTime => ?_,fun overrun => ?_⟩
  · rw [if_neg (by omega)]; exact ⟨rfl,rfl⟩
  · rw [if_pos (by omega)]; exact ⟨saturating_toNat _,rfl⟩

theorem demo_cadence :
    (storeResumeCondition demoConfig 3 default demoConfig.evtAbsoluteTimer false (5 : BitVec 8)).timeDueAt = 5 :=
  ((storeResumeCondition_cadence demoConfig default 3 5 3 false (by decide) (by decide) (by decide)
    (by decide)).1 (by decide)).1

end RTuinOS
