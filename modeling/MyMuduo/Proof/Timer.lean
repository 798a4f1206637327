import MyMuduo.Spec.Timer

/-!
# When the timerfd is armed

`resetTimerFd` asks for the time left until the expiration, cut to microseconds. With less
than a microsecond left, or just gone, that is zero, and zero disarms the timerfd; with a
microsecond gone it is negative, and the call fails.

* `resetTimerFd_eq`: the three outcomes.
* `step_armed`: from a queue that is armed, a step leaves it armed **exactly if** its
  `resetTimerFd` does not run into one of the two.
* `timer_armed_iff`: so the queue is armed at all times of a run exactly if every step of
  the run is of this kind.
-/

namespace MyMuduo

open Lib

/-! ## One call of `resetTimerFd` -/

/-- The time left, in whole microseconds, as the seconds and nanoseconds given to
`timerfd_settime`. -/
theorem settime_diff (now diff : ℤ) :
    Timerfd.settime now (diff.tdiv Timestamp.kMicroSecondsPerSecond)
        (diff.tmod Timestamp.kMicroSecondsPerSecond * 1000) =
      if diff < 0 then .error EINVAL else if diff = 0 then .ok none
        else .ok (some (now + diff * 1000)) := by
  have hsplit : (1000 * 1000) * diff.tdiv (1000 * 1000) + diff.tmod (1000 * 1000) = diff :=
    Int.mul_tdiv_add_tmod diff (1000 * 1000)
  unfold Timerfd.settime Timestamp.kMicroSecondsPerSecond
  by_cases hneg : diff < 0
  · have : diff.tdiv (1000 * 1000) < 0 ∨ diff.tmod (1000 * 1000) * 1000 < 0 := by omega
    rw [if_pos hneg, if_pos (by omega)]
  · have h1 : 0 ≤ diff.tdiv (1000 * 1000) := Int.tdiv_nonneg (by omega) (by omega)
    have h2 : 0 ≤ diff.tmod (1000 * 1000) := Int.tmod_nonneg _ (by omega)
    have h3 : diff.tmod (1000 * 1000) < 1000 * 1000 := Int.tmod_lt_of_pos diff (by omega)
    rw [if_neg hneg, if_neg (by omega)]
    by_cases h0 : diff = 0
    · rw [if_pos h0, if_pos (by omega)]
    · rw [if_neg h0, if_neg (by omega)]
      have : now + diff.tdiv (1000 * 1000) * 10 ^ 9 + diff.tmod (1000 * 1000) * 1000 =
          now + diff * 1000 := by omega
      rw [this]

/-- The whole microseconds of a time difference. -/
theorem timeDifference_sign (high low : ℤ) :
    (Timestamp.timeDifference high low < 0 ↔ high - low ≤ -1000) ∧
      (0 < Timestamp.timeDifference high low ↔ 1000 ≤ high - low) ∧
      (1000 ≤ high - low → low + Timestamp.timeDifference high low * 1000 ≤ high) := by
  have h1 : 1000 * (high - low).tdiv 1000 + (high - low).tmod 1000 = high - low :=
    Int.mul_tdiv_add_tmod (high - low) 1000
  unfold Timestamp.timeDifference
  rcases lt_or_ge (high - low) 0 with hneg | hpos
  · have h2 : (high - low).tmod 1000 ≤ 0 := by
      have := Int.tmod_nonneg (1000 : ℤ) (show 0 ≤ -(high - low) by omega)
      rw [Int.neg_tmod] at this
      omega
    have h3 : -1000 < (high - low).tmod 1000 := Int.lt_tmod_of_pos (high - low) (by omega)
    omega
  · have h2 : 0 ≤ (high - low).tmod 1000 := Int.tmod_nonneg _ hpos
    have h3 : (high - low).tmod 1000 < 1000 := Int.tmod_lt_of_pos _ (by omega)
    omega

namespace RBTreeTimer

variable {s s' : RBTreeTimer}

/-- What `resetTimerFd` leaves in the timerfd. -/
def rearmed (fd : Timerfd) (expiration now : ℤ) : Timerfd :=
  if expiration - now ≤ -1000 then fd
  else if expiration - now < 1000 then none
  else some (now + Timestamp.timeDifference expiration now * 1000)

theorem resetTimerFd_eq (s : RBTreeTimer) (t : Timer) (now : ℤ) :
    s.resetTimerFd t now =
      { s with m_timer_fd := rearmed s.m_timer_fd t.m_expiration now, armTime := now } := by
  obtain ⟨h1, h2, -⟩ := timeDifference_sign t.m_expiration now
  unfold resetTimerFd rearmed
  dsimp only
  rw [settime_diff]
  by_cases hneg : t.m_expiration - now ≤ -1000
  · rw [if_pos (h1.2 hneg), if_pos hneg]
  · have hn1 : ¬Timestamp.timeDifference t.m_expiration now < 0 := fun h => hneg (h1.1 h)
    rw [if_neg hn1, if_neg hneg]
    by_cases hpos : t.m_expiration - now < 1000
    · have h0 : Timestamp.timeDifference t.m_expiration now = 0 := by
        have := mt h2.1 (by omega)
        omega
      rw [if_pos h0, if_pos hpos]
    · have h0 : Timestamp.timeDifference t.m_expiration now ≠ 0 := by
        have := h2.2 (by omega)
        omega
      rw [if_neg h0, if_neg hpos]

/-! ## The invariant -/

/-- **The queue is armed**: if a timer is pending, the timerfd is armed or readable and its
channel registered, and the deadline is not after the first expiration if that was a
microsecond or more ahead when the timerfd was set. -/
def Armed (s : RBTreeTimer) : Prop :=
  ∀ t ∈ s.m_timer.head?, s.registered = true ∧
    ∃ d, s.m_timer_fd = some d ∧ (s.armTime + 1000 ≤ t.m_expiration → d ≤ t.m_expiration)

/-- `resetTimerFd` does its job: the expiration is a microsecond or more ahead, or a
microsecond or more gone and the timerfd already set. -/
def Rearms (fd : Timerfd) (expiration now : ℤ) : Prop :=
  1000 ≤ expiration - now ∨ expiration - now ≤ -1000 ∧ fd ≠ none

instance (fd : Timerfd) (expiration now : ℤ) : Decidable (Rearms fd expiration now) :=
  inferInstanceAs (Decidable (_ ∨ _))

/-- After `resetTimerFd` for the first timer, the queue is armed exactly if it did its job. -/
theorem armed_rearmed {t : Timer} {rest : List Timer} {now : ℤ} (ht : s.m_timer = t :: rest)
    (hreg : s.registered = true) :
    (s.resetTimerFd t now).Armed ↔ Rearms s.m_timer_fd t.m_expiration now := by
  obtain ⟨-, -, hle⟩ := timeDifference_sign t.m_expiration now
  rw [resetTimerFd_eq]
  unfold Armed Rearms
  simp only [ht, List.head?_cons, Option.mem_some_iff, forall_eq', hreg, true_and]
  unfold rearmed
  constructor
  -- by the three outcomes: a failed call, a disarming one, a deadline
  · rintro ⟨d, hd, -⟩
    by_cases h1 : t.m_expiration - now ≤ -1000
    · rw [if_pos h1] at hd
      exact Or.inr ⟨h1, by rw [hd]; simp⟩
    · rw [if_neg h1] at hd
      by_cases h2 : t.m_expiration - now < 1000
      · rw [if_pos h2] at hd
        cases hd
      · exact Or.inl (by omega)
  · rintro (h | ⟨h, hfd⟩)
    · rw [if_neg (by omega), if_neg (by omega)]
      exact ⟨_, rfl, fun _ => hle h⟩
    · rw [if_pos h]
      obtain ⟨d, hd⟩ := Option.ne_none_iff_exists'.1 hfd
      -- the failed call leaves the old deadline, and the expiration is past
      refine ⟨d, hd, fun hlate => ?_⟩
      omega

/-- Before the first timer is added nothing is set; outside of `handleRead` the queue is
armed. -/
structure TimerOk (s : RBTreeTimer) : Prop where
  fresh : s.registered = false → s.m_timer = [] ∧ s.m_timer_fd = none ∧ s.pc = .idle
  armed : s.pc = .idle → s.Armed

theorem ok_new (clock : ℤ) : (new clock).TimerOk :=
  ⟨fun _ => ⟨rfl, rfl, rfl⟩, fun _ _ h => by cases h⟩

end RBTreeTimer

open RBTreeTimer in
/-- The condition on a step, from the state before it: a `resetTimerFd` outside of the
callbacks does its job. -/
def TimerStep.Arms (s : RBTreeTimer) : TimerStep → Prop
  | .addTimer when_ _ _ now =>
    s.pc = .idle → (∀ t ∈ s.m_timer.head?, when_ < t.m_expiration) → Rearms s.m_timer_fd when_ now
  | .rearm now => ∀ t ∈ s.m_timer.head?, Rearms s.m_timer_fd t.m_expiration now
  | .handleRead _ _ | .run _ | .returned _ => True

instance (s : RBTreeTimer) : (a : TimerStep) → Decidable (a.Arms s)
  | .addTimer _ _ _ _ => inferInstanceAs (Decidable (_ → _ → _))
  | .rearm _ => inferInstanceAs (Decidable (∀ t ∈ s.m_timer.head?, _))
  | .handleRead _ _ | .run _ | .returned _ => inferInstanceAs (Decidable True)

namespace RBTreeTimer

variable {s s' : RBTreeTimer}

/-! ## One step -/

theorem earliestChanged_iff (s : RBTreeTimer) (t : Timer) :
    s.earliestChanged t = true ↔ ∀ u ∈ s.m_timer.head?, t.m_expiration < u.m_expiration := by
  unfold earliestChanged
  split
  · rename_i h; simp [h]
  · rename_i h; simp [h]

/-- Fields that `addTimerInLoop` does not depend on how the timerfd ends up. -/
theorem addTimerInLoop_frame (s : RBTreeTimer) (t : Timer) (now : ℤ) :
    (s.addTimerInLoop t now).pc = s.pc ∧ (s.addTimerInLoop t now).registered = true := by
  unfold addTimerInLoop
  dsimp only
  split
  · rw [resetTimerFd_eq]
    exact ⟨rfl, rfl⟩
  · exact ⟨rfl, rfl⟩

/-- Adding a timer to an armed queue. -/
theorem addTimerInLoop_armed (h : s.Armed) (t : Timer) (now : ℤ) :
    (s.addTimerInLoop t now).Armed ↔
      ((∀ u ∈ s.m_timer.head?, t.m_expiration < u.m_expiration) →
        Rearms s.m_timer_fd t.m_expiration now) := by
  unfold addTimerInLoop
  dsimp only
  by_cases he : s.earliestChanged t = true
  · -- the new timer is the first one
    have hlt := (earliestChanged_iff s t).1 he
    have hins : (s.enableTimerfd.insertTimer t).m_timer = t :: s.m_timer :=
      KeySet.insert_of_lt Timer.m_expiration hlt
    rw [if_pos he, armed_rearmed hins rfl]
    exact ⟨fun hr _ => hr, fun hr => hr hlt⟩
  · -- the first one stays in place, and so does the deadline
    rw [if_neg he]
    rw [earliestChanged_iff] at he
    refine iff_of_true ?_ fun hlt => absurd hlt he
    push Not at he
    obtain ⟨u, hu, hle⟩ := he
    obtain ⟨rest, hm⟩ : ∃ rest, s.m_timer = u :: rest := by
      cases hm : s.m_timer with
      | nil => rw [hm] at hu; cases hu
      | cons v rest => rw [hm] at hu; cases hu; exact ⟨rest, rfl⟩
    obtain ⟨rest', hins⟩ := KeySet.insert_cons Timer.m_expiration (l := rest) hle
    intro v hv
    have hv' : v ∈ s.m_timer.head? := by
      simp only [enableTimerfd, insertTimer, hm, hins] at hv
      rw [hm]
      exact hv
    obtain ⟨-, hd⟩ := h v hv'
    exact ⟨rfl, hd⟩

/-- The end of `handleRead`. -/
theorem rearm_armed (hreg : s.registered = true) (now : ℤ) :
    (s.rearm now).Armed ↔ ∀ t ∈ s.m_timer.head?, Rearms s.m_timer_fd t.m_expiration now := by
  unfold rearm
  split
  · rename_i h
    simp [Armed, h]
  · rename_i t rest h
    rw [armed_rearmed h hreg, h]
    simp

/-- **One step of an armed queue** leaves it armed exactly if it meets the condition. -/
theorem step_armed (h : s.TimerOk) {a : TimerStep} (hs : s.step a = some s') :
    (s'.registered = false → s'.m_timer = [] ∧ s'.m_timer_fd = none ∧ s'.pc = .idle) ∧
      (a.Arms s ↔ (s'.pc = .idle → s'.Armed)) := by
  obtain ⟨hfresh, harmed⟩ := h
  -- inside of `handleRead` the channel is registered
  have hreg : s.pc ≠ .idle → s.registered = true := by
    intro hpc
    by_contra hr
    exact hpc (hfresh (by simpa using hr)).2.2
  unfold RBTreeTimer.step at hs
  split at hs
  swap
  · cases hs
  rename_i hclock
  clear hclock
  unfold RBTreeTimer.act at hs
  dsimp only at hs
  split at hs
  · -- `addTimer` outside of `handleRead`
    rename_i when_ interval isRepeat now hpc
    cases hs
    obtain ⟨h1, h2⟩ := addTimerInLoop_frame
      { s with clock := now, added := s.added + 1 } ⟨s.added, when_, interval, isRepeat⟩ now
    have hadd := addTimerInLoop_armed (s := { s with clock := now, added := s.added + 1 })
      (harmed hpc) ⟨s.added, when_, interval, isRepeat⟩ now
    refine ⟨fun hr => absurd (h2.symm.trans hr) (by decide), ?_⟩
    refine Iff.trans ⟨fun ha => ha hpc, fun ha _ => ha⟩ (hadd.symm.trans ⟨fun ha _ => ha, fun ha => ?_⟩)
    exact ha (h1.trans hpc)
  · -- `addTimer` in a callback
    rename_i when_ interval isRepeat now timer rest hpc
    cases hs
    obtain ⟨h1, h2⟩ := addTimerInLoop_frame
      { s with clock := now, added := s.added + 1 } ⟨s.added, when_, interval, isRepeat⟩ now
    refine ⟨fun hr => absurd (h2.symm.trans hr) (by decide), ?_⟩
    refine iff_of_true (fun hi => ?_) fun hi => ?_
    · exact absurd (hpc.symm.trans hi) (by simp)
    · exact absurd (hpc.symm.trans (h1.symm.trans hi)) (by simp)
  · -- `handleRead`
    rename_i read now hpc
    cases hs
    unfold handleRead
    dsimp only
    split
    · rename_i hread
      refine ⟨fun hr => ?_, iff_of_true trivial fun hi => by cases hi⟩
      rw [(hfresh hr).2.1] at hread
      cases hread
    · exact ⟨hfresh, iff_of_true trivial harmed⟩
  · rename_i now timer rest hpc
    cases hs
    exact ⟨fun hr => absurd ((hreg (by rw [hpc]; simp)).symm.trans hr) (by decide),
      iff_of_true trivial fun hi => by cases hi⟩
  · -- the callback returns
    rename_i now timer rest hpc
    cases hs
    have hr := hreg (by rw [hpc]; simp)
    unfold handleRepeatTimer
    split
    · exact ⟨fun hr' => absurd (hr.symm.trans hr') (by decide), iff_of_true trivial fun hi => by cases hi⟩
    · exact ⟨fun hr' => absurd (hr.symm.trans hr') (by decide), iff_of_true trivial fun hi => by cases hi⟩
  · -- the end of `handleRead`
    rename_i now hpc
    cases hs
    have hr := hreg (by rw [hpc]; simp)
    have hpc' : ∀ u : RBTreeTimer, u.pc = .idle → u.registered = true →
        (u.rearm now).pc = .idle ∧ (u.rearm now).registered = true := by
      intro u h1 h2
      unfold rearm
      split
      · exact ⟨h1, h2⟩
      · rw [resetTimerFd_eq]
        exact ⟨h1, h2⟩
    obtain ⟨h1, h2⟩ := hpc' { s with clock := now, pc := .idle } rfl hr
    have hre := rearm_armed (s := { s with clock := now, pc := .idle }) hr now
    refine ⟨fun hr' => absurd (h2.symm.trans hr') (by decide), ?_⟩
    exact hre.symm.trans ⟨fun ha _ => ha, fun ha => ha h1⟩
  · cases hs

/-! ## Whole runs -/

/-- **The timerfd is armed whenever no call is under way, exactly if every `resetTimerFd`
does its job.** For every run of the timer queue, under every clock that does not go back. -/
theorem timer_armed_iff (clock : ℤ) (steps : List TimerStep) {s : RBTreeTimer}
    (hrun : run RBTreeTimer.step (new clock) steps = some s) :
    (∀ n s', run RBTreeTimer.step (new clock) (steps.take n) = some s' → s'.pc = .idle → s'.Armed) ↔
      Along RBTreeTimer.step (fun s a => a.Arms s) (new clock) steps := by
  refine forall_run_iff_along (I := TimerOk) (P := fun s => s.pc = .idle → s.Armed)
    (fun s h => h.armed) ?_ steps (ok_new clock) hrun
  intro s a s' h hs
  obtain ⟨h1, h2⟩ := step_armed h hs
  exact ⟨h2, fun ha => ⟨h1, h2.1 ha⟩⟩

/-- A repeating timer runs, its callback adds another timer, and the timerfd is armed again. -/
def repeatingSteps : List TimerStep :=
  [.addTimer 5000000 1000 true 0, .handleRead 5000100 5000200, .run 5000300,
    .addTimer 9000000 0 false 5000400, .returned 5000500, .rearm 5000600]

theorem timer_armed_iff_repeating :
    (run RBTreeTimer.step (new 0) repeatingSteps).isSome = true ∧
      ∀ n s', run RBTreeTimer.step (new 0) (repeatingSteps.take n) = some s' → s'.pc = .idle →
        s'.Armed :=
  ⟨rfl, (timer_armed_iff 0 repeatingSteps rfl).2 (by decide)⟩

/-- A timer that expires now: it is pending, and the timerfd is not armed. -/
theorem timer_armed_iff_now :
    ∃ s, run RBTreeTimer.step (new 0) [.addTimer 0 0 false 0] = some s ∧ s.pc = .idle ∧ ¬s.Armed := by
  refine ⟨_, rfl, rfl, fun h => ?_⟩
  obtain ⟨-, d, hd, -⟩ := h ⟨0, 0, 0, false⟩ rfl
  cases hd

end RBTreeTimer

end MyMuduo
