import MyMuduo.Spec.Timer

/-!
# Which timers are kept and when they run

The set holds at most one timer for each expiration. A timer that comes with an expiration
that is already there, new or restarted, is dropped; nothing else loses a timer.

* `act_cases`: what a step does to the set, to the expired timers and to the history.
* `none_lost_iff`: **no timer is lost in a run exactly if no timer comes with an expiration
  that is already in the set.**
* `timers_fire_soundly`: under a clock that does not go back the timers that are there run
  when they are due, in order, none of them too early or too often.
-/

namespace MyMuduo

open Lib

namespace RBTreeTimer

variable {s s' : RBTreeTimer}

/-! ## One step -/

/-- The expired timers that `handleRead` has still to run. -/
def todo (s : RBTreeTimer) : List Timer :=
  match s.pc with
  | .idle => []
  | .expired rest | .callback _ rest => rest

/-- The timer whose callback is under way. -/
def running (s : RBTreeTimer) : List Timer :=
  match s.pc with
  | .callback timer _ => [timer]
  | .idle | .expired _ => []

/-- What a step does to the set, the expired timers and the history. -/
inductive Acts (s s' : RBTreeTimer) : TimerStep → Prop
  | addTimer {when_ interval : ℤ} {isRepeat : Bool} {now : ℤ} (hpc : s'.pc = s.pc)
      (hadded : s'.added = s.added + 1) (hran : s'.ran = s.ran)
      (hset : s'.m_timer =
        KeySet.insert Timer.m_expiration ⟨s.added, when_, interval, isRepeat⟩ s.m_timer) :
      Acts s s' (.addTimer when_ interval isRepeat now)
  | handleRead {read now : ℤ} (hpc : s.pc = .idle) (hadded : s'.added = s.added)
      (hran : s'.ran = s.ran) (hread : s.m_timer_fd.readable read = true)
      (hset : KeySet.splitBelow Timer.m_expiration now s.m_timer = (s'.todo, s'.m_timer))
      (hpc' : s'.pc = .expired s'.todo) : Acts s s' (.handleRead read now)
  | readFails {read now : ℤ} (hpc : s.pc = .idle) (hpc' : s'.pc = .idle)
      (hadded : s'.added = s.added) (hran : s'.ran = s.ran)
      (hread : s.m_timer_fd.readable read = false) (hset : s'.m_timer = s.m_timer) :
      Acts s s' (.handleRead read now)
  | run {now : ℤ} {timer : Timer} {rest : List Timer} (hpc : s.pc = .expired (timer :: rest))
      (hpc' : s'.pc = .callback timer rest) (hadded : s'.added = s.added)
      (hran : s'.ran = s.ran ++ [(now, timer)]) (hset : s'.m_timer = s.m_timer) :
      Acts s s' (.run now)
  | returned {now : ℤ} {timer : Timer} {rest : List Timer} (hpc : s.pc = .callback timer rest)
      (hpc' : s'.pc = .expired rest) (hadded : s'.added = s.added) (hran : s'.ran = s.ran)
      (hset : s'.m_timer = if timer.m_repeat then
        KeySet.insert Timer.m_expiration (timer.restart now) s.m_timer else s.m_timer) :
      Acts s s' (.returned now)
  | rearm {now : ℤ} (hpc : s.pc = .expired []) (hpc' : s'.pc = .idle)
      (hadded : s'.added = s.added) (hran : s'.ran = s.ran) (hset : s'.m_timer = s.m_timer) :
      Acts s s' (.rearm now)

/-- `resetTimerFd` touches the timerfd only. -/
theorem resetTimerFd_frame (s : RBTreeTimer) (t : Timer) (now : ℤ) :
    (s.resetTimerFd t now).m_timer = s.m_timer ∧ (s.resetTimerFd t now).pc = s.pc ∧
      (s.resetTimerFd t now).added = s.added ∧ (s.resetTimerFd t now).ran = s.ran ∧
      (s.resetTimerFd t now).clock = s.clock := by
  unfold resetTimerFd
  dsimp only
  split
  · exact ⟨rfl, rfl, rfl, rfl, rfl⟩
  · exact ⟨rfl, rfl, rfl, rfl, rfl⟩

/-- **What a step does.** -/
theorem act_cases {a : TimerStep} (h : s.act a = some s') : Acts s s' a ∧ s'.clock = s.clock := by
  have hadd : ∀ (u : RBTreeTimer) (t : Timer) (now : ℤ),
      (u.addTimerInLoop t now).m_timer = KeySet.insert Timer.m_expiration t u.m_timer ∧
        (u.addTimerInLoop t now).pc = u.pc ∧ (u.addTimerInLoop t now).added = u.added ∧
        (u.addTimerInLoop t now).ran = u.ran ∧ (u.addTimerInLoop t now).clock = u.clock := by
    intro u t now
    unfold addTimerInLoop
    dsimp only
    split
    · exact resetTimerFd_frame _ _ _
    · exact ⟨rfl, rfl, rfl, rfl, rfl⟩
  unfold act at h
  split at h
  · cases h
    obtain ⟨h1, h2, h3, h4, h5⟩ := hadd { s with added := s.added + 1 } ⟨s.added, _, _, _⟩ _
    exact ⟨.addTimer h2 h3 h4 h1, h5⟩
  · cases h
    obtain ⟨h1, h2, h3, h4, h5⟩ := hadd { s with added := s.added + 1 } ⟨s.added, _, _, _⟩ _
    exact ⟨.addTimer h2 h3 h4 h1, h5⟩
  · rename_i hpc
    cases h
    unfold handleRead
    split
    · rename_i hread
      exact ⟨.handleRead hpc rfl rfl hread rfl rfl, rfl⟩
    · rename_i hread
      exact ⟨.readFails hpc hpc rfl rfl (by simpa using hread) rfl, rfl⟩
  · rename_i hpc
    cases h
    exact ⟨.run hpc rfl rfl rfl rfl, rfl⟩
  · rename_i hpc
    cases h
    unfold handleRepeatTimer
    split
    · rename_i hr
      exact ⟨.returned hpc rfl rfl rfl (by rw [if_pos hr]; rfl), rfl⟩
    · rename_i hr
      exact ⟨.returned hpc rfl rfl rfl (by rw [if_neg hr]), rfl⟩
  · rename_i hpc
    cases h
    unfold rearm
    split
    · exact ⟨.rearm hpc rfl rfl rfl rfl, rfl⟩
    · obtain ⟨h1, h2, h3, h4, h5⟩ := resetTimerFd_frame { s with pc := .idle } _ _
      exact ⟨.rearm hpc h2 h3 h4 h1, h5⟩
  · cases h

/-! ## No timer is lost -/

/-- The timers that are still to run: those in the set and, inside `handleRead`, the expired
ones it has not run yet and the repeating one whose callback is under way. -/
def pending (s : RBTreeTimer) : List Timer :=
  s.m_timer ++ s.todo ++ s.running.filter (·.m_repeat)

/-- Outside of `handleRead` a pending timer is in the set. -/
theorem pending_idle (h : s.pc = .idle) : s.pending = s.m_timer := by
  simp [pending, todo, running, h]

/-- The one-shot timers that have run. -/
def oneShots (s : RBTreeTimer) : List Timer := (s.ran.map Prod.snd).filter (!·.m_repeat)

/-- **No timer is lost.** -/
structure NoneLost (s : RBTreeTimer) : Prop where
  /-- every timer ever added is pending, or a one-shot timer that has run -/
  kept : ∀ id < s.added, (∃ t ∈ s.pending, t.id = id) ∨ ∃ t ∈ s.oneShots, t.id = id
  /-- each `addTimer` makes one more -/
  count : s.pending.length + s.oneShots.length = s.added
  /-- a repeating timer that ran is pending again -/
  again : ∀ x ∈ s.ran, x.2.m_repeat = true → ∃ t ∈ s.pending, t.id = x.2.id

/-- The numbers of the timers that are not lost. -/
def ids (s : RBTreeTimer) : List ℕ := (s.pending ++ s.oneShots).map Timer.id

/-- Every timer ever added is there exactly once. -/
structure Kept (s : RBTreeTimer) : Prop where
  sorted : KeySet.Sorted Timer.m_expiration s.m_timer
  ids : List.Perm s.ids (List.range s.added)
  again : ∀ x ∈ s.ran, x.2.m_repeat = true → ∃ t ∈ s.pending, t.id = x.2.id ∧ t.m_repeat = true

theorem Kept.nodup (h : s.Kept) : s.ids.Nodup := h.ids.nodup_iff.2 List.nodup_range

theorem Kept.mem_ids (h : s.Kept) {id : ℕ} : id ∈ s.ids ↔ id < s.added :=
  h.ids.mem_iff.trans List.mem_range

theorem kept_new (clock : ℤ) : (new clock).Kept :=
  ⟨List.Pairwise.nil, List.Perm.refl _, fun _ hx => by cases hx⟩

theorem mem_ids_iff {id : ℕ} :
    id ∈ s.ids ↔ (∃ t ∈ s.pending, t.id = id) ∨ ∃ t ∈ s.oneShots, t.id = id := by
  simp only [RBTreeTimer.ids, List.mem_map, List.mem_append, or_and_right, exists_or]

theorem Kept.noneLost (h : s.Kept) : s.NoneLost where
  kept id hid := mem_ids_iff.1 (h.mem_ids.2 hid)
  count := by
    have := h.ids.length_eq
    simpa [RBTreeTimer.ids] using this
  again x hx hr := by
    obtain ⟨t, ht, hid, -⟩ := h.again x hx hr
    exact ⟨t, ht, hid⟩

end RBTreeTimer

open RBTreeTimer in
/-- The condition on a step, from the state before it: the timer it inserts has an
expiration that is not in the set yet. -/
def TimerStep.Distinct (s : RBTreeTimer) : TimerStep → Prop
  | .addTimer when_ _ _ _ => ∀ t ∈ s.m_timer, t.m_expiration ≠ when_
  | .returned now => ∀ timer ∈ s.running, timer.m_repeat = true →
    ∀ t ∈ s.m_timer, t.m_expiration ≠ (timer.restart now).m_expiration
  | .handleRead _ _ | .run _ | .rearm _ => True

instance (s : RBTreeTimer) : (a : TimerStep) → Decidable (a.Distinct s)
  | .addTimer _ _ _ _ => inferInstanceAs (Decidable (∀ t ∈ s.m_timer, _))
  | .returned _ => inferInstanceAs (Decidable (∀ timer ∈ s.running, _))
  | .handleRead _ _ | .run _ | .rearm _ => inferInstanceAs (Decidable True)

namespace RBTreeTimer

variable {s s' : RBTreeTimer}

/-- A step that moves timers around and neither adds nor drops one. -/
theorem Kept.of_perm (h : s.Kept) (hsorted : KeySet.Sorted Timer.m_expiration s'.m_timer)
    (hadded : s'.added = s.added) (hran : s'.ran = s.ran)
    (hpending : List.Perm s'.pending s.pending) : s'.Kept := by
  have hone : s'.oneShots = s.oneShots := by rw [oneShots, oneShots, hran]
  refine ⟨hsorted, ?_, fun x hx hr => ?_⟩
  · rw [hadded, RBTreeTimer.ids, hone]
    exact ((hpending.append_right _).map _).trans h.ids
  · rw [hran] at hx
    obtain ⟨t, ht, hid⟩ := h.again x hx hr
    exact ⟨t, hpending.mem_iff.2 ht, hid⟩

/-- `addTimer` keeps the new timer exactly if its expiration is new. -/
theorem addTimer_kept (h : s.Kept) {when_ interval : ℤ} {isRepeat : Bool} (hpc : s'.pc = s.pc)
    (hadded : s'.added = s.added + 1) (hran : s'.ran = s.ran)
    (hset : s'.m_timer =
      KeySet.insert Timer.m_expiration ⟨s.added, when_, interval, isRepeat⟩ s.m_timer) :
    ((∀ t ∈ s.m_timer, t.m_expiration ≠ when_) ↔ s'.NoneLost) ∧
      ((∀ t ∈ s.m_timer, t.m_expiration ≠ when_) → s'.Kept) := by
  have htodo : s'.todo = s.todo := by rw [todo, todo, hpc]
  have hrunning : s'.running = s.running := by rw [running, running, hpc]
  have hone : s'.oneShots = s.oneShots := by rw [oneShots, oneShots, hran]
  have hkeep : (∀ t ∈ s.m_timer, t.m_expiration ≠ when_) → s'.Kept := by
    intro hne
    have hperm : List.Perm s'.pending (⟨s.added, when_, interval, isRepeat⟩ :: s.pending) := by
      rw [pending, htodo, hrunning, hset]
      exact ((KeySet.insert_perm Timer.m_expiration hne).append_right _).append_right _
    refine ⟨?_, ?_, fun x hx hr => ?_⟩
    · rw [hset]
      exact KeySet.insert_sorted _ h.sorted
    · rw [hadded, RBTreeTimer.ids, hone, List.range_succ]
      refine ((hperm.append_right _).map _).trans ?_
      exact (h.ids.cons s.added).trans (List.perm_append_singleton _ _).symm
    · rw [hran] at hx
      obtain ⟨t, ht, hid⟩ := h.again x hx hr
      exact ⟨t, hperm.mem_iff.2 (List.mem_cons_of_mem _ ht), hid⟩
  refine ⟨⟨fun hne => (hkeep hne).noneLost, fun hlost => ?_⟩, hkeep⟩
  -- with an expiration that is there the set is unchanged, and the new number is missing
  by_contra hdup
  push Not at hdup
  rw [KeySet.insert_of_mem Timer.m_expiration h.sorted hdup] at hset
  have hids : s'.ids = s.ids := by
    rw [RBTreeTimer.ids, RBTreeTimer.ids, pending, pending, htodo, hrunning, hset, hone]
  have hmem : s.added ∈ s'.ids := mem_ids_iff.2 (hlost.kept s.added (by omega))
  rw [hids, h.mem_ids] at hmem
  omega

/-- `handleRepeatTimer` keeps a repeating timer exactly if its new expiration is new. -/
theorem returned_kept (h : s.Kept) {now : ℤ} {timer : Timer} {rest : List Timer}
    (hpc : s.pc = .callback timer rest) (hpc' : s'.pc = .expired rest)
    (hadded : s'.added = s.added) (hran : s'.ran = s.ran)
    (hset : s'.m_timer = if timer.m_repeat then
      KeySet.insert Timer.m_expiration (timer.restart now) s.m_timer else s.m_timer) :
    ((timer.m_repeat = true →
        ∀ t ∈ s.m_timer, t.m_expiration ≠ (timer.restart now).m_expiration) ↔ s'.NoneLost) ∧
      ((timer.m_repeat = true →
        ∀ t ∈ s.m_timer, t.m_expiration ≠ (timer.restart now).m_expiration) → s'.Kept) := by
  have hone : s'.oneShots = s.oneShots := by rw [oneShots, oneShots, hran]
  have hp : s.pending = s.m_timer ++ rest ++ [timer].filter (·.m_repeat) := by
    simp only [pending, todo, running, hpc]
  have hp' : s'.pending = s'.m_timer ++ rest := by
    simp only [pending, todo, running, hpc', List.filter_nil, List.append_nil]
  by_cases hrep : timer.m_repeat = true
  swap
  · -- a one-shot timer is done
    have hkept : s'.Kept := by
      rw [if_neg hrep] at hset
      refine h.of_perm (by rw [hset]; exact h.sorted) hadded hran ?_
      rw [hp, hp', hset, List.filter_cons_of_neg hrep, List.filter_nil, List.append_nil]
    exact ⟨iff_of_true (fun hr => absurd hr hrep) hkept.noneLost, fun _ => hkept⟩
  rw [if_pos hrep] at hset
  rw [List.filter_cons_of_pos hrep, List.filter_nil] at hp
  have hperm : List.Perm s.pending (timer :: (s.m_timer ++ rest)) := by
    rw [hp]
    exact List.perm_append_singleton _ _
  have hkeep : (∀ t ∈ s.m_timer, t.m_expiration ≠ (timer.restart now).m_expiration) → s'.Kept := by
    intro hne
    have hperm' : List.Perm s'.pending (timer.restart now :: (s.m_timer ++ rest)) := by
      rw [hp', hset]
      exact (KeySet.insert_perm Timer.m_expiration hne).append_right _
    refine ⟨?_, ?_, fun x hx hr => ?_⟩
    · rw [hset]
      exact KeySet.insert_sorted _ h.sorted
    · rw [hadded, RBTreeTimer.ids, hone]
      have hids := (hperm.append_right s.oneShots).map Timer.id
      exact ((hperm'.append_right _).map _).trans (hids.symm.trans h.ids)
    · rw [hran] at hx
      obtain ⟨t, ht, hid, hrt⟩ := h.again x hx hr
      rcases List.mem_cons.1 (hperm.mem_iff.1 ht) with rfl | ht
      · exact ⟨t.restart now, hperm'.mem_iff.2 List.mem_cons_self, hid, hrt⟩
      · exact ⟨t, hperm'.mem_iff.2 (List.mem_cons_of_mem _ ht), hid, hrt⟩
  refine ⟨⟨fun hne => (hkeep (hne hrep)).noneLost, fun hlost _ => ?_⟩, fun hne => hkeep (hne hrep)⟩
  -- with an expiration that is there the timer is gone, and no other has its number
  by_contra hdup
  push Not at hdup
  rw [KeySet.insert_of_mem Timer.m_expiration h.sorted hdup] at hset
  have hperm' : List.Perm s.ids (timer.id :: s'.ids) := by
    rw [RBTreeTimer.ids, RBTreeTimer.ids, hone, hp', hset]
    exact (hperm.append_right _).map _
  have hnot : timer.id ∉ s'.ids := (List.nodup_cons.1 (hperm'.nodup_iff.1 h.nodup)).1
  have hlt : timer.id < s.added := h.mem_ids.1 (hperm'.mem_iff.2 List.mem_cons_self)
  exact hnot (mem_ids_iff.2 (hlost.kept timer.id (by omega)))

/-- The next expired timer runs: a one-shot timer is pending no more, and has run. -/
theorem run_kept (h : s.Kept) {now : ℤ} {timer : Timer} {rest : List Timer}
    (hpc : s.pc = .expired (timer :: rest)) (hpc' : s'.pc = .callback timer rest)
    (hadded : s'.added = s.added) (hran : s'.ran = s.ran ++ [(now, timer)])
    (hset : s'.m_timer = s.m_timer) : s'.Kept := by
  have hp : s.pending = s.m_timer ++ timer :: rest := by
    simp only [pending, todo, running, hpc, List.filter_nil, List.append_nil]
  have hp' : s'.pending = s.m_timer ++ rest ++ [timer].filter (·.m_repeat) := by
    simp only [pending, todo, running, hpc', hset]
  have hone : s'.oneShots = s.oneShots ++ [timer].filter (!·.m_repeat) := by
    rw [oneShots, oneShots, hran, List.map_append, List.filter_append]
    rfl
  have hsplit : List.Perm s.pending (timer :: (s.m_timer ++ rest)) := by
    rw [hp]
    exact List.perm_middle
  -- the timer is on one side or the other
  have hboth : List.Perm (s'.pending ++ s'.oneShots) (s.pending ++ s.oneShots) := by
    rw [hp', hone]
    by_cases hrep : timer.m_repeat = true
    · simp only [List.filter_cons, hrep, if_true, List.filter_nil, Bool.not_true,
        Bool.false_eq_true, if_false, List.append_nil]
      exact ((List.perm_append_singleton _ _).trans hsplit.symm).append_right _
    · simp only [List.filter_cons, hrep, List.filter_nil, Bool.not_false, if_true,
        Bool.false_eq_true, if_false, List.append_nil]
      rw [← List.append_assoc]
      exact (List.perm_append_singleton _ _).trans (hsplit.append_right _).symm
  refine ⟨by rw [hset]; exact h.sorted, ?_, fun x hx hr => ?_⟩
  · rw [hadded]
    exact (hboth.map _).trans h.ids
  · have hrepeats : ∀ t ∈ s.pending, t.m_repeat = true → t ∈ s'.pending := by
      intro t ht hr
      rw [hp] at ht
      rw [hp']
      rcases List.mem_append.1 ht with ht | ht
      · simp [ht]
      · rcases List.mem_cons.1 ht with rfl | ht
        · simp [hr]
        · simp [ht]
    rw [hran, List.mem_append, List.mem_singleton] at hx
    rcases hx with hx | rfl
    · obtain ⟨t, ht, hid, hrt⟩ := h.again x hx hr
      exact ⟨t, hrepeats t ht hrt, hid, hrt⟩
    · exact ⟨timer, hrepeats timer (by rw [hp]; simp) hr, rfl, hr⟩

/-- **One step** loses no timer exactly if it meets the condition. -/
theorem act_kept (h : s.Kept) {a : TimerStep} (hs : s.act a = some s') :
    (a.Distinct s ↔ s'.NoneLost) ∧ (a.Distinct s → s'.Kept) := by
  have htrue : ∀ {p : Prop}, p → s'.Kept → (p ↔ s'.NoneLost) ∧ (p → s'.Kept) :=
    fun hp hk => ⟨iff_of_true hp hk.noneLost, fun _ => hk⟩
  obtain ⟨hacts, -⟩ := act_cases hs
  cases hacts with
  | addTimer hpc hadded hran hset => exact addTimer_kept h hpc hadded hran hset
  | handleRead hpc hadded hran hread hset hpc' =>
    rw [KeySet.splitBelow_eq Timer.m_expiration h.sorted] at hset
    obtain ⟨htodo, hrest⟩ := Prod.mk.inj hset
    refine htrue trivial (h.of_perm ?_ hadded hran ?_)
    · rw [← hrest]
      exact h.sorted.sublist List.filter_sublist
    · have hrun : s'.running = [] := by rw [running, hpc']
      rw [pending_idle hpc, pending, hrun, ← htodo, ← hrest, List.filter_nil, List.append_nil]
      exact List.perm_append_comm.trans (List.filter_append_perm _ _)
  | readFails hpc hpc' hadded hran hread hset =>
    refine htrue trivial (h.of_perm (by rw [hset]; exact h.sorted) hadded hran ?_)
    rw [pending_idle hpc, pending_idle hpc', hset]
  | run hpc hpc' hadded hran hset => exact htrue trivial (run_kept h hpc hpc' hadded hran hset)
  | returned hpc hpc' hadded hran hset =>
    have := returned_kept h hpc hpc' hadded hran hset
    simpa only [TimerStep.Distinct, running, hpc, List.mem_singleton, forall_eq] using this
  | rearm hpc hpc' hadded hran hset =>
    refine htrue trivial (h.of_perm (by rw [hset]; exact h.sorted) hadded hran ?_)
    rw [pending_idle hpc', pending, hset]
    simp only [todo, running, hpc, List.filter_nil, List.append_nil]
    exact List.Perm.refl _

/-- **No timer is lost, exactly if none comes with an expiration that is already in the
set.** For every run of the timer queue, whatever the clock. -/
theorem none_lost_iff (clock : ℤ) (steps : List TimerStep) {s : RBTreeTimer}
    (hrun : run RBTreeTimer.act (new clock) steps = some s) :
    (∀ n s', run RBTreeTimer.act (new clock) (steps.take n) = some s' → s'.NoneLost) ↔
      Along RBTreeTimer.act (fun s a => a.Distinct s) (new clock) steps :=
  forall_run_iff_along (I := Kept) (fun _ h => h.noneLost) (fun _ _ _ h hs => act_kept h hs) steps
    (kept_new clock) hrun

/-- A repeating and a one-shot timer: the first runs, the second is added in its callback. -/
theorem none_lost_iff_repeating :
    ∃ s, run RBTreeTimer.act (new 0)
        [.addTimer 5000000 1000 true 0, .handleRead 5000100 5000200, .run 5000300,
          .addTimer 9000000 0 false 5000400, .returned 5000500, .rearm 5000600] = some s ∧
      s.NoneLost := by
  refine ⟨_, rfl, ?_⟩
  refine (none_lost_iff 0 [.addTimer 5000000 1000 true 0, .handleRead 5000100 5000200, .run 5000300,
    .addTimer 9000000 0 false 5000400, .returned 5000500, .rearm 5000600] rfl).2 ?_ 6 _ rfl
  decide

/-- Two timers with one expiration: the second is nowhere. -/
theorem none_lost_iff_equal :
    ∃ s, run RBTreeTimer.act (new 0)
        [.addTimer 5000000 0 false 0, .addTimer 5000000 0 false 100] = some s ∧ s.pc = .idle ∧
      s.added = 2 ∧ s.ran = [] ∧ s.m_timer.map Timer.id = [0] ∧ ¬s.NoneLost := by
  refine ⟨_, rfl, rfl, rfl, rfl, rfl, fun h => ?_⟩
  have := h.count
  revert this
  decide

/-! ## When the timers run -/

/-- The timers the queue has: in the set, expired, or running. -/
def held (s : RBTreeTimer) : List Timer := s.m_timer ++ s.todo ++ s.running

/-- A callback is not early, and a timer that runs again repeats and has waited. -/
structure InTime (ran : List (ℤ × Timer)) : Prop where
  due : ∀ x ∈ ran, x.2.m_expiration ≤ x.1
  apart : ran.Pairwise fun x y => x.2.id = y.2.id →
    x.2.m_repeat = true ∧ x.1 + x.2.m_interval * 1000 ≤ y.1

/-- What the queue knows about the timers it has and about the past runs. -/
structure Punctual (s : RBTreeTimer) : Prop where
  sorted : KeySet.Sorted Timer.m_expiration s.m_timer
  ids : (s.held.map Timer.id).Nodup
  bound : ∀ t ∈ s.held, t.id < s.added
  past : ∀ x ∈ s.ran, x.2.id < s.added ∧ x.1 ≤ s.clock
  /-- an expired timer is due -/
  expired : ∀ t ∈ s.todo, t.m_expiration ≤ s.clock
  inTime : InTime s.ran
  /-- a timer is the one that ran before, with another expiration -/
  same : ∀ x ∈ s.ran, ∀ t ∈ s.held, t.id = x.2.id →
    t.m_interval = x.2.m_interval ∧ t.m_repeat = x.2.m_repeat
  /-- a timer that ran before and is there again repeats, and has its interval to wait -/
  waits : ∀ x ∈ s.ran, ∀ t ∈ s.m_timer ++ s.todo, t.id = x.2.id →
    x.2.m_repeat = true ∧ x.1 + x.2.m_interval * 1000 ≤ t.m_expiration

theorem punctual_new (clock : ℤ) : (new clock).Punctual where
  sorted := List.Pairwise.nil
  ids := List.nodup_nil
  bound _ ht := by cases ht
  past _ hx := by cases hx
  expired _ ht := by cases ht
  inTime := ⟨fun _ hx => (by cases hx), List.Pairwise.nil⟩
  same _ hx := by cases hx
  waits _ hx := by cases hx

/-- A step of the clock. -/
theorem step_act {a : TimerStep} (h : s.step a = some s') :
    ({ s with clock := a.readings.2 } : RBTreeTimer).act a = some s' ∧
      s.clock ≤ a.readings.1 ∧ a.readings.1 ≤ a.readings.2 := by
  unfold RBTreeTimer.step at h
  split at h
  · rename_i hclock
    exact ⟨h, hclock⟩
  · cases h

/-- Time passes. -/
theorem Punctual.later (h : s.Punctual) {clock : ℤ} (hle : s.clock ≤ clock) :
    ({ s with clock := clock } : RBTreeTimer).Punctual :=
  { h with
    past := fun x hx => ⟨(h.past x hx).1, (h.past x hx).2.trans hle⟩
    expired := fun t ht => (h.expired t ht).trans hle }

theorem nodup_of_subperm {l l' : List Timer} (h : List.Subperm l l')
    (hl : (l'.map Timer.id).Nodup) : (l.map Timer.id).Nodup := by
  obtain ⟨m, hperm, hsub⟩ := h
  exact (hperm.map Timer.id).nodup_iff.1 ((hsub.map Timer.id).nodup hl)

/-- A step that moves timers around or drops them, and leaves the history alone. -/
theorem Punctual.of_subperm (h : s.Punctual)
    (hsorted : KeySet.Sorted Timer.m_expiration s'.m_timer) (hadded : s'.added = s.added)
    (hran : s'.ran = s.ran) (hclock : s'.clock = s.clock)
    (hheld : List.Subperm s'.held s.held)
    (hwait : ∀ t ∈ s'.m_timer ++ s'.todo, t ∈ s.m_timer ++ s.todo)
    (hexp : ∀ t ∈ s'.todo, t.m_expiration ≤ s.clock) : s'.Punctual where
  sorted := hsorted
  ids := nodup_of_subperm hheld h.ids
  bound t ht := hadded ▸ h.bound t (hheld.subset ht)
  past x hx := by
    rw [hadded, hclock]
    exact h.past x (hran ▸ hx)
  expired t ht := hclock ▸ hexp t ht
  inTime := hran ▸ h.inTime
  same x hx t ht := h.same x (hran ▸ hx) t (hheld.subset ht)
  waits x hx t ht := h.waits x (hran ▸ hx) t (hwait t ht)

/-- A step that ends outside of `handleRead` with the set as it was. -/
theorem Punctual.idle (h : s.Punctual) (hpc' : s'.pc = .idle) (hadded : s'.added = s.added)
    (hran : s'.ran = s.ran) (hset : s'.m_timer = s.m_timer) (hclock : s'.clock = s.clock) :
    s'.Punctual := by
  have htodo : s'.todo = [] := by rw [todo, hpc']
  have hrunning : s'.running = [] := by rw [running, hpc']
  refine h.of_subperm (by rw [hset]; exact h.sorted) hadded hran hclock ?_ (fun t ht => ?_) ?_
  · rw [held, htodo, hrunning, hset, List.append_nil, List.append_nil, held, List.append_assoc]
    exact (List.sublist_append_left _ _).subperm
  · rw [htodo, hset, List.append_nil] at ht
    exact List.mem_append_left _ ht
  · rw [htodo]
    exact fun t ht => absurd ht List.not_mem_nil

/-- A timer is inserted whose number no other has: a new one, or one that ran and has its
interval to wait. -/
theorem Punctual.insert (h : s.Punctual) {t : Timer}
    (hset : s'.m_timer = KeySet.insert Timer.m_expiration t s.m_timer) (hpc : s'.pc = s.pc)
    (hran : s'.ran = s.ran) (hclock : s'.clock = s.clock) (hadded : s.added ≤ s'.added)
    (hid : t.id < s'.added) (hfresh : ∀ u ∈ s.held, u.id ≠ t.id)
    (hsame : ∀ x ∈ s.ran, t.id = x.2.id →
      t.m_interval = x.2.m_interval ∧ t.m_repeat = x.2.m_repeat)
    (hwaits : ∀ x ∈ s.ran, t.id = x.2.id →
      x.2.m_repeat = true ∧ x.1 + x.2.m_interval * 1000 ≤ t.m_expiration) : s'.Punctual := by
  have htodo : s'.todo = s.todo := by rw [todo, todo, hpc]
  have hrunning : s'.running = s.running := by rw [running, running, hpc]
  have hheld : List.Subperm s'.held (t :: s.held) := by
    rw [held, htodo, hrunning, hset]
    have := KeySet.insert_subperm Timer.m_expiration (a := t) h.sorted
    exact (List.subperm_append_right _).2 ((List.subperm_append_right _).2 this)
  have hmem : ∀ u ∈ s'.m_timer, u = t ∨ u ∈ s.m_timer := by
    intro u hu
    rw [hset] at hu
    exact KeySet.insert_subset _ hu
  refine ⟨?_, nodup_of_subperm hheld ?_, fun u hu => ?_, fun x hx => ?_, ?_, hran ▸ h.inTime, ?_, ?_⟩
  · rw [hset]
    exact KeySet.insert_sorted _ h.sorted
  · refine List.nodup_cons.2 ⟨fun hin => ?_, h.ids⟩
    obtain ⟨u, hu, hid⟩ := List.mem_map.1 hin
    exact hfresh u hu hid
  · rcases List.mem_cons.1 (hheld.subset hu) with rfl | hu
    · exact hid
    · have := h.bound u hu
      omega
  · have := h.past x (hran ▸ hx)
    rw [hclock]
    exact ⟨by omega, this.2⟩
  · rw [htodo, hclock]
    exact h.expired
  · intro x hx u hu hux
    rcases List.mem_cons.1 (hheld.subset hu) with rfl | hu
    · exact hsame x (hran ▸ hx) hux
    · exact h.same x (hran ▸ hx) u hu hux
  · intro x hx u hu hux
    rw [List.mem_append, htodo] at hu
    rcases hu with hu | hu
    · rcases hmem u hu with rfl | hu
      · exact hwaits x (hran ▸ hx) hux
      · exact h.waits x (hran ▸ hx) u (List.mem_append_left _ hu) hux
    · exact h.waits x (hran ▸ hx) u (List.mem_append_right _ hu) hux

/-- The next expired timer runs. -/
theorem run_punctual (h : s.Punctual) {timer : Timer} {rest : List Timer}
    (hpc : s.pc = .expired (timer :: rest)) (hpc' : s'.pc = .callback timer rest)
    (hadded : s'.added = s.added) (hran : s'.ran = s.ran ++ [(s.clock, timer)])
    (hset : s'.m_timer = s.m_timer) (hclock : s'.clock = s.clock) : s'.Punctual := by
  have htodo : s.todo = timer :: rest := by rw [todo, hpc]
  have htodo' : s'.todo = rest := by rw [todo, hpc']
  have hheld : List.Perm s'.held (timer :: (s.m_timer ++ rest)) := by
    rw [held, htodo', running, hpc', hset]
    exact List.perm_append_singleton _ _
  have hheld' : List.Perm s.held (timer :: (s.m_timer ++ rest)) := by
    rw [held, htodo, running, hpc, List.append_nil]
    exact List.perm_middle
  have hperm := hheld.trans hheld'.symm
  have htimer : timer ∈ s.m_timer ++ s.todo := by rw [htodo]; simp
  have hdue : timer.m_expiration ≤ s.clock := h.expired timer (by rw [htodo]; simp)
  -- no other timer has its number
  have hother : ∀ t ∈ s.m_timer ++ rest, t.id ≠ timer.id := by
    have hnodup := (hheld'.map Timer.id).nodup_iff.1 h.ids
    intro t ht heq
    exact (List.nodup_cons.1 hnodup).1 (List.mem_map.2 ⟨t, ht, heq⟩)
  have hwait : ∀ t ∈ s'.m_timer ++ s'.todo, t ∈ s.m_timer ++ s.todo := by
    intro t ht
    rw [hset, htodo', List.mem_append] at ht
    rw [htodo, List.mem_append]
    exact ht.imp_right (List.mem_cons_of_mem _)
  have hcases : ∀ x ∈ s'.ran, x ∈ s.ran ∨ x = (s.clock, timer) := by
    intro x hx
    rw [hran] at hx
    simpa using hx
  refine ⟨by rw [hset]; exact h.sorted, (hperm.map _).nodup_iff.2 h.ids,
    fun t ht => ?_, fun x hx => ?_, fun t ht => ?_, ⟨fun x hx => ?_, ?_⟩, ?_, ?_⟩
  · rw [hadded]
    exact h.bound t (hperm.mem_iff.1 ht)
  · rw [hadded, hclock]
    rcases hcases x hx with hx | rfl
    · exact h.past x hx
    · exact ⟨h.bound timer (hheld'.mem_iff.2 List.mem_cons_self), le_refl _⟩
  · rw [hclock]
    exact h.expired t (by rw [htodo]; exact List.mem_cons_of_mem _ (htodo' ▸ ht))
  · rcases hcases x hx with hx | rfl
    · exact h.inTime.due x hx
    · exact hdue
  · rw [hran]
    refine List.pairwise_append.2 ⟨h.inTime.apart, List.pairwise_singleton _ _, fun x hx y hy hid => ?_⟩
    rw [List.mem_singleton] at hy
    subst hy
    obtain ⟨hrep, hle⟩ := h.waits x hx timer htimer hid.symm
    exact ⟨hrep, hle.trans hdue⟩
  · intro x hx t ht hid
    rcases hcases x hx with hx | rfl
    · exact h.same x hx t (hperm.mem_iff.1 ht) hid
    · rcases List.mem_cons.1 (hheld.mem_iff.1 ht) with rfl | ht
      · exact ⟨rfl, rfl⟩
      · exact absurd hid (hother t ht)
  · intro x hx t ht hid
    rcases hcases x hx with hx | rfl
    · exact h.waits x hx t (hwait t ht) hid
    · rw [hset, htodo'] at ht
      exact absurd hid (hother t ht)

/-- The callback returns, and a repeating timer goes back to the set. -/
theorem returned_punctual (h : s.Punctual) {timer : Timer} {rest : List Timer}
    (hpc : s.pc = .callback timer rest) (hpc' : s'.pc = .expired rest)
    (hadded : s'.added = s.added) (hran : s'.ran = s.ran) (hclock : s'.clock = s.clock)
    (hset : s'.m_timer = if timer.m_repeat then
      KeySet.insert Timer.m_expiration (timer.restart s.clock) s.m_timer else s.m_timer) :
    s'.Punctual := by
  have htodo : s.todo = rest := by rw [todo, hpc]
  have hheld : List.Perm s.held (timer :: (s.m_timer ++ rest)) := by
    rw [held, htodo, running, hpc]
    exact List.perm_append_singleton _ _
  have hmem : timer ∈ s.held := hheld.mem_iff.2 List.mem_cons_self
  -- the queue without the timer
  have hdrop : ({ s with pc := .expired rest } : RBTreeTimer).Punctual := by
    refine h.of_subperm h.sorted rfl rfl rfl ?_ (fun t ht => ?_) fun t ht => ?_
    · rw [held, todo, running, List.append_nil]
      exact (List.sublist_cons_self _ _).subperm.trans hheld.symm.subperm
    · rw [htodo]
      exact ht
    · exact h.expired t (by rw [htodo]; exact ht)
  by_cases hrep : timer.m_repeat = true
  · rw [if_pos hrep] at hset
    refine hdrop.insert hset hpc' hran hclock (le_of_eq hadded.symm) ?_ (fun u hu heq => ?_)
      (fun x hx => h.same x hx timer hmem) fun x hx hid => ?_
    · rw [hadded]
      exact h.bound timer hmem
    · have hnodup := (hheld.map Timer.id).nodup_iff.1 h.ids
      rw [held, todo, running, List.append_nil] at hu
      exact (List.nodup_cons.1 hnodup).1 (List.mem_map.2 ⟨u, hu, heq⟩)
    · -- the run that just ended began before the clock was read
      obtain ⟨hint, hrep'⟩ := h.same x hx timer hmem hid
      have hle := (h.past x hx).2
      refine ⟨hrep'.symm.trans hrep, ?_⟩
      simp only [Timer.restart, Timestamp.addTime, hint]
      omega
  · rw [if_neg hrep] at hset
    have htodo' : s'.todo = rest := by rw [todo, hpc']
    refine hdrop.of_subperm (by rw [hset]; exact h.sorted) hadded hran hclock ?_ ?_ ?_
    · rw [held, held, htodo', hset, running, hpc']
      exact List.Subperm.refl _
    · rw [htodo', hset]
      exact fun t ht => ht
    · rw [htodo']
      exact hdrop.expired

/-- **One step keeps the timers punctual.** -/
theorem step_punctual (h : s.Punctual) {a : TimerStep} (hs : s.step a = some s') :
    s'.Punctual := by
  obtain ⟨hact, hle₁, hle₂⟩ := step_act hs
  obtain ⟨hacts, hclock⟩ := act_cases hact
  have h := h.later (hle₁.trans hle₂)
  cases hacts with
  | addTimer hpc hadded hran hset =>
    refine h.insert hset hpc hran hclock (by rw [hadded]; exact Nat.le_succ _)
      (by rw [hadded]; exact Nat.lt_succ_self _) (fun u hu => (h.bound u hu).ne)
      (fun x hx hid => ?_) fun x hx hid => ?_
    -- the new timer has a new number
    · exact absurd hid (h.past x hx).1.ne'
    · exact absurd hid (h.past x hx).1.ne'
  | handleRead hpc hadded hran hread hset hpc' =>
    rw [KeySet.splitBelow_eq Timer.m_expiration h.sorted] at hset
    obtain ⟨htodo, hrest⟩ := Prod.mk.inj hset
    have hrun : s'.running = [] := by rw [running, hpc']
    refine h.of_subperm ?_ hadded hran hclock ?_ (fun t ht => ?_) fun t ht => ?_
    · rw [← hrest]
      exact h.sorted.sublist List.filter_sublist
    · rw [held, hrun, ← htodo, ← hrest, List.append_nil]
      refine (List.perm_append_comm.trans (List.filter_append_perm _ _)).subperm.trans ?_
      rw [held, List.append_assoc]
      exact (List.sublist_append_left _ _).subperm
    · rw [← htodo, ← hrest, List.mem_append, List.mem_filter, List.mem_filter] at ht
      exact List.mem_append_left _ (ht.elim And.left And.left)
    · rw [← htodo, List.mem_filter, decide_eq_true_iff] at ht
      exact ht.2.le
  | readFails hpc hpc' hadded hran hread hset =>
    exact h.idle hpc' hadded hran hset hclock
  | run hpc hpc' hadded hran hset => exact run_punctual h hpc hpc' hadded hran hset hclock
  | returned hpc hpc' hadded hran hset => exact returned_punctual h hpc hpc' hadded hran hclock hset
  | rearm hpc hpc' hadded hran hset => exact h.idle hpc' hadded hran hset hclock

/-! ## One `handleRead` -/

/-- Up to its end, `handleRead` runs the expired timers one after the other. -/
theorem step_batch {a : TimerStep} (hpc : s.pc ≠ .idle) (ha : ∀ now, a ≠ .rearm now)
    (hs : s.step a = some s') :
    s'.pc ≠ .idle ∧ s'.ran.map Prod.snd ++ s'.todo = s.ran.map Prod.snd ++ s.todo := by
  obtain ⟨hacts, -⟩ := act_cases (step_act hs).1
  cases hacts with
  | addTimer hpc' hadded hran hset =>
    refine ⟨fun hi => hpc (hpc'.symm.trans hi), ?_⟩
    rw [hran, todo, hpc', ← todo]
    rfl
  | handleRead hidle => exact absurd hidle hpc
  | readFails hidle => exact absurd hidle hpc
  | @run _ timer rest hpc₁ hpc' hadded hran hset =>
    have htodo : s.todo = timer :: rest := by rw [todo, hpc₁]
    refine ⟨by rw [hpc']; simp, ?_⟩
    rw [hran, htodo, todo, hpc', List.map_append, List.append_assoc]
    rfl
  | @returned _ timer rest hpc₁ hpc' hadded hran hset =>
    have htodo : s.todo = rest := by rw [todo, hpc₁]
    refine ⟨by rw [hpc']; simp, ?_⟩
    rw [hran, htodo, todo, hpc']
  | rearm => exact absurd rfl (ha _)

/-- The batch under way can be run to its end. -/
def Ends (s : RBTreeTimer) : Prop :=
  ∃ more s', (∀ now, TimerStep.rearm now ∉ more) ∧ run RBTreeTimer.step s more = some s' ∧
    s'.pc = .expired []

theorem Ends.of_step {a : TimerStep} {s' : RBTreeTimer} (ha : ∀ now, a ≠ .rearm now)
    (hstep : s.step a = some s') (h : s'.Ends) : s.Ends := by
  obtain ⟨more, s₂, hno, hmore, hend⟩ := h
  refine ⟨a :: more, s₂, fun now hm => ?_, ?_, hend⟩
  · rcases List.mem_cons.1 hm with h | hm
    · exact ha now h.symm
    · exact hno now hm
  · rw [run, hstep]
    exact hmore

/-- A callback that returns leaves the rest of the batch to be run. -/
theorem step_returned {timer : Timer} {rest : List Timer} (hpc : s.pc = .callback timer rest) :
    ∃ s', s.step (.returned s.clock) = some s' ∧ s'.pc = .expired rest := by
  refine ⟨_, by simp [RBTreeTimer.step, TimerStep.readings, act, hpc]; rfl, ?_⟩
  unfold handleRepeatTimer
  split <;> rfl

theorem ends_of_expired (rest : List Timer) :
    ∀ s : RBTreeTimer, s.pc = .expired rest → s.Ends := by
  induction rest with
  | nil => exact fun s h => ⟨[], s, fun _ hm => absurd hm List.not_mem_nil, rfl, h⟩
  | cons timer rest ih =>
    intro s h
    set s₁ : RBTreeTimer :=
      { s with pc := .callback timer rest, ran := s.ran ++ [(s.clock, timer)] } with hs₁
    have hrun : s.step (.run s.clock) = some s₁ := by
      simp [RBTreeTimer.step, TimerStep.readings, act, h, hs₁]
    have hpc₁ : s₁.pc = .callback timer rest := rfl
    obtain ⟨s₂, hret, hpc₂⟩ := step_returned hpc₁
    exact Ends.of_step (fun _ h => by cases h) hrun
      (Ends.of_step (fun _ h => by cases h) hret (ih s₂ hpc₂))

/-- `handleRead` comes to its end once the callbacks return. -/
theorem batch_ends (hpc : s.pc ≠ .idle) : s.Ends := by
  cases hs : s.pc with
  | idle => exact absurd hs hpc
  | expired rest => exact ends_of_expired rest s hs
  | callback timer rest =>
    -- the callback under way returns first
    obtain ⟨s₂, hret, hpc₂⟩ := step_returned hs
    exact Ends.of_step (fun _ h => by cases h) hret (ends_of_expired rest s₂ hpc₂)

/-- **Timers fire soundly.** In every run, under every clock that does not go back: no
callback is early, a timer that runs again is a repeating one and has waited its interval,
and the set stays strictly sorted. A `handleRead` that sampled `now` runs the timers that
expired before `now`, in the order of their expirations, and all of them by its end. -/
theorem timers_fire_soundly (clock : ℤ) (steps : List TimerStep) {s : RBTreeTimer}
    (hrun : run RBTreeTimer.step (new clock) steps = some s) :
    (∀ x ∈ s.ran, x.2.m_expiration ≤ x.1) ∧
      s.ran.Pairwise (fun x y => x.2.id = y.2.id →
        x.2.m_repeat = true ∧ x.1 + x.2.m_interval * 1000 ≤ y.1) ∧
      KeySet.Sorted Timer.m_expiration s.m_timer ∧
      ∀ read now s₁ rest s₂, s.step (.handleRead read now) = some s₁ →
        s.m_timer_fd.readable read = true → (∀ t, TimerStep.rearm t ∉ rest) →
        run RBTreeTimer.step s₁ rest = some s₂ →
        KeySet.Sorted Timer.m_expiration (s.m_timer.filter (·.m_expiration < now)) ∧
          s₂.ran.map Prod.snd ++ s₂.todo =
            s.ran.map Prod.snd ++ s.m_timer.filter (·.m_expiration < now) ∧
          ∃ more s₃, (∀ t, TimerStep.rearm t ∉ more) ∧ run RBTreeTimer.step s₂ more = some s₃ ∧
            s₃.pc = .expired [] := by
  have h : s.Punctual :=
    run_inv (fun _ _ _ h hs => step_punctual h hs) (punctual_new clock) hrun
  refine ⟨h.inTime.due, h.inTime.apart, h.sorted, ?_⟩
  intro read now s₁ rest s₂ hstep hread hno hrest
  -- the timers taken out of the set are those that expired before `now`
  obtain ⟨hpc₁, hran₁, htodo₁⟩ : s₁.pc ≠ .idle ∧ s₁.ran = s.ran ∧
      s₁.todo = s.m_timer.filter (·.m_expiration < now) := by
    obtain ⟨hacts, -⟩ := act_cases (step_act hstep).1
    cases hacts with
    | handleRead _ _ hran _ hset hpc' =>
      rw [KeySet.splitBelow_eq Timer.m_expiration h.sorted] at hset
      exact ⟨by rw [hpc']; simp, hran, (Prod.mk.inj hset).1.symm⟩
    | readFails _ _ _ _ hfail => exact absurd (hread.symm.trans hfail) (by simp)
  have hnot : ∀ a ∈ rest, ∀ t, a ≠ TimerStep.rearm t := by
    rintro a ha t rfl
    exact hno t ha
  obtain ⟨hpc₂, hbatch⟩ := run_inv_along
    (I := fun u => u.pc ≠ .idle ∧ u.ran.map Prod.snd ++ u.todo = s₁.ran.map Prod.snd ++ s₁.todo)
    (C := fun _ a => ∀ t, a ≠ .rearm t)
    (fun u a u' hu ha hs => by
      obtain ⟨h1, h2⟩ := step_batch hu.1 ha hs
      exact ⟨h1, h2.trans hu.2⟩)
    rest ⟨hpc₁, rfl⟩ (along_of_forall s₁ hnot) hrest
  rw [hran₁, htodo₁] at hbatch
  exact ⟨h.sorted.sublist List.filter_sublist, hbatch, batch_ends hpc₂⟩

/-- A repeating timer runs, its callback adds another timer, and the next `handleRead` runs
both in order. -/
theorem timers_fire_soundly_twice :
    ∃ s, run RBTreeTimer.step (new 0)
        [.addTimer 5000000 1000 true 0, .handleRead 5000100 5000200, .run 5000300,
          .addTimer 5500000 0 false 5000400, .returned 5000500, .rearm 5000600] = some s ∧
      ∃ s₁, s.step (.handleRead 7000000 7000000) = some s₁ ∧
        ∃ s₂, run RBTreeTimer.step s₁ [.run 7000001, .returned 7000002, .run 7000003,
            .returned 7000004] = some s₂ ∧ s₂.pc = .expired [] ∧
          s₂.ran.map Prod.snd ++ s₂.todo =
            s.ran.map Prod.snd ++ s.m_timer.filter (·.m_expiration < 7000000) := by
  refine ⟨_, rfl, _, rfl, _, rfl, rfl, ?_⟩
  exact ((timers_fire_soundly 0 [.addTimer 5000000 1000 true 0, .handleRead 5000100 5000200,
    .run 5000300, .addTimer 5500000 0 false 5000400, .returned 5000500, .rearm 5000600] rfl).2.2.2
    7000000 7000000 _ [.run 7000001, .returned 7000002, .run 7000003, .returned 7000004] _ rfl
    (by decide) (by simp) rfl).2.1

end RBTreeTimer

end MyMuduo
