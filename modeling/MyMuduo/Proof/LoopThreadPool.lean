import MyMuduo.Lib.RoundRobin
import MyMuduo.Spec.LoopThreadPool

/-!
# The choice of loops

* `Keeps`: the side condition. A call of `getNextLoop` that finds worker loops takes the next
  index modulo their number, whatever number `m_thread_num` is.
* `LoopPoolOk`: the invariant. The index is inside of `m_loops`, and since `start()` has returned
  the loops were given out in turn.
* `step_loopPoolOk`: one step keeps it.
* `loops_fair`: **in every run whose steps meet the condition no index is out of range, nothing is
  divided by zero, and after `start()` any round of calls takes every loop once.**
-/

namespace MyMuduo

open Lib

namespace LoopThreadPool

variable {s s' : LoopThreadPool} {a : LoopPoolStep}

/-- If `getNextLoop()` finds worker loops, `m_thread_num` leads the index where their number
would. -/
def Keeps (s : LoopThreadPool) (a : LoopPoolStep) : Prop :=
  a = .getNextLoop → s.m_loops = [] ∨ s.m_thread_num ≠ 0 ∧
    (s.m_next_loop_index + 1) % s.m_thread_num = (s.m_next_loop_index + 1) % s.m_loops.length

instance (s : LoopThreadPool) (a : LoopPoolStep) : Decidable (s.Keeps a) :=
  inferInstanceAs (Decidable (_ → _ ∨ _ ∧ _))

/-- The loops given out since `start()` has returned. -/
def given (s : LoopThreadPool) : List (Option ℕ) := s.picks.map Prod.fst

/-- **The invariant of the pool.** -/
structure LoopPoolOk (s : LoopThreadPool) : Prop where
  fault : s.fault = none
  nodup : s.m_loops.Nodup
  workers : ∀ w ∈ s.m_loops, w < s.m_threads
  index : s.m_loops ≠ [] → s.m_next_loop_index < s.m_loops.length
  fresh : s.m_loops = [] → s.m_next_loop_index = 0
  idle : s.pc = .idle → s.m_threads = 0
  create : s.pc = .create → s.m_threads ≤ s.m_thread_num
  wait : s.pc = .wait → s.m_threads = s.m_thread_num
  base : ∀ p ∈ s.early ++ s.picks, p.1 = none ↔ p.2 = 0
  before : s.pc ≠ .returned → s.picks = []
  all : s.pc = .returned → s.m_loops.length = s.m_threads
  turn : s.pc = .returned → s.m_loops ≠ [] →
    ∃ i, s.given = around (s.m_loops.map some) i s.picks.length ∧
      s.m_next_loop_index = (i + s.picks.length) % s.m_loops.length

theorem new_loopPoolOk : new.LoopPoolOk where
  fault := rfl
  nodup := List.nodup_nil
  workers := by intro w hw; simp [new] at hw
  index := by intro h; simp [new] at h
  fresh := fun _ => rfl
  idle := fun _ => rfl
  create := by intro h; simp [new] at h
  wait := by intro h; simp [new] at h
  base := by intro p hp; simp [new] at hp
  before := fun _ => rfl
  all := by intro h; simp [new] at h
  turn := by intro h; simp [new] at h

/-- All workers have published their loops. -/
theorem LoopPoolOk.perm (h : s.LoopPoolOk) (hlen : s.m_loops.length = s.m_threads) :
    s.m_loops.Perm (List.range s.m_threads) := by
  have hsub : s.m_loops.Subperm (List.range s.m_threads) :=
    List.subperm_of_subset h.nodup fun w hw => List.mem_range.2 (h.workers w hw)
  exact hsub.perm_of_length_le (by rw [List.length_range, hlen])

/-- There is nothing to publish before `start()` has created a worker, or once it has returned. -/
theorem LoopPoolOk.starting (h : s.LoopPoolOk) {w : ℕ} (hw : w < s.m_threads)
    (hnew : w ∉ s.m_loops) : s.pc = .create ∨ s.pc = .wait := by
  cases hpc : s.pc with
  | idle =>
    have := h.idle hpc
    omega
  | create => exact .inl rfl
  | wait => exact .inr rfl
  | returned =>
    have hmem := (h.perm (h.all hpc)).mem_iff.2 (List.mem_range.2 hw)
    exact absurd hmem hnew

theorem LoopPoolOk.publish (h : s.LoopPoolOk) {w : ℕ} (hw : w < s.m_threads) (hnew : w ∉ s.m_loops) :
    { s with m_loops := s.m_loops ++ [w] }.LoopPoolOk := by
  have hpc : s.pc ≠ .returned := by
    rcases h.starting hw hnew with hpc | hpc <;> rw [hpc] <;> decide
  have hindex : s.m_next_loop_index ≤ s.m_loops.length := by
    by_cases hloops : s.m_loops = []
    · rw [h.fresh hloops]; exact Nat.zero_le _
    · exact (h.index hloops).le
  exact
    { fault := h.fault
      nodup := List.nodup_append_comm.1 (List.nodup_cons.2 ⟨hnew, h.nodup⟩)
      workers := by
        intro v hv
        rcases List.mem_append.1 hv with hv | hv
        · exact h.workers v hv
        · rw [List.mem_singleton.1 hv]; exact hw
      index := by
        intro _
        simp only [List.length_append, List.length_singleton]
        omega
      fresh := by intro h0; simp at h0
      idle := h.idle
      create := h.create
      wait := h.wait
      base := h.base
      before := h.before
      all := fun h0 => absurd h0 hpc
      turn := fun h0 => absurd h0 hpc }

/-- A call that returns is noted, and nothing else changes. -/
theorem give_cases (s : LoopThreadPool) (loop : Option ℕ) :
    s.pc = .returned ∧ s.give loop = { s with picks := s.picks ++ [(loop, s.m_loops.length)] } ∨
      s.pc ≠ .returned ∧ s.give loop = { s with early := s.early ++ [(loop, s.m_loops.length)] } := by
  rw [give]
  by_cases hpc : s.pc = .returned
  · rw [if_pos hpc]; exact .inl ⟨hpc, rfl⟩
  · rw [if_neg hpc]; exact .inr ⟨hpc, rfl⟩

/-- The results are the base loop exactly where there is no worker loop. -/
theorem LoopPoolOk.given_base (h : s.LoopPoolOk) {loop : Option ℕ} {early picks : List (Option ℕ × ℕ)}
    (hloop : loop = none ↔ s.m_loops.length = 0)
    (hsub : ∀ p ∈ early ++ picks, p ∈ s.early ++ s.picks ∨ p = (loop, s.m_loops.length)) :
    ∀ p ∈ early ++ picks, p.1 = none ↔ p.2 = 0 := by
  intro p hp
  rcases hsub p hp with hp | hp
  · exact h.base p hp
  · rw [hp]; exact hloop

/-- **No worker loop**: the base loop is returned. -/
theorem LoopPoolOk.giveBase (h : s.LoopPoolOk) (hloops : s.m_loops = []) :
    (s.give none).LoopPoolOk := by
  have hlen : s.m_loops.length = 0 := by rw [hloops]; rfl
  rcases s.give_cases none with ⟨hpc, hgive⟩ | ⟨hpc, hgive⟩
  · rw [hgive]
    exact { h with
      base := h.given_base (iff_of_true rfl hlen) (by simp; tauto)
      before := fun h0 => absurd hpc h0
      turn := fun _ h0 => absurd hloops h0 }
  · rw [hgive]
    exact { h with
      base := h.given_base (iff_of_true rfl hlen) (by simp; tauto)
      turn := fun _ h0 => absurd hloops h0 }

/-- **A worker loop**: the next one in turn. -/
theorem LoopPoolOk.giveWorker (h : s.LoopPoolOk) {w : ℕ} (hw : s.m_loops[s.m_next_loop_index]? = some w)
    {index : ℕ} (hindex : index = (s.m_next_loop_index + 1) % s.m_loops.length) :
    { s.give (some w) with m_next_loop_index := index }.LoopPoolOk := by
  have hlt : s.m_next_loop_index < s.m_loops.length := (List.getElem?_eq_some_iff.1 hw).1
  have hne : s.m_loops ≠ [] := List.ne_nil_of_length_pos (by omega)
  have hin : index < s.m_loops.length := by
    rw [hindex]
    exact Nat.mod_lt _ (by omega)
  have hloop : (some w : Option ℕ) = none ↔ s.m_loops.length = 0 := by
    refine iff_of_false (by simp) (by omega)
  rcases s.give_cases (some w) with ⟨hpc, hgive⟩ | ⟨hpc, hgive⟩
  · rw [hgive]
    obtain ⟨i, hgiven, hturn⟩ := h.turn hpc hne
    exact { h with
      index := fun _ => hin
      fresh := fun h0 => absurd h0 hne
      base := h.given_base hloop (by simp; tauto)
      before := fun h0 => absurd hpc h0
      turn := by
        intro _ _
        refine ⟨i, ?_, ?_⟩
        · have hnext : (s.m_loops.map some)[(i + s.picks.length) % (s.m_loops.map some).length]? =
              some (some w) := by
            rw [List.length_map, ← hturn, List.getElem?_map, hw]
            rfl
          change (s.picks ++ [(some w, s.m_loops.length)]).map Prod.fst = _
          rw [List.map_append, List.length_append, List.length_singleton, around_succ hnext, ← hgiven]
          rfl
        · change index = (i + (s.picks ++ [(some w, s.m_loops.length)]).length) % s.m_loops.length
          rw [hindex, hturn, List.length_append, List.length_singleton, Nat.mod_add_mod]
          rfl }
  · rw [hgive]
    exact { h with
      index := fun _ => hin
      fresh := fun h0 => absurd h0 hne
      base := h.given_base hloop (by simp; tauto)
      turn := fun h0 => absurd h0 hpc }

theorem LoopPoolOk.getNextLoop (h : s.LoopPoolOk) (hk : s.Keeps .getNextLoop) :
    s.getNextLoop.LoopPoolOk := by
  rw [LoopThreadPool.getNextLoop]
  by_cases hloops : s.m_loops = []
  · rw [if_pos hloops]
    exact h.giveBase hloops
  · obtain ⟨hnum, hmod⟩ := (hk rfl).resolve_left hloops
    have hw := List.getElem?_eq_getElem (h.index hloops)
    rw [if_neg hloops, hw]
    simp only [if_neg hnum]
    exact h.giveWorker hw hmod

theorem LoopPoolOk.next (h : s.LoopPoolOk) (hs : s.next = some s') : s'.LoopPoolOk := by
  rw [LoopThreadPool.next] at hs
  cases hpc : s.pc with
  | idle => rw [hpc] at hs; cases hs
  | returned => rw [hpc] at hs; cases hs
  | create =>
    rw [hpc] at hs
    have hle := h.create hpc
    have hrest : s.pc ≠ .returned := by rw [hpc]; decide
    by_cases hlt : s.m_threads < s.m_thread_num
    · rw [← Option.some_inj.1 hs, if_pos hlt]
      exact { h with
        workers := fun w hw => Nat.lt_succ_of_lt (h.workers w hw)
        idle := by intro h0; cases h0
        create := fun _ => hlt
        wait := by intro h0; cases h0
        before := fun _ => h.before hrest
        all := by intro h0; cases h0
        turn := by intro h0; cases h0 }
    · rw [← Option.some_inj.1 hs, if_neg hlt]
      exact { h with
        idle := by intro h0; cases h0
        create := by intro h0; cases h0
        wait := fun _ => le_antisymm hle (Nat.le_of_not_lt hlt)
        before := fun _ => h.before hrest
        all := by intro h0; cases h0
        turn := by intro h0; cases h0 }
  | wait =>
    rw [hpc] at hs
    have hnum := h.wait hpc
    have hpicks := h.before (by rw [hpc]; decide)
    by_cases hlen : s.m_loops.length = s.m_thread_num
    · simp only [if_pos hlen, Option.some_inj] at hs
      subst hs
      exact { h with
        idle := by intro h0; cases h0
        create := by intro h0; cases h0
        wait := by intro h0; cases h0
        before := fun h0 => absurd rfl h0
        all := fun _ => hlen.trans hnum.symm
        turn := by
          -- the first loop given out is that of the index
          intro _ hne
          refine ⟨s.m_next_loop_index, ?_, ?_⟩
          · change s.picks.map Prod.fst = _
            rw [hpicks]
            rfl
          · change s.m_next_loop_index = (s.m_next_loop_index + s.picks.length) % s.m_loops.length
            rw [hpicks, List.length_nil, Nat.add_zero, Nat.mod_eq_of_lt (h.index hne)] }
    · simp only [if_neg hlen] at hs
      cases hs

/-- **One step keeps the invariant.** -/
theorem step_loopPoolOk (h : s.LoopPoolOk) (hk : s.Keeps a) (hs : s.step a = some s') :
    s'.LoopPoolOk := by
  rw [step, if_pos h.fault] at hs
  cases a with
  | setThreadNum n =>
    rw [act] at hs
    split at hs
    · rename_i hpc
      cases hs
      -- the number counts only inside of `start()`
      exact { h with
        create := by intro h0; rcases hpc with hpc | hpc <;> rw [h0] at hpc <;> cases hpc
        wait := by intro h0; rcases hpc with hpc | hpc <;> rw [h0] at hpc <;> cases hpc }
    · cases hs
  | start =>
    rw [act] at hs
    split at hs
    · rename_i hpc
      cases hs
      have h0 := h.idle hpc
      exact { h with
        idle := by intro h1; cases h1
        create := fun _ => by rw [h0]; exact Nat.zero_le _
        wait := by intro h1; cases h1
        before := fun _ => h.before (by rw [hpc]; decide)
        all := by intro h1; cases h1
        turn := by intro h1; cases h1 }
    · cases hs
  | next =>
    exact h.next hs
  | publish w =>
    rw [act] at hs
    split at hs
    · rename_i hw
      cases hs
      exact h.publish hw.1 hw.2
    · cases hs
  | getNextLoop =>
    cases hs
    exact h.getNextLoop hk

/-- What the choice of loops promises: no index was out of range and nothing divided by zero; a
call returned the base loop exactly if there was no worker loop; and when `start()` has returned,
all workers have published their loops, and as many calls in a row as there are loops returned
each of them once. -/
structure Fair (s : LoopThreadPool) : Prop where
  fault : s.fault = none
  base : ∀ p ∈ s.early ++ s.picks, p.1 = none ↔ p.2 = 0
  loops : s.pc = .returned → s.m_loops.Perm (List.range s.m_threads)
  rounds : s.pc = .returned → ∀ j, j + s.m_loops.length ≤ s.picks.length →
    ((s.given.drop j).take s.m_loops.length).Perm (s.m_loops.map some)

theorem LoopPoolOk.fair (h : s.LoopPoolOk) : s.Fair where
  fault := h.fault
  base := h.base
  loops := fun hpc => h.perm (h.all hpc)
  rounds := by
    intro hpc j hj
    by_cases hne : s.m_loops = []
    · rw [hne]
      exact List.Perm.refl _
    · obtain ⟨i, hgiven, -⟩ := h.turn hpc hne
      have hlen : (s.m_loops.map some).length = s.m_loops.length := List.length_map _
      rw [hgiven, ← hlen]
      exact around_window (by rw [hlen]; exact hj)

/-- **The choice of loops is safe and fair** in every run whose calls of `getNextLoop` meet the
condition, whatever the order of the calls and of the workers. -/
theorem loops_fair (steps : List LoopPoolStep) (s : LoopThreadPool)
    (h : run step new steps = some s) (hk : Along step Keeps new steps) : s.Fair := by
  have hok : s.LoopPoolOk :=
    run_inv_along (I := LoopPoolOk) (fun _ _ _ hI hC hs => step_loopPoolOk hI hC hs) steps
      new_loopPoolOk hk h
  exact hok.fair

/-- Two workers that publish in the other order, and three calls. -/
def twoWorkers : List LoopPoolStep :=
  [.getNextLoop, .setThreadNum 2, .start, .next, .next, .next, .publish 1, .publish 0, .next,
    .getNextLoop, .getNextLoop, .getNextLoop]

theorem loops_fair_two :
    ∃ s, run step new twoWorkers = some s ∧ s.Fair ∧ s.given = [some 1, some 0, some 1] :=
  ⟨_, rfl, loops_fair twoWorkers _ rfl (by decide), by decide⟩

/-- Another number after `start()`: with none the remainder is by zero, with a greater one the
index leaves `m_loops`. -/
theorem loops_unsafe :
    (run step new [.setThreadNum 1, .start, .next, .next, .publish 0, .next, .setThreadNum 0,
        .getNextLoop]).map fault = some (some .divideByZero) ∧
      (run step new [.setThreadNum 1, .start, .next, .next, .publish 0, .next, .setThreadNum 2,
        .getNextLoop, .getNextLoop]).map fault = some (some .outOfRange) := by
  decide

end LoopThreadPool

end MyMuduo
