import MyMuduo.Spec.ThreadPool

/-!
# What the pool runs before it is shut down

The list hands the tasks out in the order of the appends (`Queued`), each to one worker, which calls it
and comes back for the next (`Handed`). A worker that finds `m_stop` set leaves, also when tasks are
left in the list; and since it calls a task after it has unlocked the mutex, two workers may overtake
each other on the way.

* `PoolOk`: the invariant. `step_poolOk`: every step keeps it.
* `shutdown_completes`: **what was appended before the call and taken before `m_stop` was set has been
  run once when `shutdown()` returns**, and the workers take the tasks in the order of the appends.
-/

namespace MyMuduo

open Lib

namespace ThreadPool

variable {s s' : ThreadPool} {w t : ℕ}

/-- The tasks that were called, in order. -/
def calls (s : ThreadPool) : List ℕ := s.started.map Prod.snd

/-- `m_stop` was set by the call. -/
def stopping (s : ThreadPool) : Prop := s.pc ≠ .idle ∧ s.pc ≠ .store

/-- **The list**: the tasks leave it in the order they come. -/
structure Queued (s : ThreadPool) : Prop where
  order : s.taken ++ s.m_taskList = List.range s.appended
  returned : ∀ t ∈ s.returned, t < s.appended
  before : ∀ t ∈ s.before, t < s.appended

/-- How many workers are there. -/
def count (s : ThreadPool) (pc : WorkerPc) : ℕ :=
  ∑ w ∈ Finset.range s.m_thread_number, if s.workers w = pc then 1 else 0

/-- **The workers**: a task that was taken is with one worker, or was called; one that was called is
being run, or is finished. Each worker calls its tasks in the order of the list. -/
structure Handed (s : ThreadPool) : Prop where
  taken : ∀ t, s.taken.count t = s.calls.count t + s.count (.taken t)
  called : ∀ t, s.calls.count t = s.finished.count t + s.count (.running t)
  worker : ∀ x ∈ s.started, x.1 < s.m_thread_number
  inOrder : ∀ w, ((s.started.filter (·.1 = w)).map Prod.snd).Pairwise (· < ·)
  newest : ∀ w t, s.workers w = .taken t → ∀ t', (w, t') ∈ s.started → t' < t

/-- **The call of `shutdown()`**: what it found, and whom it has waited for. -/
structure Stopping (s : ThreadPool) : Prop where
  stop : s.m_stop = true ↔ s.stopping
  left : s.stopping → ∀ t ∈ s.before, t ∈ s.left ∨ t ∈ s.taken
  joined : ∀ i, s.pc = .join i → ∀ w, w < i → s.workers w = .exited
  returned : s.pc = .returned → ∀ w, w < s.m_thread_number → s.workers w = .exited

/-- What holds between the steps. -/
structure PoolOk (s : ThreadPool) : Prop where
  list : s.Queued
  workers : s.Handed
  call : s.Stopping

theorem start_poolOk (n : ℕ) : (start n).PoolOk where
  list := ⟨rfl, fun t ht => absurd ht List.not_mem_nil, fun t ht => absurd ht List.not_mem_nil⟩
  workers := by
    have hnone : ∀ pc, pc ≠ .lock → (start n).count pc = 0 := by
      intro pc hpc
      refine Finset.sum_eq_zero fun w _ => ?_
      exact if_neg (Ne.symm hpc)
    refine ⟨fun t => ?_, fun t => ?_, ?_, ?_, ?_⟩
    · rw [hnone _ (by simp)]; rfl
    · rw [hnone _ (by simp)]; rfl
    · simp [start]
    · simp [start]
    · simp [start]
  call := by
    constructor <;> simp [start, stopping]

/-- The next task of the list is the next in the order of the appends. -/
theorem Queued.next (h : s.Queued) {rest : List ℕ} (hl : s.m_taskList = t :: rest) :
    (∀ t' ∈ s.taken, t' < t) ∧ s.taken ++ [t] ++ rest = List.range s.appended := by
  have horder := h.order
  rw [hl] at horder
  have hsorted : (s.taken ++ t :: rest).Pairwise (· < ·) := by
    rw [horder]
    exact List.pairwise_lt_range
  refine ⟨fun t' ht' => ?_, by rw [← horder]; simp⟩
  exact (List.pairwise_append.1 hsorted).2.2 t' ht' t List.mem_cons_self

/-! ## The workers -/

theorem setWorker_self (s : ThreadPool) (w : ℕ) (pc : WorkerPc) : (s.setWorker w pc).workers w = pc :=
  Function.update_self _ _ _

theorem setWorker_other (s : ThreadPool) {w w' : ℕ} (h : w' ≠ w) (pc : WorkerPc) :
    (s.setWorker w pc).workers w' = s.workers w' := Function.update_of_ne h _ _

theorem setWorker_cases {w' : ℕ} {pc pc' : WorkerPc} (h : (s.setWorker w pc).workers w' = pc') :
    w' = w ∧ pc = pc' ∨ w' ≠ w ∧ s.workers w' = pc' := by
  by_cases hw : w' = w
  · rw [hw, setWorker_self] at h
    exact Or.inl ⟨hw, h⟩
  · rw [setWorker_other s hw] at h
    exact Or.inr ⟨hw, h⟩

/-- One worker moves. -/
theorem count_setWorker (hw : w < s.m_thread_number) (pc' pc : WorkerPc) :
    (s.setWorker w pc').count pc + (if s.workers w = pc then 1 else 0) =
      s.count pc + if pc' = pc then 1 else 0 := by
  have hmem : w ∈ Finset.range s.m_thread_number := Finset.mem_range.2 hw
  -- the other workers are where they were
  have hrest :
      ∑ i ∈ (Finset.range s.m_thread_number).erase w, (if (s.setWorker w pc').workers i = pc then 1 else 0) =
      ∑ i ∈ (Finset.range s.m_thread_number).erase w, if s.workers i = pc then 1 else 0 := by
    refine Finset.sum_congr rfl fun i hi => ?_
    simp only [setWorker_other s (Finset.ne_of_mem_erase hi)]
  have hnew : (s.setWorker w pc').count pc = _ := (Finset.add_sum_erase _ _ hmem).symm
  have hold : s.count pc = _ := (Finset.add_sum_erase _ _ hmem).symm
  rw [hnew, hold]
  simp only [hrest, setWorker_self]
  omega

/-- No worker moves. -/
theorem Handed.congr (h : s.Handed) (hworkers : s'.workers = s.workers)
    (hnumber : s'.m_thread_number = s.m_thread_number) (htaken : s'.taken = s.taken)
    (hstarted : s'.started = s.started) (hfinished : s'.finished = s.finished) : s'.Handed := by
  have hcount : ∀ pc, s'.count pc = s.count pc := fun pc => by rw [count, count, hworkers, hnumber]
  have hcalls : s'.calls = s.calls := by rw [calls, calls, hstarted]
  refine ⟨fun t => ?_, fun t => ?_, ?_, ?_, ?_⟩
  · rw [htaken, hcalls, hcount]
    exact h.taken t
  · rw [hcalls, hfinished, hcount]
    exact h.called t
  · rw [hstarted, hnumber]
    exact h.worker
  · rw [hstarted]
    exact h.inOrder
  · rw [hworkers, hstarted]
    exact h.newest

/-- The worker is between its tasks. -/
def Free (pc : WorkerPc) : Prop := ∀ t, pc ≠ .taken t ∧ pc ≠ .running t

/-- A worker moves on without a task. -/
theorem Handed.setWorker (h : s.Handed) (hw : w < s.m_thread_number) {pc : WorkerPc} (h1 : Free (s.workers w))
    (h2 : Free pc) : (s.setWorker w pc).Handed := by
  have hcount : ∀ t, (s.setWorker w pc).count (.taken t) = s.count (.taken t) ∧
      (s.setWorker w pc).count (.running t) = s.count (.running t) := by
    intro t
    have htaken := count_setWorker hw pc (.taken t)
    have hrunning := count_setWorker hw pc (.running t)
    rw [if_neg (h1 t).1, if_neg (h2 t).1] at htaken
    rw [if_neg (h1 t).2, if_neg (h2 t).2] at hrunning
    exact ⟨by omega, by omega⟩
  refine ⟨fun t => ?_, fun t => ?_, h.worker, h.inOrder, ?_⟩
  · rw [(hcount t).1]
    exact h.taken t
  · rw [(hcount t).2]
    exact h.called t
  · intro w' t hw'
    rcases setWorker_cases hw' with ⟨-, hpc⟩ | ⟨-, hpc⟩
    · exact absurd hpc (h2 t).1
    · exact h.newest w' t hpc

/-- Every task that was called was taken. -/
theorem Handed.mem_taken (h : s.Handed) (ht : t ∈ s.calls) : t ∈ s.taken := by
  have htaken := h.taken t
  have hpos := List.count_pos_iff.2 ht
  exact List.count_pos_iff.1 (by omega)

/-- A worker takes a task, one that comes behind all that were taken. -/
theorem Handed.take (h : s.Handed) (hw : w < s.m_thread_number) (hfree : Free (s.workers w))
    (hnew : ∀ t' ∈ s.taken, t' < t) (rest : List ℕ) :
    { s.setWorker w (.taken t) with m_taskList := rest, taken := s.taken ++ [t] }.Handed := by
  refine ⟨fun t' => ?_, fun t' => ?_, h.worker, h.inOrder, ?_⟩
  · have hcount := count_setWorker hw (.taken t) (.taken t')
    have htaken := h.taken t'
    rw [if_neg (hfree t').1] at hcount
    simp only [WorkerPc.taken.injEq] at hcount
    show (s.taken ++ [t]).count t' = s.calls.count t' + (s.setWorker w (.taken t)).count (.taken t')
    rw [List.count_append, List.count_singleton]
    simp only [beq_iff_eq]
    omega
  · have hcount := count_setWorker hw (.taken t) (.running t')
    have hcalled := h.called t'
    rw [if_neg (hfree t').2, if_neg (by simp)] at hcount
    show s.calls.count t' = s.finished.count t' + (s.setWorker w (.taken t)).count (.running t')
    omega
  · intro w' t' hw' t'' ht''
    rcases setWorker_cases hw' with ⟨-, hpc⟩ | ⟨-, hpc⟩
    · rw [← WorkerPc.taken.inj hpc]
      exact hnew t'' (h.mem_taken (List.mem_map.2 ⟨_, ht'', rfl⟩))
    · exact h.newest w' t' hpc t'' ht''

/-- A worker calls the task that it took. -/
theorem Handed.call (h : s.Handed) (hn : w < s.m_thread_number) (hw : s.workers w = .taken t) :
    { s.setWorker w (.running t) with started := s.started ++ [(w, t)] }.Handed := by
  have hcalls : ∀ t', ((s.started ++ [(w, t)]).map Prod.snd).count t' =
      s.calls.count t' + if t = t' then 1 else 0 := by
    intro t'
    rw [List.map_append, List.count_append]
    simp [calls, List.count_singleton]
  refine ⟨fun t' => ?_, fun t' => ?_, ?_, ?_, ?_⟩
  · have hcount := count_setWorker hn (.running t) (.taken t')
    have htaken := h.taken t'
    rw [hw, if_neg (show ¬WorkerPc.running t = .taken t' by simp)] at hcount
    simp only [WorkerPc.taken.injEq] at hcount
    show s.taken.count t' = ((s.started ++ [(w, t)]).map Prod.snd).count t' +
      (s.setWorker w (.running t)).count (.taken t')
    rw [hcalls]
    omega
  · have hcount := count_setWorker hn (.running t) (.running t')
    have hcalled := h.called t'
    rw [hw, if_neg (show ¬WorkerPc.taken t = .running t' by simp)] at hcount
    simp only [WorkerPc.running.injEq] at hcount
    show ((s.started ++ [(w, t)]).map Prod.snd).count t' =
      s.finished.count t' + (s.setWorker w (.running t)).count (.running t')
    rw [hcalls]
    omega
  · intro x hx
    rcases List.mem_append.1 hx with hx | hx
    · exact h.worker x hx
    · rw [List.mem_singleton.1 hx]
      exact hn
  · -- the task is the newest of the worker
    intro w'
    show (((s.started ++ [(w, t)]).filter (·.1 = w')).map Prod.snd).Pairwise (· < ·)
    rw [List.filter_append, List.map_append]
    refine List.pairwise_append.2 ⟨h.inOrder w', ?_, ?_⟩
    · by_cases he : w = w'
      · simp [he]
      · simp [he]
    · intro a ha b hb
      simp only [List.mem_map, List.mem_filter, List.mem_singleton, decide_eq_true_eq] at ha hb
      obtain ⟨x, ⟨hx, hxw⟩, rfl⟩ := ha
      obtain ⟨y, ⟨rfl, hyw⟩, rfl⟩ := hb
      have hxw' : x = (w, x.2) := by
        rw [show w = x.1 from hyw.trans hxw.symm]
      rw [hxw'] at hx
      exact h.newest w t hw x.2 hx
  · intro w' t' hw' t'' ht''
    rcases setWorker_cases hw' with ⟨-, hpc⟩ | ⟨hne, hpc⟩
    · exact absurd hpc (by simp)
    · rcases List.mem_append.1 ht'' with ht'' | ht''
      · exact h.newest w' t' hpc t'' ht''
      · exact absurd (congrArg Prod.fst (List.mem_singleton.1 ht'')) hne

/-- A worker comes back from its task. -/
theorem Handed.finish (h : s.Handed) (hn : w < s.m_thread_number) (hw : s.workers w = .running t) :
    { s.setWorker w .lock with finished := s.finished ++ [t] }.Handed := by
  refine ⟨fun t' => ?_, fun t' => ?_, h.worker, h.inOrder, ?_⟩
  · have hcount := count_setWorker hn .lock (.taken t')
    have htaken := h.taken t'
    rw [hw, if_neg (by simp), if_neg (by simp)] at hcount
    show s.taken.count t' = s.calls.count t' + (s.setWorker w .lock).count (.taken t')
    omega
  · have hcount := count_setWorker hn .lock (.running t')
    have hcalled := h.called t'
    rw [hw, if_neg (show ¬WorkerPc.lock = .running t' by simp)] at hcount
    simp only [WorkerPc.running.injEq] at hcount
    show s.calls.count t' = (s.finished ++ [t]).count t' + (s.setWorker w .lock).count (.running t')
    rw [List.count_append, List.count_singleton]
    simp only [beq_iff_eq]
    omega
  · intro w' t' hw'
    rcases setWorker_cases hw' with ⟨-, hpc⟩ | ⟨-, hpc⟩
    · exact absurd hpc (by simp)
    · exact h.newest w' t' hpc

/-! ## One step -/

/-- What a step of a worker does. -/
theorem threadFunc_cases (hs : s.threadFunc w = some s') :
    (s.workers w = .lock ∧ s.m_stop = true ∧ s' = s.setWorker w .exited) ∨
    (s.workers w = .lock ∧ s.m_stop = false ∧ s.m_taskList = [] ∧ s' = s.setWorker w .waiting) ∨
    (∃ t rest, s.workers w = .lock ∧ s.m_stop = false ∧ s.m_taskList = t :: rest ∧
      s' = { s.setWorker w (.taken t) with m_taskList := rest, taken := s.taken ++ [t] }) ∨
    (∃ t, s.workers w = .taken t ∧
      s' = { s.setWorker w (.running t) with started := s.started ++ [(w, t)] }) ∨
    ∃ t, s.workers w = .running t ∧ s' = { s.setWorker w .lock with finished := s.finished ++ [t] } := by
  unfold threadFunc at hs
  split at hs
  · rename_i hpc
    rw [Option.some.injEq] at hs
    unfold take at hs
    split at hs
    · rename_i hstop
      exact Or.inl ⟨hpc, hstop, hs.symm⟩
    · rename_i hstop
      have hstop : s.m_stop = false := by simpa using hstop
      split at hs
      · rename_i hl
        exact Or.inr (Or.inl ⟨hpc, hstop, hl, hs.symm⟩)
      · rename_i t rest hl
        exact Or.inr (Or.inr (Or.inl ⟨t, rest, hpc, hstop, hl, hs.symm⟩))
  · rename_i t hpc
    rw [Option.some.injEq] at hs
    exact Or.inr (Or.inr (Or.inr (Or.inl ⟨t, hpc, hs.symm⟩)))
  · rename_i t hpc
    rw [Option.some.injEq] at hs
    exact Or.inr (Or.inr (Or.inr (Or.inr ⟨t, hpc, hs.symm⟩)))
  · simp at hs
  · simp at hs

/-- A worker that has left the loop stays out of it, whatever a worker does. -/
theorem Stopping.worker (h : s.Stopping) (hstop : s'.m_stop = s.m_stop) (hpc : s'.pc = s.pc)
    (hbefore : s'.before = s.before) (hleft : s'.left = s.left) (hnumber : s'.m_thread_number = s.m_thread_number)
    (htaken : ∀ t ∈ s.taken, t ∈ s'.taken) (hexited : ∀ w, s.workers w = .exited → s'.workers w = .exited) :
    s'.Stopping := by
  have hstopping : s'.stopping ↔ s.stopping := by rw [stopping, stopping, hpc]
  refine ⟨?_, ?_, ?_, ?_⟩
  · rw [hstop, hstopping]
    exact h.stop
  · intro hst t ht
    rw [hbefore] at ht
    rw [hleft]
    exact (h.left (hstopping.1 hst) t ht).imp_right (htaken t)
  · intro i hi w hw
    exact hexited w (h.joined i (hpc ▸ hi) w hw)
  · intro hret w hw
    rw [hnumber] at hw
    exact hexited w (h.returned (hpc ▸ hret) w hw)

theorem exited_setWorker {pc : WorkerPc} (hw : s.workers w ≠ .exited) (w' : ℕ) (h : s.workers w' = .exited) :
    (s.setWorker w pc).workers w' = .exited := by
  have hne : w' ≠ w := by
    rintro rfl
    exact hw h
  rw [setWorker_other s hne, h]

/-- A step of a worker. -/
theorem threadFunc_poolOk (h : s.PoolOk) (hn : w < s.m_thread_number) (hs : s.threadFunc w = some s') :
    s'.PoolOk := by
  have hfree : s.workers w = .lock → Free (s.workers w) := by
    intro hpc t
    rw [hpc]; simp
  rcases threadFunc_cases hs with ⟨hpc, hstop, rfl⟩ | ⟨hpc, hstop, hl, rfl⟩ | ⟨t, rest, hpc, hstop, hl, rfl⟩ |
    ⟨t, hpc, rfl⟩ | ⟨t, hpc, rfl⟩
  · refine ⟨⟨h.list.order, h.list.returned, h.list.before⟩, ?_, ?_⟩
    · exact h.workers.setWorker hn (hfree hpc) (fun t => by simp)
    · exact h.call.worker rfl rfl rfl rfl rfl (fun t ht => ht) (exited_setWorker (by rw [hpc]; simp))
  · refine ⟨⟨h.list.order, h.list.returned, h.list.before⟩, ?_, ?_⟩
    · exact h.workers.setWorker hn (hfree hpc) (fun t => by simp)
    · exact h.call.worker rfl rfl rfl rfl rfl (fun t ht => ht) (exited_setWorker (by rw [hpc]; simp))
  · obtain ⟨hnew, horder⟩ := h.list.next hl
    refine ⟨⟨horder, h.list.returned, h.list.before⟩, ?_, ?_⟩
    · exact h.workers.take hn (hfree hpc) hnew rest
    · exact h.call.worker rfl rfl rfl rfl rfl (fun t ht => List.mem_append_left _ ht)
        (exited_setWorker (by rw [hpc]; simp))
  · refine ⟨⟨h.list.order, h.list.returned, h.list.before⟩, h.workers.call hn hpc, ?_⟩
    exact h.call.worker rfl rfl rfl rfl rfl (fun t ht => ht) (exited_setWorker (by rw [hpc]; simp))
  · refine ⟨⟨h.list.order, h.list.returned, h.list.before⟩, h.workers.finish hn hpc, ?_⟩
    exact h.call.worker rfl rfl rfl rfl rfl (fun t ht => ht) (exited_setWorker (by rw [hpc]; simp))

/-- A step of `shutdown()`: the section that sets `m_stop` finds what is left in the list. -/
theorem shutdown_poolOk (h : s.PoolOk) (hs : s.shutdown = some s') : s'.PoolOk := by
  unfold shutdown at hs
  split at hs
  · rename_i hpc
    rw [Option.some.injEq] at hs
    subst hs
    refine ⟨⟨h.list.order, h.list.returned, h.list.before⟩, h.workers.congr rfl rfl rfl rfl rfl, ?_⟩
    refine ⟨by simp [stopping], fun _ t ht => ?_, fun i hi => by simp at hi, fun hi => by simp at hi⟩
    -- a task from before the call was taken, or is in the list
    have hlt := List.mem_range.2 (h.list.before t ht)
    rw [← h.list.order, List.mem_append] at hlt
    exact hlt.symm
  · rename_i hpc
    rw [Option.some.injEq] at hs
    subst hs
    refine ⟨⟨h.list.order, h.list.returned, h.list.before⟩, h.workers.congr rfl rfl rfl rfl rfl, ?_⟩
    have hst : s.stopping := by simp [stopping, hpc]
    refine ⟨iff_of_true (h.call.stop.2 hst) (by simp [stopping]), fun _ => h.call.left hst, ?_,
      fun hi => by simp at hi⟩
    intro i hi w hw
    rw [ShutdownPc.join.injEq] at hi
    omega
  · rename_i i hpc
    have hst : s.stopping := by simp [stopping, hpc]
    have hjoined := h.call.joined i hpc
    split at hs
    · split at hs
      · rename_i hi hexit
        rw [Option.some.injEq] at hs
        subst hs
        refine ⟨⟨h.list.order, h.list.returned, h.list.before⟩, h.workers.congr rfl rfl rfl rfl rfl, ?_⟩
        refine ⟨iff_of_true (h.call.stop.2 hst) (by simp [stopping]), fun _ => h.call.left hst, ?_,
          fun hi => by simp at hi⟩
        intro j hj w hw
        rw [ShutdownPc.join.injEq] at hj
        rcases Nat.lt_or_ge w i with hlt | hge
        · exact hjoined w hlt
        · rw [show w = i by omega]
          exact hexit
      · simp at hs
    · rename_i hi
      rw [Option.some.injEq] at hs
      subst hs
      refine ⟨⟨h.list.order, h.list.returned, h.list.before⟩, h.workers.congr rfl rfl rfl rfl rfl, ?_⟩
      refine ⟨iff_of_true (h.call.stop.2 hst) (by simp [stopping]), fun _ => h.call.left hst,
        fun j hj => by simp at hj, ?_⟩
      intro _ w hw
      have hw' : w < s.m_thread_number := hw
      exact hjoined w (by omega)
  · simp at hs
  · simp at hs

/-- **One step.** -/
theorem step_poolOk (h : s.PoolOk) {a : PoolStep} (hs : s.step a = some s') : s'.PoolOk := by
  cases a with
  | push =>
    simp only [step, Option.some.injEq] at hs
    subst hs
    refine ⟨⟨?_, ?_, ?_⟩, h.workers.congr rfl rfl rfl rfl rfl,
      ⟨h.call.stop, h.call.left, h.call.joined, h.call.returned⟩⟩
    · have horder := h.list.order
      show s.taken ++ (s.m_taskList ++ [s.appended]) = List.range (s.appended + 1)
      rw [List.range_succ, ← horder, List.append_assoc]
    · intro t ht
      have hlt := h.list.returned t ht
      show t < s.appended + 1
      omega
    · intro t ht
      have hlt := h.list.before t ht
      show t < s.appended + 1
      omega
  | appendReturns t =>
    simp only [step, Option.ite_none_right_eq_some, Option.some.injEq] at hs
    obtain ⟨⟨hlt, -⟩, rfl⟩ := hs
    refine ⟨⟨h.list.order, ?_, h.list.before⟩, h.workers.congr rfl rfl rfl rfl rfl,
      ⟨h.call.stop, h.call.left, h.call.joined, h.call.returned⟩⟩
    intro t' ht'
    rcases List.mem_append.1 ht' with ht' | ht'
    · exact h.list.returned t' ht'
    · rw [List.mem_singleton.1 ht']
      exact hlt
  | worker w =>
    simp only [step, Option.ite_none_right_eq_some] at hs
    exact threadFunc_poolOk h hs.1 hs.2
  | wake w =>
    simp only [step, Option.ite_none_right_eq_some, Option.some.injEq] at hs
    obtain ⟨⟨hn, hpc⟩, rfl⟩ := hs
    refine ⟨⟨h.list.order, h.list.returned, h.list.before⟩, ?_, ?_⟩
    · exact h.workers.setWorker hn (fun t => by rw [hpc]; simp) (fun t => by simp)
    · exact h.call.worker rfl rfl rfl rfl rfl (fun t ht => ht) (exited_setWorker (by rw [hpc]; simp))
  | call =>
    simp only [step, Option.ite_none_right_eq_some, Option.some.injEq] at hs
    obtain ⟨hpc, rfl⟩ := hs
    refine ⟨⟨h.list.order, h.list.returned, h.list.returned⟩, h.workers.congr rfl rfl rfl rfl rfl, ?_⟩
    have hnot : ¬s.stopping := by simp [stopping, hpc]
    refine ⟨iff_of_false (fun hst => hnot (h.call.stop.1 hst)) (by simp [stopping]), ?_, ?_, ?_⟩
    · intro hst
      exact absurd hst (by simp [stopping])
    · intro i hi
      simp at hi
    · intro hi
      simp at hi
  | shutdown => exact shutdown_poolOk h hs

/-! ## Whole runs -/

/-- A task that was taken is called once, and is run to its end before its worker leaves. -/
theorem PoolOk.run_once (h : s.PoolOk) (hexited : ∀ w, w < s.m_thread_number → s.workers w = .exited)
    (ht : t ∈ s.taken) : s.calls.count t = 1 ∧ s.finished.count t = 1 := by
  have hnone : ∀ pc, pc ≠ .exited → s.count pc = 0 := by
    intro pc hpc
    refine Finset.sum_eq_zero fun w hw => if_neg ?_
    rw [hexited w (Finset.mem_range.1 hw)]
    exact Ne.symm hpc
  have htaken := h.workers.taken t
  have hcalled := h.workers.called t
  rw [hnone _ (by simp)] at htaken hcalled
  have hnodup : (s.taken ++ s.m_taskList).Nodup := by
    rw [h.list.order]
    exact List.nodup_range
  have hone := List.count_eq_one_of_mem (List.nodup_append.1 hnodup).1 ht
  exact ⟨by omega, by omega⟩

/-- The tasks taken are the first ones that were appended. -/
theorem Queued.taken_eq (h : s.Queued) : s.taken = List.range s.taken.length := by
  have hle : s.taken.length ≤ s.appended := by
    have hlen := congrArg List.length h.order
    rw [List.length_append, List.length_range] at hlen
    omega
  have htake := congrArg (List.take s.taken.length) h.order
  rw [List.take_left', List.take_range, Nat.min_eq_left hle] at htake
  · exact htake
  · rfl

/-- **What the pool has run**, for every number of workers and every interleaving of appends, workers
and one call of `shutdown()`. When it returns, a task whose `append` returned before the call and that
was taken from the list before `m_stop` was set has been called once and run to its end. No task is ever
called twice. The workers take the tasks in the order of the appends, so that when a task is called all
before it are with a worker or done; each worker calls its tasks in this order, and with one worker
this is the order of all calls. -/
theorem shutdown_completes (thread_number : ℕ) {steps : List PoolStep}
    (hrun : run step (start thread_number) steps = some s) :
    (s.pc = .returned → ∀ t ∈ s.before, t ∉ s.left → s.calls.count t = 1 ∧ s.finished.count t = 1) ∧
      (∀ t, s.calls.count t ≤ 1) ∧
      s.taken = List.range s.taken.length ∧
      (∀ t ∈ s.calls, ∀ t', t' ≤ t → t' ∈ s.taken) ∧
      (∀ w, ((s.started.filter (·.1 = w)).map Prod.snd).Pairwise (· < ·)) ∧
      (s.m_thread_number = 1 → s.calls.Pairwise (· < ·)) := by
  have h : s.PoolOk := run_inv (fun s a s' h hs => step_poolOk h hs) (start_poolOk thread_number) hrun
  have htaken := h.list.taken_eq
  refine ⟨?_, ?_, htaken, ?_, h.workers.inOrder, ?_⟩
  · intro hret t ht hleft
    have hst : s.stopping := by simp [stopping, hret]
    have hmem := (h.call.left hst t ht).resolve_left hleft
    exact h.run_once (h.call.returned hret) hmem
  · intro t
    have hcount := h.workers.taken t
    have hnodup : s.taken.Nodup := by
      rw [htaken]
      exact List.nodup_range
    have hle := List.nodup_iff_count_le_one.1 hnodup t
    omega
  · intro t ht t' hle
    have hmem := h.workers.mem_taken ht
    rw [htaken, List.mem_range] at hmem ⊢
    omega
  · -- all calls are those of the one worker
    intro hone
    have hall : s.started.filter (·.1 = 0) = s.started := by
      refine List.filter_eq_self.2 fun x hx => ?_
      have hlt := h.workers.worker x hx
      simp only [decide_eq_true_eq]
      omega
    have hzero := h.workers.inOrder 0
    rw [hall] at hzero
    exact hzero

/-- Two workers take a task each; `shutdown()` is called when the second task is still running, and a
third one is in the list. -/
def completingSteps : List PoolStep :=
  [.worker 0, .push, .appendReturns 0, .wake 0, .worker 0, .push, .worker 1, .appendReturns 1, .worker 1,
    .worker 0, .worker 0, .push, .call, .shutdown, .worker 0, .appendReturns 2, .shutdown, .worker 1,
    .shutdown, .worker 1, .shutdown, .shutdown]

theorem shutdown_completes_two :
    ∃ s, run step (start 2) completingSteps = some s ∧ s.pc = .returned ∧ s.before = [0, 1] ∧ s.left = [2] ∧
      s.finished.count 0 = 1 ∧ s.finished.count 1 = 1 := by
  have hrun : run step (start 2) completingSteps = some _ := rfl
  have h := (shutdown_completes 2 hrun).1 rfl
  exact ⟨_, rfl, rfl, rfl, rfl, (h 0 (by decide) (by decide)).2, (h 1 (by decide) (by decide)).2⟩

/-- A task that is still in the list when `m_stop` is set is not run, though its `append` returned
before the call; and of two workers the one that took the later task may call it first. -/
theorem shutdown_drops :
    (∃ s, run step (start 1)
        [.push, .appendReturns 0, .call, .shutdown, .worker 0, .shutdown, .shutdown, .shutdown] = some s ∧
      s.pc = .returned ∧ s.before = [0] ∧ s.left = [0] ∧ s.calls = [] ∧ s.finished = []) ∧
    ∃ s, run step (start 2)
        [.push, .appendReturns 0, .push, .appendReturns 1, .worker 0, .worker 1, .worker 1, .worker 0] = some s ∧
      s.taken = [0, 1] ∧ s.calls = [1, 0] :=
  ⟨⟨_, rfl, rfl, rfl, rfl, rfl, rfl⟩, ⟨_, rfl, rfl, rfl⟩⟩

end ThreadPool

end MyMuduo
