import MyMuduo.Proof.AsyncLogging

/-!
# Stopping the log

`stop()` clears `m_running` and joins the backend. A backend that has not taken the mutex of
its round yet takes all buffers over once more. One that is past it only finishes the
buffers in its hands, and one at the test of the loop leaves at once: what the producers have
in `m_buffers` and `m_currentBuffer` is then never written.

* `Promised`: from the write of `m_running` on, what was appended before the call is, or will
  be, in the hands of the backend.
* `step_promised`: only the write of `m_running` decides it.
* `stop_flushes_iff`: **`stop()` flushes the log exactly if** it finds the backend before its
  section under the mutex, or the messages in its hands already.
-/

namespace MyMuduo

open Lib

namespace LogStop

open AsyncLogging

variable {s s' : LogStop}

/-- The messages appended before the call. -/
def before (s : LogStop) : Bytes := ((s.log.appended.take s.mark).map Prod.snd).flatten

/-- What is with the log file, or in the hands of the backend to be written. -/
def handed (log : AsyncLogging) : Bytes := log.written ++ texts log.unwritten

/-- The backend will take the buffers over once more. -/
def aboutToSwap (log : AsyncLogging) : Prop := log.pc = .lock ∨ log.pc = .waiting

instance (log : AsyncLogging) : Decidable (aboutToSwap log) := inferInstanceAs (Decidable (_ ∨ _))

/-- The messages from before the call are in the hands of the backend, or will be. -/
def Caught (s : LogStop) : Prop := aboutToSwap s.log ∨ s.before <+: handed s.log

instance (s : LogStop) : Decidable s.Caught := inferInstanceAs (Decidable (_ ∨ _))

/-- `m_running` was cleared by the call. -/
def stopping (s : LogStop) : Prop := s.pc = .notify ∨ s.pc = .join ∨ s.pc = .returned

/-- From the write of `m_running` on, the messages are caught. -/
def Promised (s : LogStop) : Prop := s.stopping → s.Caught

/-- What holds between the steps. -/
structure StopOk (s : LogStop) : Prop where
  log : s.log.LogOk
  mark : s.mark ≤ s.log.appended.length
  running : s.log.m_running = true ↔ ¬s.stopping
  exited : s.log.pc = .exited → s.stopping
  returned : s.pc = .returned → s.log.pc = .exited

end LogStop

/-- The condition on a step, from the state before it: the write of `m_running` finds the
backend before its section under the mutex, or the messages from before the call in its hands. -/
def LogStopStep.Catches (s : LogStop) (a : LogStopStep) : Prop := a = .stop → s.pc = .store → s.Caught

instance (s : LogStop) (a : LogStopStep) : Decidable (a.Catches s) :=
  inferInstanceAs (Decidable (_ → _ → _))

namespace LogStop

open AsyncLogging

variable {s s' : LogStop}

theorem start_stopOk : start.StopOk where
  log := AsyncLogging.start_ok
  mark := le_refl _
  running := by simp [stopping, start, AsyncLogging.start]
  exited h := by cases h
  returned h := by cases h

/-! ## The log while `stop()` is under way -/

/-- What a step of the backend does not touch. -/
theorem backend_frame {log log' : AsyncLogging} (hs : log.backend = some log') :
    log'.appended = log.appended ∧ log'.m_running = log.m_running ∧
      (log'.pc = .exited → log.m_running = false) := by
  unfold backend at hs
  split at hs
  · cases hs
    by_cases hr : log.m_running = true
    · simp [hr]
    · simp
  · cases hs
    split
    · simp
    · simp [swapBuffers]
  · cases hs
    simp [swapBuffers]
  · rename_i hpc
    split at hs
    · cases hs
      simp
    · cases hs
      simp [hpc]
    · cases hs
      obtain ⟨n, hn, -⟩ := resize_buffers log
      simp [hn]
  · rename_i hpc
    split at hs
    · split at hs
      · cases hs
        simp
      · cases hs
        simp [hpc]
    · cases hs
      simp
  · rename_i hpc
    split at hs
    · split at hs
      · cases hs
        simp
      · cases hs
        simp [hpc]
    · cases hs
      simp
  · cases hs
    simp
  · cases hs

/-- The section under the mutex takes over all there is. -/
theorem swapBuffers_handed {log : AsyncLogging} (h : log.LogOk) (hpc : aboutToSwap log) :
    handed log.swapBuffers = (log.appended.map Prod.snd).flatten ∧ ¬aboutToSwap log.swapBuffers := by
  have hswap := (swapBuffers_ok h hpc).stream
  obtain ⟨h1, h2⟩ : log.newBuffer1.isSome ∧ log.buffersToWrite = [] := by
    have hback := h.back
    unfold Backend at hback
    rcases hpc with hpc | hpc
    · rw [hpc] at hback
      exact ⟨hback.1, hback.2.2⟩
    · rw [hpc] at hback
      exact ⟨hback.1, hback.2.2⟩
  obtain ⟨b, hb⟩ := Option.isSome_iff_exists.1 h1
  have hdata : b.m_data = [] := h.clean b (Or.inr (Or.inl hb))
  -- the producers go on with an empty buffer
  have htext : text log.swapBuffers.m_currentBuffer = [] := by
    simp only [swapBuffers, hb, text, Option.map_some, Option.getD_some, hdata]
  have hempty : log.swapBuffers.m_buffers = [] := h2
  unfold AsyncLogging.stream at hswap
  rw [htext, hempty, texts_nil, List.append_nil, List.append_nil] at hswap
  exact ⟨hswap, by simp [aboutToSwap, swapBuffers]⟩

/-- Once `m_running` is cleared, a step of the backend neither catches messages nor drops
them. -/
theorem backend_caught {log log' : AsyncLogging} (h : log.LogOk) (hrun : log.m_running = false)
    {b : Bytes} (hb : b <+: (log.appended.map Prod.snd).flatten) (hs : log.backend = some log') :
    (aboutToSwap log' ∨ b <+: handed log') ↔ (aboutToSwap log ∨ b <+: handed log) := by
  have hswap : aboutToSwap log → (aboutToSwap log.swapBuffers ∨ b <+: handed log.swapBuffers) := by
    intro hpc
    rw [(swapBuffers_handed h hpc).1]
    exact Or.inr hb
  -- anywhere else the text in the backend's hands is the same
  have hsame : ¬aboutToSwap log' → ¬aboutToSwap log → handed log' = handed log →
      ((aboutToSwap log' ∨ b <+: handed log') ↔ (aboutToSwap log ∨ b <+: handed log)) := by
    intro h1 h2 h3
    rw [h3]
    exact or_congr_left (iff_of_false h1 h2)
  unfold backend at hs
  split at hs
  · rename_i hpc
    cases hs
    refine hsame ?_ ?_ ?_
    · simp [aboutToSwap, hrun]
    · simp [aboutToSwap, hpc]
    · simp [handed, unwritten, hpc, hrun]
  · rename_i hpc
    cases hs
    split
    · exact iff_of_true (Or.inl (Or.inr rfl)) (Or.inl (Or.inl hpc))
    · exact iff_of_true (hswap (Or.inl hpc)) (Or.inl (Or.inl hpc))
  · rename_i hpc
    cases hs
    exact iff_of_true (hswap (Or.inr hpc)) (Or.inl (Or.inr hpc))
  · rename_i i hpc
    split at hs
    · rename_i buf hbuf
      cases hs
      refine hsame (by simp [aboutToSwap]) (by simp [aboutToSwap, hpc]) ?_
      simp only [handed, unwritten, hpc]
      rw [List.drop_eq_getElem?_toList_append (i := i), hbuf]
      simp [texts, text]
    · cases hs
      exact hsame (by simp [aboutToSwap, hpc]) (by simp [aboutToSwap, hpc]) rfl
    · rename_i hbuf
      cases hs
      have hdrop : log.buffersToWrite.drop i = [] :=
        List.drop_eq_nil_iff.2 (List.getElem?_eq_none_iff.1 hbuf)
      obtain ⟨n, hn, -⟩ := resize_buffers log
      refine hsame (by simp [aboutToSwap]) (by simp [aboutToSwap, hpc]) ?_
      simp [handed, unwritten, hpc, hn, hdrop]
  · rename_i hpc
    have hnot : ¬aboutToSwap log := by simp [aboutToSwap, hpc]
    split at hs
    · split at hs
      · cases hs
        exact hsame (by simp [aboutToSwap]) hnot (by simp [handed, unwritten, hpc])
      · cases hs
        exact hsame hnot hnot rfl
    · cases hs
      exact hsame (by simp [aboutToSwap]) hnot (by simp [handed, unwritten, hpc])
  · rename_i hpc
    have hnot : ¬aboutToSwap log := by simp [aboutToSwap, hpc]
    split at hs
    · split at hs
      · cases hs
        exact hsame (by simp [aboutToSwap]) hnot (by simp [handed, unwritten, hpc])
      · cases hs
        exact hsame hnot hnot rfl
    · cases hs
      exact hsame (by simp [aboutToSwap]) hnot (by simp [handed, unwritten, hpc])
  · rename_i hpc
    cases hs
    exact hsame (by simp [aboutToSwap]) (by simp [aboutToSwap, hpc]) (by simp [handed, unwritten, hpc])
  · cases hs

/-- What an `append` does not touch. -/
theorem append_frame {log log' : AsyncLogging} {thread : ℕ} {data : Bytes}
    (hs : log.step (.append thread data) = some log') :
    log'.appended = log.appended ++ [(thread, data)] ∧ log'.m_running = log.m_running ∧
      log'.pc = log.pc ∧ handed log' = handed log := by
  simp only [AsyncLogging.step, Option.ite_none_right_eq_some, Option.some.injEq] at hs
  obtain ⟨-, rfl⟩ := hs
  unfold append handed unwritten
  split
  · simp
  · split
    · simp
    · dsimp only
      split
      · simp
      · simp

/-! ## One step -/

/-- The messages from before the call are among all messages. -/
theorem before_isPrefix (s : LogStop) : s.before <+: (s.log.appended.map Prod.snd).flatten := by
  have hcut : s.log.appended.take s.mark ++ s.log.appended.drop s.mark = s.log.appended :=
    List.take_append_drop _ _
  refine ⟨((s.log.appended.drop s.mark).map Prod.snd).flatten, ?_⟩
  rw [before, ← List.flatten_append, ← List.map_append, hcut]

/-- A step of a producer. -/
theorem append_promised (h : s.StopOk) {thread : ℕ} {data : Bytes}
    (hd : data.length < kLargeBuffer) {log : AsyncLogging}
    (hs : s.log.step (.append thread data) = some log) (hs' : s' = { s with log := log }) :
    s'.StopOk ∧ (s'.Promised ↔ s.Promised) := by
  have hok := AsyncLogging.step_ok h.log (a := .append thread data)
    (fun t d he => by cases he; exact hd) hs
  obtain ⟨happ, hrun, hpc, hhand⟩ := append_frame hs
  subst hs'
  refine ⟨⟨hok, ?_, ?_, ?_, ?_⟩, ?_⟩
  · have := h.mark
    simp only [happ, List.length_append]
    omega
  · rw [hrun]
    exact h.running
  · exact fun he => h.exited (hpc.symm.trans he)
  · exact fun he => hpc.trans (h.returned he)
  · -- the messages from before the call are the same
    refine imp_congr_right fun _ => ?_
    unfold Caught aboutToSwap before
    dsimp only
    rw [happ, List.take_append_of_le_length h.mark, hhand, hpc]

/-- A step of the backend. -/
theorem backend_promised (h : s.StopOk) {log : AsyncLogging}
    (hs : s.log.step .backend = some log) (hs' : s' = { s with log := log }) :
    s'.StopOk ∧ (s'.Promised ↔ s.Promised) := by
  have hok := AsyncLogging.step_ok h.log (a := .backend) (fun t d he => by cases he) hs
  unfold AsyncLogging.step at hs
  rw [if_pos h.log.fault] at hs
  obtain ⟨happ, hrun, hexit⟩ := backend_frame hs
  subst hs'
  refine ⟨⟨hok, ?_, ?_, ?_, ?_⟩, ?_⟩
  · rw [happ]
    exact h.mark
  · rw [hrun]
    exact h.running
  · intro he
    have hfalse := hexit he
    by_contra hn
    exact absurd (hfalse.symm.trans (h.running.2 hn)) (by simp)
  · intro he
    -- a backend that is gone takes no step
    rw [AsyncLogging.backend, h.returned he] at hs
    cases hs
  · refine imp_congr_right fun hstop => ?_
    have hfalse : s.log.m_running = false := by
      have := mt h.running.1 (not_not.2 hstop)
      simpa using this
    have hcaught := backend_caught h.log hfalse (before_isPrefix s) hs
    unfold Caught before at *
    rw [happ]
    exact hcaught

/-- A step of `stop()`: the write of `m_running` decides. -/
theorem stop_promised (h : s.StopOk) (hs : s.stop = some s') :
    s'.StopOk ∧ (s'.Promised ↔ s.Promised ∧ (s.pc = .store → s.Caught)) := by
  -- a step of `stop()` after the write changes neither the log nor the promise
  have hkeep : ∀ pc, s' = { s with pc := pc } → s.stopping → s'.stopping → s.pc ≠ .store →
      (pc = .returned → s.log.pc = .exited) →
      s'.StopOk ∧ (s'.Promised ↔ s.Promised ∧ (s.pc = .store → s.Caught)) := by
    rintro pc rfl h1 h2 h3 h4
    refine ⟨⟨h.log, h.mark, ?_, fun _ => h2, h4⟩, ?_⟩
    · exact h.running.trans (iff_of_false (not_not.2 h1) (not_not.2 h2))
    · refine ⟨fun hp => ⟨fun _ => hp h2, fun he => absurd he h3⟩, fun hp _ => hp.1 h1⟩
  unfold LogStop.stop at hs
  split at hs
  · -- `m_running` is set: this is the only call
    rename_i hpc
    have hn : ¬s.stopping := by simp [stopping, hpc]
    have hrun := h.running.2 hn
    rw [hrun] at hs
    cases hs
    refine ⟨⟨h.log, h.mark, ?_, fun he => absurd (h.exited he) hn, fun he => (by cases he)⟩, ?_⟩
    · exact iff_of_true hrun (by simp [stopping])
    · refine iff_of_true (fun hst => ?_) ⟨fun hst => absurd hst hn, fun he => ?_⟩
      · exact absurd hst (by simp [stopping])
      · exact absurd (hpc.symm.trans he) (by simp)
  · -- the write of `m_running`
    rename_i hpc
    have hn : ¬s.stopping := by simp [stopping, hpc]
    obtain ⟨log, hlog, rfl⟩ := Option.map_eq_some_iff.1 hs
    have hok := AsyncLogging.step_ok h.log (fun t d he => by cases he) hlog
    simp only [AsyncLogging.step, Option.ite_none_right_eq_some, Option.some.injEq] at hlog
    obtain ⟨-, rfl⟩ := hlog
    refine ⟨⟨hok, h.mark, ?_, fun _ => Or.inl rfl, fun he => (by cases he)⟩, ?_⟩
    · exact iff_of_false (by simp) (not_not.2 (Or.inl rfl))
    · exact ⟨fun hp => ⟨fun hst => absurd hst hn, fun _ => hp (Or.inl rfl)⟩, fun hp _ => hp.2 hpc⟩
  · rename_i hpc
    cases hs
    exact hkeep .join rfl (Or.inl hpc) (Or.inr (Or.inl rfl)) (by rw [hpc]; simp) (fun he => by cases he)
  · rename_i hpc
    split at hs
    · rename_i hexit
      cases hs
      exact hkeep .returned rfl (Or.inr (Or.inl hpc)) (Or.inr (Or.inr rfl)) (by rw [hpc]; simp)
        (fun _ => hexit)
    · cases hs
  · cases hs
  · cases hs

/-- **One step**, with messages that are not too long. -/
theorem step_promised (h : s.StopOk) {a : LogStopStep}
    (ha : ∀ thread data, a = .append thread data → data.length < kLargeBuffer)
    (hs : s.step a = some s') : s'.StopOk ∧ (s'.Promised ↔ s.Promised ∧ a.Catches s) := by
  have hother : a ≠ .stop → (s'.StopOk ∧ (s'.Promised ↔ s.Promised)) →
      s'.StopOk ∧ (s'.Promised ↔ s.Promised ∧ a.Catches s) := by
    rintro hne ⟨h1, h2⟩
    exact ⟨h1, h2.trans ⟨fun hp => ⟨hp, fun he => absurd he hne⟩, And.left⟩⟩
  cases a with
  | append thread data =>
    obtain ⟨log, hlog, rfl⟩ := Option.map_eq_some_iff.1 hs
    exact hother (by simp) (append_promised h (ha thread data rfl) hlog rfl)
  | backend =>
    obtain ⟨log, hlog, rfl⟩ := Option.map_eq_some_iff.1 hs
    exact hother (by simp) (backend_promised h hlog rfl)
  | call =>
    simp only [step, Option.ite_none_right_eq_some, Option.some.injEq] at hs
    obtain ⟨hpc, rfl⟩ := hs
    have hn : ¬s.stopping := by simp [stopping, hpc]
    refine hother (by simp) ⟨⟨h.log, le_refl _, ?_, ?_, fun he => (by cases he)⟩, ?_⟩
    · exact iff_of_true (h.running.2 hn) (by simp [stopping])
    · exact fun he => absurd (h.exited he) hn
    · exact iff_of_true (fun hst => absurd hst (by simp [stopping])) fun hst => absurd hst hn
  | stop =>
    obtain ⟨h1, h2⟩ := stop_promised h hs
    exact ⟨h1, h2.trans (and_congr_right fun _ => ⟨fun hc _ => hc, fun hc => hc rfl⟩)⟩

/-! ## Whole runs -/

/-- **`stop()` flushes the log exactly if it clears `m_running` while the backend is before
its section under the mutex, or has the messages in its hands.** For every interleaving of
producers, the backend and one call of `stop()` that has returned. -/
theorem stop_flushes_iff (steps : List LogStopStep) {s : LogStop}
    (hfit : ∀ thread data, .append thread data ∈ steps → data.length < kLargeBuffer)
    (hrun : run LogStop.step start steps = some s) (hret : s.pc = .returned) :
    s.Flushed ↔ Along LogStop.step (fun s a => a.Catches s) start steps := by
  have hD : Along LogStop.step (fun _ a => ∀ t d, a = LogStopStep.append t d → d.length < kLargeBuffer)
      start steps := by
    refine along_of_forall (P := fun a => ∀ t d, a = LogStopStep.append t d → d.length < kLargeBuffer) _ ?_
    rintro a ha t d rfl
    exact hfit t d ha
  have hiff := run_iff_along (C := fun s a => a.Catches s) (I := StopOk) (P := Promised)
    (fun s a s' h ha hs => step_promised h ha hs) steps start_stopOk hD hrun
  have hok : s.StopOk :=
    run_inv_along (fun s a s' h ha hs => (step_promised h ha hs).1) steps start_stopOk hD hrun
  -- the backend is gone: nothing is in its hands any more
  have hexit := hok.returned hret
  have hflushed : s.Flushed ↔ s.Promised := by
    have hhand : handed s.log = s.log.written := by
      simp [handed, unwritten, hexit]
    have hnot : ¬aboutToSwap s.log := by simp [aboutToSwap, hexit]
    unfold Promised Caught
    rw [hhand]
    exact ⟨fun hf _ => Or.inr hf, fun hp => (hp (Or.inr (Or.inr hret))).resolve_left hnot⟩
  rw [hflushed, hiff]
  exact and_iff_right fun hst => absurd hst (by simp [stopping, start])

/-- The backend waits when `m_running` is cleared. -/
def waitingStop : List LogStopStep :=
  [.backend, .backend, .append 1 [65], .call, .stop, .append 2 [66], .stop, .backend, .stop,
    .backend, .backend, .backend, .backend, .backend, .backend, .stop]

theorem stop_flushes_iff_waiting :
    ∃ s, run LogStop.step start waitingStop = some s ∧ s.pc = .returned ∧ s.mark = 1 ∧ s.Flushed := by
  have hfit : ∀ thread data, .append thread data ∈ waitingStop → data.length < kLargeBuffer := by
    intro thread data h
    simp only [waitingStop, List.mem_cons, LogStopStep.append.injEq, reduceCtorEq, false_or,
      List.not_mem_nil, or_false] at h
    rcases h with ⟨-, rfl⟩ | ⟨-, rfl⟩ <;> decide
  exact ⟨_, rfl, rfl, rfl, (stop_flushes_iff waitingStop hfit rfl rfl).2 (by decide)⟩

/-- `stop()` before the backend's first round: the message is never written. -/
theorem stop_flushes_iff_early :
    ∃ s, run LogStop.step start [.append 1 [65], .call, .stop, .stop, .backend, .stop, .stop] = some s ∧
      s.pc = .returned ∧ s.mark = 1 ∧ s.log.appended = [(1, [65])] ∧ s.log.written = [] ∧
      ¬s.Flushed :=
  ⟨_, rfl, rfl, rfl, rfl, rfl, by decide⟩

end LogStop

end MyMuduo
