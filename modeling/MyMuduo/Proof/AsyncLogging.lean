import MyMuduo.Proof.LogStream
import MyMuduo.Spec.AsyncLogging

/-!
# The log pipeline

* `LogOk`: the invariant. What was written, the buffers in the backend's hands, the full
  buffers and the current one are the messages in the order of the lock; and where the
  backend refills `newBuffer1` and `newBuffer2` there are buffers to take, because
  `m_nextBuffer` is only empty while `m_buffers` is not.
* `append_ok`, `backend_ok`: one step keeps it.
* `log_pipeline`: **nothing is lost, duplicated or reordered, and no empty pointer or
  vector is used**, in every run.
-/

namespace MyMuduo

open Lib

namespace AsyncLogging

variable {s s' : AsyncLogging}

/-- The text of a buffer; none for an empty pointer. -/
def text (b : Option LogBuffer) : Bytes := (b.map FixedBuffer.m_data).getD []

/-- The text of buffers, one after the other. -/
def texts (bs : List (Option LogBuffer)) : Bytes := bs.flatMap text

/-- The buffers of `buffersToWrite` that were not written yet. -/
def unwritten (s : AsyncLogging) : List (Option LogBuffer) :=
  match s.pc with
  | .write i => s.buffersToWrite.drop i
  | _ => []

/-- All text there is, oldest first. -/
def stream (s : AsyncLogging) : Bytes :=
  s.written ++ texts s.unwritten ++ texts s.m_buffers ++ text s.m_currentBuffer

/-- What the backend has in its hands, by where it is. -/
def Backend (s : AsyncLogging) : Prop :=
  match s.pc with
  | .loop | .lock | .waiting | .exited =>
    s.newBuffer1.isSome ∧ s.newBuffer2.isSome ∧ s.buffersToWrite = []
  | .write _ | .refill1 =>
    s.newBuffer1 = none ∧ 1 ≤ s.buffersToWrite.length ∧
      (s.newBuffer2 = none → 2 ≤ s.buffersToWrite.length)
  | .refill2 => s.newBuffer1.isSome ∧ (s.newBuffer2 = none → 1 ≤ s.buffersToWrite.length)
  | .clear => s.newBuffer1.isSome ∧ s.newBuffer2.isSome

/-- **The invariant of the pipeline.** -/
structure LogOk (s : AsyncLogging) : Prop where
  fault : s.fault = none
  current : s.m_currentBuffer.isSome
  buffers : ∀ b ∈ s.m_buffers, b.isSome
  next : s.m_nextBuffer = none → s.m_buffers ≠ []
  clean : ∀ b, s.m_nextBuffer = some b ∨ s.newBuffer1 = some b ∨ s.newBuffer2 = some b → b.m_data = []
  toWrite : ∀ b ∈ s.buffersToWrite, b.isSome
  back : s.Backend
  stream : s.stream = (s.appended.map Prod.snd).flatten

theorem start_ok : start.LogOk where
  fault := rfl
  current := rfl
  buffers := by simp [start]
  next := by simp [start]
  clean := by
    rintro b (h | h | h) <;> cases h <;> rfl
  toWrite := by simp [start]
  back := ⟨rfl, rfl, rfl⟩
  stream := rfl

@[simp] theorem texts_nil : texts [] = [] := rfl

@[simp] theorem texts_append (bs cs : List (Option LogBuffer)) : texts (bs ++ cs) = texts bs ++ texts cs :=
  List.flatMap_append

@[simp] theorem texts_singleton (b : Option LogBuffer) : texts [b] = text b := by simp [texts]

/-! ## Producers -/

/-- A message that fits is taken over whole. -/
theorem append_data {b : LogBuffer} {data : Bytes} (hd : data.length < kLargeBuffer)
    (h : data.length < b.avail) : (b.append data).m_data = b.m_data ++ data := by
  have hc : castInt data.length = data.length := by
    apply castInt_of_lt
    have : kLargeBuffer < 2 ^ 31 := by decide
    omega
  unfold FixedBuffer.append
  rw [hc, if_pos h]

/-- A message that is not too long fits in an empty buffer. -/
theorem append_clean {b : LogBuffer} {data : Bytes} (hd : data.length < kLargeBuffer)
    (hb : b.m_data = []) : (b.append data).m_data = data := by
  rw [append_data hd, hb, List.nil_append]
  rw [FixedBuffer.avail, hb]
  simp only [List.length_nil, Nat.cast_zero, sub_zero, Nat.cast_lt]
  exact hd

/-- **An append keeps the pipeline.** -/
theorem append_ok (h : s.LogOk) (thread : ℕ) {data : Bytes} (hd : data.length < kLargeBuffer) :
    { s.append data with appended := s.appended ++ [(thread, data)] : AsyncLogging }.LogOk := by
  obtain ⟨hf, hcur, hbuf, hnext, hclean, hto, hback, hst⟩ := h
  obtain ⟨current, hc⟩ := Option.isSome_iff_exists.1 hcur
  have hst' : s.written ++ texts s.unwritten ++ texts s.m_buffers ++ current.m_data ++ data =
      ((s.appended ++ [(thread, data)]).map Prod.snd).flatten := by
    unfold AsyncLogging.stream at hst
    rw [hc] at hst
    rw [List.map_append, List.flatten_append, ← hst]
    simp [text]
  unfold append
  rw [hc]
  dsimp only
  by_cases hfit : (data.length : ℤ) < current.avail
  · rw [if_pos hfit]
    refine ⟨hf, rfl, hbuf, hnext, hclean, hto, hback, ?_⟩
    rw [← hst']
    unfold AsyncLogging.stream
    simp only [text, Option.map_some, Option.getD_some, append_data hd hfit, ← List.append_assoc]
    rfl
  · rw [if_neg hfit]
    have hbuf' : ∀ b ∈ s.m_buffers ++ [some current], b.isSome := by
      intro b hb
      rcases List.mem_append.1 hb with hb | hb
      · exact hbuf b hb
      · rw [List.mem_singleton.1 hb]
        rfl
    -- the buffer that is current next is empty, so the message fits
    have key : ∀ b : LogBuffer, b.m_data = [] →
        s.written ++ texts s.unwritten ++ texts (s.m_buffers ++ [some current]) ++
            text (some (b.append data)) =
          ((s.appended ++ [(thread, data)]).map Prod.snd).flatten := by
      intro b hb
      rw [← hst', texts_append, texts_singleton]
      simp only [text, Option.map_some, Option.getD_some, append_clean hd hb, List.append_assoc]
    cases hn : s.m_nextBuffer with
    | some b =>
      dsimp only
      refine ⟨hf, rfl, hbuf', by simp, ?_, hto, hback, key b (hclean b (Or.inl hn))⟩
      rintro c (hc' | hc' | hc')
      · cases hc'
      · exact hclean c (Or.inr (Or.inl hc'))
      · exact hclean c (Or.inr (Or.inr hc'))
    | none =>
      dsimp only
      refine ⟨hf, rfl, hbuf', by simp, ?_, hto, hback, key .new rfl⟩
      rintro c (hc' | hc' | hc')
      · cases hc'
      · exact hclean c (Or.inr (Or.inl hc'))
      · exact hclean c (Or.inr (Or.inr hc'))

/-! ## The backend -/

/-- **The section under the mutex.** -/
theorem swapBuffers_ok (h : s.LogOk) (hpc : s.pc = .lock ∨ s.pc = .waiting) : s.swapBuffers.LogOk := by
  obtain ⟨hf, hcur, hbuf, hnext, hclean, hto, hback, hst⟩ := h
  have hun : s.unwritten = [] := by
    unfold unwritten
    rcases hpc with hpc | hpc <;> rw [hpc]
  obtain ⟨h1, h2, h3⟩ : s.newBuffer1.isSome ∧ s.newBuffer2.isSome ∧ s.buffersToWrite = [] := by
    unfold Backend at hback
    rcases hpc with hpc | hpc <;> rw [hpc] at hback <;> exact hback
  obtain ⟨b1, hb1⟩ := Option.isSome_iff_exists.1 h1
  obtain ⟨b2, hb2⟩ := Option.isSome_iff_exists.1 h2
  have ht1 : text s.newBuffer1 = [] := by
    rw [hb1]
    exact hclean b1 (Or.inr (Or.inl hb1))
  -- `m_nextBuffer` is there again, and if it was missing two buffers are to be written
  have hn : (if s.m_nextBuffer.isNone then s.newBuffer2 else s.m_nextBuffer) ≠ none := by
    cases hnb : s.m_nextBuffer with
    | none => simp [hb2]
    | some b => simp
  have htwo : (if s.m_nextBuffer.isNone then none else s.newBuffer2) = none →
      2 ≤ (s.m_buffers ++ [s.m_currentBuffer]).length := by
    cases hnb : s.m_nextBuffer with
    | none =>
      intro _
      have := List.length_pos_iff.2 (hnext hnb)
      rw [List.length_append, List.length_singleton]
      omega
    | some b => simp [hb2]
  refine ⟨hf, h1, by simp [swapBuffers, h3], fun h => absurd h hn, ?_, ?_, ⟨rfl, by simp [swapBuffers], htwo⟩, ?_⟩
  · intro b hb
    simp only [swapBuffers] at hb
    cases hnb : s.m_nextBuffer with
    | none =>
      rw [hnb] at hb
      simp only [Option.isNone_none, if_true, reduceCtorEq, or_false] at hb
      exact hclean b (Or.inr (Or.inr hb))
    | some c =>
      rw [hnb] at hb
      simp only [Option.isNone_some, Bool.false_eq_true, if_false, reduceCtorEq, false_or] at hb
      rcases hb with hb | hb
      · exact hclean b (Or.inl (by rw [hnb, hb]))
      · exact hclean b (Or.inr (Or.inr hb))
  · intro b hb
    rcases List.mem_append.1 hb with hb | hb
    · exact hbuf b hb
    · rw [List.mem_singleton.1 hb]
      exact hcur
  · unfold AsyncLogging.stream at hst ⊢
    rw [hun] at hst
    have : s.swapBuffers.unwritten = s.m_buffers ++ [s.m_currentBuffer] := rfl
    rw [this]
    simp only [swapBuffers, h3, ht1, texts_append, texts_singleton, texts_nil, List.append_nil]
    simpa using hst

/-- The last buffer is there to be taken. -/
theorem takeBack_ok (h : s.LogOk) (hlen : 1 ≤ s.buffersToWrite.length) :
    ∃ b, s.takeBack = .ok (b, s.buffersToWrite.dropLast) ∧ b.m_data = [] := by
  have hne : s.buffersToWrite ≠ [] := List.length_pos_iff.1 hlen
  have hmem := List.getLast_mem hne
  obtain ⟨b, hb⟩ := Option.isSome_iff_exists.1 (h.toWrite _ hmem)
  refine ⟨b.reset, ?_, rfl⟩
  unfold takeBack
  rw [List.getLast?_eq_getLast_of_ne_nil hne, hb]

/-- `resize` keeps what the refills need. -/
theorem resize_buffers (s : AsyncLogging) :
    ∃ n, s.resize = { s with buffersToWrite := s.buffersToWrite.take n } ∧
      min 2 s.buffersToWrite.length ≤ (s.buffersToWrite.take n).length := by
  unfold resize
  split
  · exact ⟨2, rfl, by rw [List.length_take]⟩
  · exact ⟨s.buffersToWrite.length, by rw [List.take_length], by rw [List.take_length]; omega⟩

/-- **A step of the backend keeps the pipeline.** -/
theorem backend_ok (h : s.LogOk) (hs : s.backend = some s') : s'.LogOk := by
  have h' := h
  obtain ⟨hf, hcur, hbuf, hnext, hclean, hto, hback, hst⟩ := h
  unfold backend at hs
  unfold Backend at hback
  unfold AsyncLogging.stream unwritten at hst
  split at hs
  · -- the test of the loop
    rename_i hpc
    cases hs
    rw [hpc] at hback hst
    by_cases hr : s.m_running = true
    · rw [if_pos hr]
      exact ⟨hf, hcur, hbuf, hnext, hclean, hto, hback, hst⟩
    · rw [if_neg hr]
      exact ⟨hf, hcur, hbuf, hnext, hclean, hto, hback, hst⟩
  · -- the mutex is taken
    rename_i hpc
    cases hs
    split
    · rw [hpc] at hback hst
      exact ⟨hf, hcur, hbuf, hnext, hclean, hto, hback, hst⟩
    · exact swapBuffers_ok h' (Or.inl hpc)
  · rename_i hpc
    cases hs
    exact swapBuffers_ok h' (Or.inr hpc)
  · -- one buffer is written
    rename_i i hpc
    rw [hpc] at hback hst
    dsimp only at hback hst
    split at hs
    · rename_i b hb
      cases hs
      refine ⟨hf, hcur, hbuf, hnext, hclean, hto, hback, ?_⟩
      rw [← hst, List.drop_eq_getElem?_toList_append, hb]
      simp [AsyncLogging.stream, unwritten, texts, text]
    · rename_i hb
      -- no pointer of `buffersToWrite` is empty
      have := hto none (List.mem_of_getElem? hb)
      cases this
    · rename_i hb
      cases hs
      have hdrop : s.buffersToWrite.drop i = [] := by
        rw [List.drop_eq_nil_iff]
        exact List.getElem?_eq_none_iff.1 hb
      -- all is written, so `resize` drops nothing that counts
      obtain ⟨n, hn, hmin⟩ := resize_buffers s
      rw [hn]
      refine ⟨hf, hcur, hbuf, hnext, hclean, fun b hb => hto b (List.mem_of_mem_take hb), ?_, ?_⟩
      · obtain ⟨hb1, hb2, hb3⟩ := hback
        refine ⟨hb1, by simp only; omega, fun h2 => ?_⟩
        have := hb3 h2
        simp only
        omega
      · rw [hdrop] at hst
        exact hst
  · -- `newBuffer1`
    rename_i hpc
    rw [hpc] at hback hst
    obtain ⟨hb1, hb2, hb3⟩ := hback
    rw [if_pos (by simp [hb1])] at hs
    obtain ⟨b, hb, hdata⟩ := takeBack_ok h' hb2
    rw [hb] at hs
    cases hs
    refine ⟨hf, hcur, hbuf, hnext, ?_, fun b hb => hto b (List.mem_of_mem_dropLast hb), ?_, hst⟩
    · rintro c (hc | hc | hc)
      · exact hclean c (Or.inl hc)
      · cases hc
        exact hdata
      · exact hclean c (Or.inr (Or.inr hc))
    · refine ⟨rfl, fun h2 => ?_⟩
      have := hb3 h2
      simp only [List.length_dropLast]
      omega
  · -- `newBuffer2`
    rename_i hpc
    rw [hpc] at hback hst
    obtain ⟨hb1, hb2⟩ := hback
    split at hs
    · rename_i hnone
      obtain ⟨b, hb, hdata⟩ := takeBack_ok h' (hb2 (by simpa using hnone))
      rw [hb] at hs
      cases hs
      refine ⟨hf, hcur, hbuf, hnext, ?_, fun b hb => hto b (List.mem_of_mem_dropLast hb), ⟨hb1, rfl⟩, hst⟩
      rintro c (hc | hc | hc)
      · exact hclean c (Or.inl hc)
      · exact hclean c (Or.inr (Or.inl hc))
      · cases hc
        exact hdata
    · rename_i hsome
      cases hs
      refine ⟨hf, hcur, hbuf, hnext, hclean, hto, ⟨hb1, ?_⟩, hst⟩
      exact Option.isSome_iff_ne_none.2 (by simpa using hsome)
  · -- `clear()`
    rename_i hpc
    cases hs
    rw [hpc] at hback hst
    exact ⟨hf, hcur, hbuf, hnext, hclean, by simp, ⟨hback.1, hback.2, rfl⟩, hst⟩
  · cases hs

/-- **One step**, with messages that are not too long. -/
theorem step_ok (h : s.LogOk) {a : LogStep}
    (ha : ∀ thread data, a = .append thread data → data.length < kLargeBuffer)
    (hs : s.step a = some s') : s'.LogOk := by
  unfold AsyncLogging.step at hs
  rw [if_pos h.fault] at hs
  cases a with
  | append thread data =>
    cases hs
    exact append_ok h thread (ha thread data rfl)
  | backend => exact backend_ok h hs
  | stop =>
    cases hs
    exact ⟨h.fault, h.current, h.buffers, h.next, h.clean, h.toWrite, h.back, h.stream⟩

/-! ## Whole runs -/

/-- **The log loses, duplicates and reorders nothing.** In every state of every run whose
messages are shorter than a buffer: what was given to the log file, the buffers still to be
written, the full buffers and the current one are the messages in the order of the lock;
`m_currentBuffer` is there for the next `append`; a refill finds a buffer to take; and no
empty pointer or vector was used so far. -/
theorem log_pipeline (steps : List LogStep) {s : AsyncLogging}
    (hfit : ∀ thread data, .append thread data ∈ steps → data.length < kLargeBuffer)
    (hrun : run AsyncLogging.step start steps = some s) :
    s.written ++ texts s.unwritten ++ texts s.m_buffers ++ text s.m_currentBuffer =
        (s.appended.map Prod.snd).flatten ∧
      s.m_currentBuffer.isSome ∧
      (s.pc = .refill1 ∧ s.newBuffer1 = none ∨ s.pc = .refill2 ∧ s.newBuffer2 = none →
        s.buffersToWrite ≠ []) ∧
      s.fault = none := by
  -- the bound on the messages is a condition on the steps
  have h : s.LogOk := by
    refine run_inv_along (fun s a s' hI ha hs => step_ok hI ha hs) steps start_ok
      (along_of_forall (P := fun a => ∀ t d, a = LogStep.append t d → d.length < kLargeBuffer) _ ?_) hrun
    rintro a ha t d rfl
    exact hfit t d ha
  refine ⟨h.stream, h.current, ?_, h.fault⟩
  intro hpc
  have hback := h.back
  unfold Backend at hback
  rw [← List.length_pos_iff]
  rcases hpc with ⟨hpc, -⟩ | ⟨hpc, hnone⟩
  · rw [hpc] at hback
    exact hback.2.1
  · rw [hpc] at hback
    exact hback.2 hnone

/-- Two producers; the backend writes once and is about to refill. -/
def pipelineSteps : List LogStep :=
  [.append 1 [65, 66], .append 2 [67], .backend, .backend, .backend, .append 1 [68], .backend, .backend]

theorem log_pipeline_two :
    ∃ s, run AsyncLogging.step start pipelineSteps = some s ∧ s.pc = .refill1 ∧
      s.written = [65, 66, 67] ∧ s.buffersToWrite ≠ [] ∧ s.fault = none := by
  have hfit : ∀ thread data, .append thread data ∈ pipelineSteps → data.length < kLargeBuffer := by
    intro thread data h
    simp only [pipelineSteps, List.mem_cons, LogStep.append.injEq, reduceCtorEq, false_or, List.not_mem_nil,
      or_false] at h
    rcases h with ⟨-, rfl⟩ | ⟨-, rfl⟩ | ⟨-, rfl⟩ <;> decide
  obtain ⟨-, -, h3, h4⟩ := log_pipeline pipelineSteps hfit rfl
  exact ⟨_, rfl, rfl, rfl, h3 (Or.inl ⟨rfl, rfl⟩), h4⟩

end AsyncLogging

end MyMuduo
