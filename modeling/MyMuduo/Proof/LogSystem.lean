import MyMuduo.Lib.Blocks
import MyMuduo.Proof.AsyncLogging
import MyMuduo.Proof.LogFile
import MyMuduo.Proof.LogStop
import MyMuduo.Proof.Logging
import MyMuduo.Spec.LogSystem

/-!
# From log statements to log files

* `append_front`, `backend_moves`: in the buffers of `AsyncLogging`, and on their way to the file,
  records stay whole.
* `SystemOk`: the invariant. What the backend took over at its last swap is in the files or in
  `buffersToWrite`, what came later is in the buffers of the producers; no record is in two of them.
* `log_files`: **the files, one after the other, and the buffers have the records of all statements
  whose level is on, whole, once and in order.**
* `log_durable`: **between two rounds all that the backend took over is flushed.**
* `log_disk`: **nothing in a file is overwritten, and two rolls share a file only in one second.**
* `log_ends`: **a file that cannot be opened ends the log**, and the process with its next record.
-/

namespace MyMuduo

open Lib

/-! ## The buffers -/

namespace AsyncLogging

variable {s s' : AsyncLogging}

/-- The texts of the buffers that the producers fill. -/
def front (s : AsyncLogging) : List Bytes := (s.m_buffers ++ [s.m_currentBuffer]).map text

/-- The texts of the buffers that the backend is still to write. -/
def back (s : AsyncLogging) : List Bytes := s.unwritten.map text

/-- **A message goes to the end of the current buffer, or into the next one.** -/
theorem append_front (h : s.LogOk) {thread : ℕ} {data : Bytes} (hd : data.length < kLargeBuffer)
    (hs : s.step (.append thread data) = some s') :
    s'.back = s.back ∧ ∃ b x, s.front = b ++ [x] ∧
      (s'.front = b ++ [x ++ data] ∨ s'.front = b ++ [x] ++ [data]) := by
  obtain ⟨current, hc⟩ := Option.isSome_iff_exists.1 h.current
  simp only [AsyncLogging.step, Option.ite_none_right_eq_some, Option.some.injEq] at hs
  obtain ⟨-, rfl⟩ := hs
  have hfront : s.front = s.m_buffers.map text ++ [current.m_data] := by
    rw [front, hc, List.map_append]
    rfl
  unfold append
  rw [hc]
  dsimp only
  by_cases hfit : (data.length : ℤ) < current.avail
  · rw [if_pos hfit]
    refine ⟨rfl, _, _, hfront, .inl ?_⟩
    rw [front, List.map_append, ← append_data hd hfit]
    rfl
  · rw [if_neg hfit]
    -- the buffer that is current next is empty
    have hnew : ∀ b : LogBuffer, b.m_data = [] →
        (s.m_buffers ++ [some current] ++ [some (b.append data)]).map text =
          s.m_buffers.map text ++ [current.m_data] ++ [data] := by
      intro b hb
      have htext : text (some (b.append data)) = data := append_clean hd hb
      rw [List.map_append, List.map_append, List.map_singleton, List.map_singleton, htext]
      rfl
    cases hn : s.m_nextBuffer with
    | some b => exact ⟨rfl, _, _, hfront, .inr (hnew b (h.clean b (.inl hn)))⟩
    | none => exact ⟨rfl, _, _, hfront, .inr (hnew .new rfl)⟩

/-- **The section under the mutex takes over all that was appended.** -/
theorem swapBuffers_front (h : s.LogOk) (hpc : s.pc = .lock ∨ s.pc = .waiting) :
    s.back = [] ∧ s.swapBuffers.back = s.front ∧ s.swapBuffers.front = [[]] := by
  obtain ⟨h1, h3⟩ : s.newBuffer1.isSome ∧ s.buffersToWrite = [] := by
    have hback := h.back
    unfold Backend at hback
    rcases hpc with hpc | hpc
    · rw [hpc] at hback
      exact ⟨hback.1, hback.2.2⟩
    · rw [hpc] at hback
      exact ⟨hback.1, hback.2.2⟩
  obtain ⟨b, hb⟩ := Option.isSome_iff_exists.1 h1
  have hclean : text s.newBuffer1 = [] := by
    rw [hb]
    exact h.clean b (.inr (.inl hb))
  refine ⟨?_, rfl, ?_⟩
  · unfold back unwritten
    rcases hpc with hpc | hpc
    · rw [hpc]
      rfl
    · rw [hpc]
      rfl
  · rw [front, swapBuffers, h3, List.nil_append, List.map_singleton, hclean]

/-- What a step of the backend does to the buffers. -/
structure BackendMoves (s s' : AsyncLogging) : Prop where
  appended : s'.appended = s.appended
  /-- a block goes to the file -/
  write : ∀ data, s.block = some data → s.back = data :: s'.back ∧ s'.front = s.front
  swap : s.swaps = true → s.back = [] ∧ s'.back = s.front ∧ s'.front = [[]]
  rest : s.block = none → s.swaps = false → s'.back = s.back ∧ s'.front = s.front
  /-- a round ends with a flush, and so does the loop -/
  idle : s'.Idle → s.Idle ∨ s.flushes = true

theorem swaps_of_block {data : Bytes} (h : s.block = some data) : s.swaps = false := by
  unfold block at h
  split at h
  · rename_i hpc
    simp [swaps, hpc]
  · cases h

theorem block_of_flushes (h : s.flushes = true) : s.block = none := by
  unfold block
  split
  · rename_i hpc
    simp [flushes, ends, hpc] at h
  · rfl

theorem block_of_idle (h : s.Idle) : s.block = none := by
  unfold block
  rcases h with h | h | h | h <;> rw [h]

theorem back_of_idle (h : s.Idle) : s.back = [] := by
  unfold back unwritten
  rcases h with h | h | h | h <;> rw [h] <;> rfl

/-- A step that leaves all buffers where they are. -/
theorem BackendMoves.quiet (happ : s'.appended = s.appended) (hblock : s.block = none)
    (hswaps : s.swaps = false) (hback : s'.back = s.back) (hfront : s'.front = s.front)
    (hidle : s'.Idle → s.Idle ∨ s.flushes = true) : BackendMoves s s' where
  appended := happ
  write data h := by
    rw [hblock] at h
    cases h
  swap h := by
    rw [hswaps] at h
    cases h
  rest _ _ := ⟨hback, hfront⟩
  idle := hidle

/-- The section under the mutex. -/
theorem BackendMoves.swapBuffers (h : s.LogOk) (hpc : s.pc = .lock ∨ s.pc = .waiting)
    (hswaps : s.swaps = true) : BackendMoves s s.swapBuffers where
  appended := rfl
  write data hdata := by
    rw [block_of_idle (.inr (hpc.imp_right .inl))] at hdata
    cases hdata
  swap _ := swapBuffers_front h hpc
  rest _ hn := by
    rw [hswaps] at hn
    cases hn
  idle _ := .inl (.inr (hpc.imp_right .inl))

/-- The backend takes a buffer back. -/
theorem refill_moves (hpc : s.pc = .refill1 ∨ s.pc = .refill2) (hs : s.backend = some s') :
    BackendMoves s s' := by
  have hmove : s'.back = [] ∧ s'.front = s.front ∧ ¬s'.Idle := by
    unfold backend at hs
    rcases hpc with hpc | hpc
    all_goals
      simp only [hpc] at hs
      split at hs
      · split at hs
        · cases hs
          exact ⟨rfl, rfl, by simp [Idle]⟩
        · cases hs
          exact ⟨by simp [back, unwritten], rfl, by simp [Idle]⟩
      · cases hs
        exact ⟨rfl, rfl, by simp [Idle]⟩
  obtain ⟨hback, hfront, hbusy⟩ := hmove
  have happ := (LogStop.backend_frame hs).1
  rcases hpc with hpc | hpc
  all_goals
    refine .quiet happ (by simp [block, hpc]) (by simp [swaps, hpc]) ?_ hfront
      fun hidle => absurd hidle hbusy
    rw [hback]
    simp [back, unwritten, hpc]

/-- **A step of the backend.** -/
theorem backend_moves (h : s.LogOk) (hs : s.backend = some s') : BackendMoves s s' := by
  have happ := (LogStop.backend_frame hs).1
  -- where the backend neither has a block nor takes the mutex, it only moves on
  have hquiet : s.pc ≠ .lock → s.pc ≠ .waiting → s.block = none → s'.back = s.back →
      s'.front = s.front → (s'.Idle → s.Idle ∨ s.flushes = true) → BackendMoves s s' := by
    intro h1 h2 h3 h4 h5 h6
    exact .quiet happ h3 (by simp [swaps, h1, h2]) h4 h5 h6
  have hstep := hs
  unfold backend at hs
  split at hs
  · rename_i hpc
    cases hs
    refine hquiet (by rw [hpc]; simp) (by rw [hpc]; simp) (by simp [block, hpc]) ?_ rfl
      fun _ => .inl (.inl hpc)
    by_cases hr : s.m_running = true
    · simp [back, unwritten, hpc, hr]
    · simp [back, unwritten, hpc, hr]
  · rename_i hpc
    cases hs
    split
    · rename_i hempty
      refine .quiet rfl (by simp [block, hpc]) (by simp [swaps, hpc, hempty]) ?_ rfl
        fun _ => .inl (.inr (.inl hpc))
      simp [back, unwritten, hpc]
    · rename_i hfull
      exact .swapBuffers h (.inl hpc) (by simp [swaps, hpc, hfull])
  · rename_i hpc
    cases hs
    exact .swapBuffers h (.inr hpc) (by simp [swaps, hpc])
  · rename_i i hpc
    have hswaps : s.swaps = false := by simp [swaps, hpc]
    split at hs
    · -- one block is written
      rename_i b hb
      cases hs
      have hblock : s.block = some b.m_data := by simp [block, hpc, hb]
      refine ⟨rfl, fun data hdata => ⟨?_, rfl⟩, fun hn => ?_, fun hn => ?_, fun hidle => ?_⟩
      · rw [hblock, Option.some_inj] at hdata
        subst hdata
        simp only [back, unwritten, hpc]
        rw [List.drop_eq_getElem?_toList_append, hb]
        rfl
      · rw [hswaps] at hn
        cases hn
      · rw [hblock] at hn
        cases hn
      · simp [Idle] at hidle
    · -- no pointer of `buffersToWrite` is empty
      rename_i hb
      have := h.toWrite none (List.mem_of_getElem? hb)
      cases this
    · rename_i hb
      cases hs
      have hdrop : s.buffersToWrite.drop i = [] := by
        rw [List.drop_eq_nil_iff]
        exact List.getElem?_eq_none_iff.1 hb
      obtain ⟨n, hn, -⟩ := resize_buffers s
      refine .quiet happ (by simp [block, hpc, hb]) hswaps ?_ (by simp [front, hn])
        (fun hidle => by simp [Idle] at hidle)
      simp [back, unwritten, hpc, hdrop]
  · rename_i hpc
    exact refill_moves (.inl hpc) hstep
  · rename_i hpc
    exact refill_moves (.inr hpc) hstep
  · rename_i hpc
    cases hs
    exact hquiet (by rw [hpc]; simp) (by rw [hpc]; simp) (by simp [block, hpc])
      (by simp [back, unwritten, hpc]) rfl fun _ => .inr (by simp [flushes, hpc])
  · cases hs

end AsyncLogging

/-! ## Records and files -/

namespace Logger.Statement

/-- The strings of a statement are shorter than 2 GiB. -/
structure Short (c : Statement) : Prop where
  items : ∀ i ∈ c.items, i.text.length < 2 ^ 31
  filename : c.filename.length < 2 ^ 31

theorem basename_length_le (filename : Bytes) : (SourceFile filename).length ≤ filename.length := by
  rw [SourceFile, List.length_reverse]
  calc ((filename.take (strlen filename)).reverse.takeWhile (· ≠ 47)).length
      ≤ (filename.take (strlen filename)).reverse.length := (List.takeWhile_prefix _).length_le
    _ ≤ filename.length := by
      rw [List.length_reverse]
      exact List.length_take_le' _ _

theorem text_length_le {items : List Insertion} {i : Insertion} (hi : i ∈ items) :
    i.text.length ≤ (items.flatMap Insertion.text).length := by
  rw [List.length_flatMap]
  exact List.le_sum_of_mem (List.mem_map_of_mem hi)

/-- **A record fits in any buffer of the log.** -/
theorem Short.record_length {c : Statement} (h : c.Short) :
    ∃ r, c.record = some r ∧ r.length < kLargeBuffer := by
  have hshort : ∀ i ∈ c.headItems ++ c.tailItems, i.text.length < 2 ^ 31 := by
    have htime := timeText_length_le c.now
    have hthread := threadText_length_le (c := c)
    have hbase : (c.impl.m_basename.takeWhile (· ≠ 0)).length ≤ c.filename.length :=
      (List.takeWhile_prefix _).length_le.trans (basename_length_le c.filename)
    have hline := RawBuffer.decimal_length_le (T := .int) c.line
    intro i hi
    simp only [headItems, tailItems, List.mem_append, List.mem_cons, List.not_mem_nil, or_false] at hi
    rcases hi with (((hi | hi) | hi) | hi | hi) | hi | hi | hi
    · have := text_length_le hi
      rw [timeText] at htime
      omega
    · have := text_length_le hi
      omega
    · exact h.items i hi
    · subst hi
      decide
    · subst hi
      exact lt_of_le_of_lt hbase h.filename
    · subst hi
      decide
    · subst hi
      change (decimal (IntType.value .int c.line)).length < 2 ^ 31
      omega
    · subst hi
      decide
  obtain ⟨b, hok, hrecord, -⟩ := record_of_short hshort
  refine ⟨b.text, hrecord, ?_⟩
  have hcur : b.text.length < kSmallBuffer := by
    rw [RawBuffer.text_length]
    exact hok.cur
  exact hcur.trans (by decide)

end Logger.Statement

namespace LogFile

variable (f : LogFile)

/-- **What a block does to the files**: it goes to the current one, which may be closed then. -/
theorem account_cases {out : Bytes} {a : LogAppend} {f' : LogFile} (h : f.account out a = some f') :
    f'.m_basename = f.m_basename ∧ f'.m_rollSize = f.m_rollSize ∧
      (f'.closed = f.closed ∧ f'.m_fp = f.m_fp ∧ f'.current = f.current ++ out ∧
          f'.m_writtenBytes = f.m_writtenBytes + a.data.length ∨
        ∃ name, f.m_fp = some name ∧ f'.closed = f.closed ++ [(name, f.current ++ out)] ∧
          f'.m_fp = (if a.opens then some (getLogFileName f.m_basename a.rollNow a.tid) else none) ∧
          f'.current = [] ∧ f'.m_writtenBytes = 0) := by
  rw [account_eq] at h
  split at h
  · cases h
    exact ⟨rfl, rfl, .inl ⟨rfl, rfl, rfl, rfl⟩⟩
  · split at h
    · obtain ⟨name, hname, rfl⟩ := Option.map_eq_some_iff.1 h
      exact ⟨rfl, rfl, .inr ⟨name, hname, rfl, rfl, rfl, rfl⟩⟩
    · cases h
      exact ⟨rfl, rfl, .inl ⟨rfl, rfl, rfl, rfl⟩⟩

end LogFile

/-- The text of a second tells it. -/
theorem stamp_inj {t t' : ℕ} (ht : InRange t) (ht' : InRange t')
    (h : stamp t = stamp t') : t = t' := by
  rcases Nat.lt_trichotomy t t' with hlt | heq | hgt
  · have := stamp_lt ht ht' hlt
    rw [h] at this
    exact absurd this (List.lt_irrefl _)
  · exact heq
  · have := stamp_lt ht' ht hgt
    rw [h] at this
    exact absurd this (List.lt_irrefl _)

namespace LogSystem

variable {s s' : LogSystem}

/-- What was written to the streams, one after the other; to one that could not be opened nothing was. -/
def files (s : LogSystem) : List Bytes := s.logFile.closed.map Prod.snd ++ [s.logFile.current]

/-- The block is written, or there is no file. -/
theorem write_cases {data : Bytes} {a : LogAppend} (hs : s.write data a = some s') :
    (s.logFile.m_fp = none ∧ s.logFile.append { a with data := data } = none ∧
      s' = { s with crashed := true }) ∨
    (s.logFile.m_fp = none → data = []) ∧
      ∃ logFile, s.logFile.account data { a with data := data } = some logFile ∧
        s' = { s with
          logFile := logFile
          disk := s.diskAfter data
          rolls := if logFile.closed ≠ s.logFile.closed ∧ a.opens then s.rolls ++ [(a.rollNow, a.tid)]
            else s.rolls } := by
  unfold write at hs
  split at hs
  · rename_i logFile happend
    cases hs
    obtain ⟨haccount, hdata⟩ := LogFile.append_eq_some happend
    exact .inr ⟨hdata, logFile, haccount, rfl⟩
  · rename_i hnone
    rw [Option.ite_none_right_eq_some, Option.some_inj] at hs
    exact .inl ⟨hs.1, hnone, hs.2.symm⟩

/-- What a step of the backend does to the file. -/
structure FileMoves (s s' : LogSystem) : Prop where
  log : s'.log = s.log
  level : s'.g_logLevel = s.g_logLevel
  write : ∀ data, s.log.block = some data → ∃ fs x, s.files = fs ++ [x] ∧
    (s'.files = fs ++ [x ++ data] ∨ s'.files = fs ++ [x ++ data] ++ [[]])
  rest : s.log.block = none → s'.files = s.files
  flushed : s.log.block = none → s.log.flushes = true ∨ s.logFile.flushed = s.logFile.current.length →
    s'.logFile.flushed = s'.logFile.current.length

/-- **A step of the backend, at the file**: it is the end of the process, or the block is written. -/
theorem file_moves {a : LogAppend} (hs : s.file a = some s') :
    s' = { s with crashed := true } ∨ s'.crashed = s.crashed ∧ FileMoves s s' := by
  unfold file at hs
  cases hblock : s.log.block with
  | some data =>
    rw [hblock] at hs
    rcases write_cases hs with ⟨-, -, rfl⟩ | ⟨-, logFile, haccount, rfl⟩
    · exact .inl rfl
    refine .inr ⟨rfl, rfl, rfl, fun data' hdata => ?_, fun hn => ?_, fun hn => ?_⟩
    · rw [hblock, Option.some_inj] at hdata
      subst hdata
      refine ⟨s.logFile.closed.map Prod.snd, s.logFile.current, rfl, ?_⟩
      unfold files
      dsimp only
      obtain ⟨-, -, ⟨hclosed, -, hcur, -⟩ | ⟨name, -, hclosed, -, hcur, -⟩⟩ := s.logFile.account_cases haccount
      · rw [hclosed, hcur]
        exact .inl rfl
      · rw [hclosed, hcur, List.map_append, List.map_singleton]
        exact .inr rfl
    · rw [hblock] at hn
      cases hn
    · rw [hblock] at hn
      cases hn
  | none =>
    rw [hblock] at hs
    dsimp only at hs
    split at hs
    · cases hs
      exact .inl rfl
    · cases hs
      refine .inr ⟨?_, ?_, ?_, fun data hdata => ?_, fun _ => ?_, fun _ hflush => ?_⟩
      · split
        · rfl
        · rfl
      · split
        · rfl
        · rfl
      · split
        · rfl
        · rfl
      · rw [hblock] at hdata
        cases hdata
      · split
        · rfl
        · rfl
      · split
        · rfl
        · rename_i hn
          exact hflush.resolve_left hn

/-- **A step of the backend** is the end of the process, or one of the file and one of the buffers. -/
theorem backend_cases {a : LogAppend} (hcrash : s.crashed = false) (hs : s.backend a = some s') :
    s' = { s with crashed := true } ∨ ∃ s₁ log, s₁.crashed = false ∧ s.file a = some s₁ ∧ FileMoves s s₁ ∧
      s.log.step .backend = some log ∧
      s' = { s₁ with log := log, taken := if s.log.swaps then s.log.appended.length else s.taken } := by
  obtain ⟨s₁, hfile, hs⟩ := Option.bind_eq_some_iff.1 hs
  rcases file_moves hfile with rfl | ⟨hsame, hmoves⟩
  · rw [if_pos rfl] at hs
    exact .inl (Option.some_inj.1 hs).symm
  · rw [hcrash] at hsame
    rw [if_neg (by rw [hsame]; decide)] at hs
    obtain ⟨log, hlog, rfl⟩ := Option.map_eq_some_iff.1 hs
    exact .inr ⟨s₁, log, hsame, hfile, hmoves, hlog, rfl⟩

/-! ## The invariant -/

/-- The records in the order of the mutex. -/
def messages (s : LogSystem) : List Bytes := s.log.appended.map Prod.snd

/-- **The invariant of the log**: the backend has the records of its last swap, the producers
those that came later. -/
structure SystemOk (s : LogSystem) : Prop where
  log : s.log.LogOk
  taken : s.taken ≤ s.messages.length
  back : Whole (s.files ++ s.log.back) (s.messages.take s.taken)
  front : Whole s.log.front (s.messages.drop s.taken)
  flushed : s.log.Idle → s.logFile.flushed = s.logFile.current.length

theorem start_ok (level : Logger.LogLevel) (filepath : Bytes) (opens opensDefault : Bool) (now tid : ℕ)
    (old : Bytes → Bytes) : (start level filepath opens opensDefault now tid old).SystemOk where
  log := AsyncLogging.start_ok
  taken := Nat.zero_le _
  back := Whole.singleton []
  front := Whole.singleton []
  flushed _ := rfl

/-- A record is appended. -/
theorem SystemOk.append (h : s.SystemOk) {thread : ℕ} {record : Bytes}
    (hlen : record.length < kLargeBuffer) {log : AsyncLogging}
    (hs : s.log.step (.append thread record) = some log) : { s with log := log }.SystemOk := by
  have hok := AsyncLogging.step_ok h.log (a := .append thread record)
    (fun t d he => by cases he; exact hlen) hs
  obtain ⟨happ, -, hpc, -⟩ := LogStop.append_frame hs
  obtain ⟨hback, b, x, hfront, hcases⟩ := AsyncLogging.append_front h.log hlen hs
  have hmessages : { s with log := log }.messages = s.messages ++ [record] := by
    rw [messages, messages, happ, List.map_append]
    rfl
  have hold := h.front
  rw [hfront] at hold
  refine ⟨hok, ?_, ?_, ?_, fun hidle => h.flushed ?_⟩
  · rw [hmessages, List.length_append]
    exact Nat.le_add_right_of_le h.taken
  · rw [hmessages, List.take_append_of_le_length h.taken, hback]
    exact h.back
  · rw [hmessages, List.drop_append_of_le_length h.taken]
    rcases hcases with hcases | hcases
    · rw [hcases]
      exact hold.extend record
    · rw [hcases]
      exact hold.push record
  · unfold AsyncLogging.Idle at hidle ⊢
    rwa [← hpc]

/-- A step of the backend. -/
theorem SystemOk.backend (h : s.SystemOk) (hcrash : s.crashed = false) {a : LogAppend}
    (hs : s.backend a = some s') : s'.SystemOk := by
  rcases backend_cases hcrash hs with rfl | ⟨s₁, log, -, -, hfmoves, hlog, rfl⟩
  · exact ⟨h.log, h.taken, h.back, h.front, h.flushed⟩
  have hok := AsyncLogging.step_ok h.log (a := .backend) (fun t d he => by cases he) hlog
  unfold AsyncLogging.step at hlog
  rw [if_pos h.log.fault] at hlog
  have hmoves := AsyncLogging.backend_moves h.log hlog
  have hback := h.back
  have hmessages : ∀ n, { s₁ with log := log, taken := n }.messages = s.messages := fun n => by
    rw [messages, messages, hmoves.appended]
  have hflushed : log.Idle → s₁.logFile.flushed = s₁.logFile.current.length := fun hidle => by
    rcases hmoves.idle hidle with hi | hi
    · exact hfmoves.flushed (AsyncLogging.block_of_idle hi) (.inr (h.flushed hi))
    · exact hfmoves.flushed (AsyncLogging.block_of_flushes hi) (.inl hi)
  cases hblock : s.log.block with
  | some data =>
    -- the block goes to the current file, and the next one begins a new file perhaps
    obtain ⟨htail, hfront⟩ := hmoves.write data hblock
    obtain ⟨fs, x, hfs, hfs'⟩ := hfmoves.write data hblock
    rw [hfs, htail, List.append_assoc, List.singleton_append] at hback
    have hmerged := hback.merge
    rw [AsyncLogging.swaps_of_block hblock, if_neg (by simp)]
    refine ⟨hok, ?_, ?_, ?_, hflushed⟩
    · rw [hmessages]
      exact h.taken
    · rw [hmessages]
      change Whole (s₁.files ++ log.back) _
      rcases hfs' with hfs' | hfs'
      · rw [hfs', List.append_assoc]
        exact hmerged
      · rw [hfs', List.append_assoc _ [[]], List.singleton_append]
        refine Whole.insert ?_
        rw [List.append_assoc]
        exact hmerged
    · rw [hmessages]
      change Whole log.front _
      rw [hfront]
      exact h.front
  | none =>
    have hfiles := hfmoves.rest hblock
    cases hswaps : s.log.swaps with
    | true =>
      -- all that was appended is with the backend now
      obtain ⟨hnone, hall, hempty⟩ := hmoves.swap hswaps
      have hlen : s.messages.length = s.log.appended.length := List.length_map _
      rw [if_pos rfl]
      refine ⟨hok, ?_, ?_, ?_, hflushed⟩
      · rw [hmessages, hlen]
      · rw [hmessages, ← hlen, List.take_length]
        change Whole (s₁.files ++ log.back) _
        rw [hfiles, hall]
        rw [hnone, List.append_nil] at hback
        have happend := hback.append h.front
        rwa [List.take_append_drop] at happend
      · rw [hmessages, ← hlen, List.drop_length]
        change Whole log.front _
        rw [hempty]
        exact Whole.singleton []
    | false =>
      obtain ⟨hsame, hfront⟩ := hmoves.rest hblock hswaps
      rw [if_neg (by simp)]
      refine ⟨hok, ?_, ?_, ?_, hflushed⟩
      · rw [hmessages]
        exact h.taken
      · rw [hmessages]
        change Whole (s₁.files ++ log.back) _
        rw [hfiles, hsame]
        exact hback
      · rw [hmessages]
        change Whole log.front _
        rw [hfront]
        exact h.front

end LogSystem

/-- The strings of the statement are shorter than 2 GiB. -/
def LogSystemStep.Short (a : LogSystemStep) : Prop := ∀ thread c, a = .statement thread c → c.Short

namespace LogSystem

variable {s s' : LogSystem}

/-- Only a running process makes a step. -/
theorem step_act {a : LogSystemStep} (hs : s.step a = some s') : s.crashed = false ∧ s.act a = some s' := by
  rw [step, Option.ite_none_left_eq_some] at hs
  exact ⟨Bool.eq_false_iff.2 hs.1, hs.2⟩

/-- A statement appends its record, if its level is on. -/
theorem statement_cases {thread : ℕ} {c : Logger.Statement} (hs : s.statement thread c = some s') :
    (s.g_logLevel.isLogged c.level = true ∧ ∃ r log, c.record = some r ∧
        s.log.step (.append thread r) = some log ∧ s' = { s with log := log }) ∨
      s.g_logLevel.isLogged c.level ≠ true ∧ s' = s := by
  unfold statement at hs
  split at hs
  · rename_i hlevel
    obtain ⟨r, hr, hs⟩ := Option.bind_eq_some_iff.1 hs
    obtain ⟨log, hlog, rfl⟩ := Option.map_eq_some_iff.1 hs
    exact .inl ⟨hlevel, r, log, hr, hlog, rfl⟩
  · rename_i hlevel
    exact .inr ⟨hlevel, (Option.some_inj.1 hs).symm⟩

/-- **One step of any thread.** -/
theorem step_ok (h : s.SystemOk) {a : LogSystemStep} (ha : a.Short) (hs : s.step a = some s') :
    s'.SystemOk := by
  obtain ⟨hcrash, hs⟩ := step_act hs
  cases a with
  | setLogLevel level =>
    cases hs
    exact ⟨h.log, h.taken, h.back, h.front, h.flushed⟩
  | statement thread c =>
    rcases statement_cases hs with ⟨-, r, log, hr, hlog, rfl⟩ | ⟨-, rfl⟩
    · obtain ⟨r', hr', hlen⟩ := (ha thread c rfl).record_length
      rw [hr, Option.some_inj] at hr'
      subst hr'
      exact h.append hlen hlog
    · exact h
  | backend a => exact h.backend hcrash hs
  | stop =>
    obtain ⟨log, hlog, rfl⟩ := Option.map_eq_some_iff.1 hs
    have hok := AsyncLogging.step_ok h.log (fun t d he => by cases he) hlog
    simp only [AsyncLogging.step, Option.ite_none_right_eq_some, Option.some.injEq] at hlog
    obtain ⟨-, rfl⟩ := hlog
    exact ⟨hok, h.taken, h.back, h.front, h.flushed⟩

/-- The records of the statements whose level is on are appended, one after the other. -/
theorem run_messages (steps : List LogSystemStep) (hrun : run step s steps = some s') :
    s'.messages = s.messages ++ records s.g_logLevel steps := by
  induction steps generalizing s with
  | nil =>
    cases hrun
    exact (List.append_nil _).symm
  | cons a steps ih =>
    obtain ⟨s₁, hs, hrun⟩ := run_cons hrun
    have hrest := ih hrun
    obtain ⟨hcrash, hs⟩ := step_act hs
    cases a with
    | setLogLevel level =>
      cases hs
      exact hrest
    | statement thread c =>
      rw [records]
      rcases statement_cases hs with ⟨hlevel, r, log, hr, hlog, rfl⟩ | ⟨hlevel, rfl⟩
      · obtain ⟨happ, -⟩ := LogStop.append_frame hlog
        have hmessages : { s with log := log }.messages = s.messages ++ [r] := by
          rw [messages, messages, happ, List.map_append]
          rfl
        rw [hrest, hmessages, if_pos hlevel, hr, List.append_assoc]
        rfl
      · rw [hrest, if_neg hlevel]
    | backend a =>
      rcases backend_cases hcrash hs with rfl | ⟨s₂, log, -, -, hmoves, hlog, rfl⟩
      · exact hrest
      · simp only [AsyncLogging.step, Option.ite_none_right_eq_some] at hlog
        have happ := (LogStop.backend_frame hlog.2).1
        rw [hrest, records, messages, happ, hmoves.level]
        rfl
    | stop =>
      obtain ⟨log, hlog, rfl⟩ := Option.map_eq_some_iff.1 hs
      simp only [AsyncLogging.step, Option.ite_none_right_eq_some, Option.some.injEq] at hlog
      obtain ⟨-, rfl⟩ := hlog
      exact hrest

/-! ## One round -/

/-- The disk takes all bytes. -/
def fastWrite : LogAppend := ⟨[], fun _ => 100, 1, 0, 0, true, 7⟩

/-- A statement, and a round of the backend. -/
def roundSteps : List LogSystemStep :=
  .statement 1 Logger.sample :: List.replicate 8 (.backend fastWrite)

/-- `opens` tells whether the log file can be opened, under any name. -/
def roundStart (opens : Bool) : LogSystem := start .INFO (ascii "./log") opens opens 0 7 fun _ => []

theorem sample_short : ∀ a ∈ roundSteps, a.Short := by
  rintro a ha thread c rfl
  simp only [roundSteps, List.mem_cons, LogSystemStep.statement.injEq, List.mem_replicate, reduceCtorEq,
    and_false, or_false] at ha
  obtain ⟨-, rfl⟩ := ha
  exact ⟨by decide, by decide⟩

theorem sample_record : Logger.sample.record = some (ascii "19700101 00:00:00.1 1 INFO hi - a.cpp58410") := by
  rw [Logger.Statement.record_text (by decide)]
  decide

theorem sample_step (opens : Bool) : step (roundStart opens) (.statement 1 Logger.sample) = some
    { roundStart opens with
      log := { (roundStart opens).log.append (ascii "19700101 00:00:00.1 1 INFO hi - a.cpp58410") with
        appended := [(1, ascii "19700101 00:00:00.1 1 INFO hi - a.cpp58410")] } } := by
  rw [step, if_neg (by cases opens <;> decide), act, statement, sample_record]
  rfl

theorem round_run : ∃ s, run step (roundStart true) roundSteps = some s ∧ s.log.pc = .loop ∧ s.taken = 1 ∧
    s.files = [ascii "19700101 00:00:00.1 1 INFO hi - a.cpp58410"] := by
  rw [roundSteps, run, sample_step]
  exact ⟨_, rfl, rfl, rfl, rfl⟩

/-! ## Whole runs -/

section Runs

variable (level : Logger.LogLevel) (filepath : Bytes) (opens opensDefault : Bool) (now tid : ℕ)
  (old : Bytes → Bytes) (steps : List LogSystemStep)

theorem run_ok (hshort : ∀ a ∈ steps, a.Short)
    (hrun : run step (start level filepath opens opensDefault now tid old) steps = some s) : s.SystemOk :=
  run_inv_along (C := fun _ a => a.Short) (I := SystemOk) (fun _ _ _ h ha hs => step_ok h ha hs) steps
    (start_ok level filepath opens opensDefault now tid old) (along_of_forall _ hshort) hrun

/-- **From log statements to log files.** In every state of every run: the records of all statements
whose level was on are in the files, or in the buffers, once and in their order; and no record is
torn, between two files or between two buffers. -/
theorem log_files (hshort : ∀ a ∈ steps, a.Short)
    (hrun : run step (start level filepath opens opensDefault now tid old) steps = some s) :
    ∃ written pending, written ++ pending = records level steps ∧ Whole s.files written ∧
      Whole (s.log.back ++ s.log.front) pending := by
  have h := run_ok level filepath opens opensDefault now tid old steps hshort hrun
  have hmessages : s.messages = records level steps := run_messages steps hrun
  obtain ⟨written, rest, hcut, hfiles, hback⟩ := h.back.split
  refine ⟨written, rest ++ s.messages.drop s.taken, ?_, hfiles, hback.append h.front⟩
  rw [← List.append_assoc, ← hcut, List.take_append_drop, hmessages]

theorem log_files_round :
    ∃ s written pending, run step (roundStart true) roundSteps = some s ∧
      written ++ pending = records .INFO roundSteps ∧ Whole s.files written := by
  obtain ⟨s, hrun, -⟩ := round_run
  obtain ⟨written, pending, hrecords, hfiles, -⟩ :=
    log_files .INFO (ascii "./log") true true 0 7 (fun _ => []) roundSteps sample_short hrun
  exact ⟨s, written, pending, hrun, hrecords, hfiles⟩

/-- **What a round leaves behind.** Whenever the backend is between two rounds, or gone: the records
from before it last held the mutex are in the files, all of them flushed, and the others are in the
buffers of the producers. -/
theorem log_durable (hshort : ∀ a ∈ steps, a.Short)
    (hrun : run step (start level filepath opens opensDefault now tid old) steps = some s) (hidle : s.log.Idle) :
    Whole s.files ((records level steps).take s.taken) ∧
      s.logFile.flushed = s.logFile.current.length ∧
      Whole s.log.front ((records level steps).drop s.taken) := by
  have h := run_ok level filepath opens opensDefault now tid old steps hshort hrun
  have hmessages : s.messages = records level steps := run_messages steps hrun
  have hback := h.back
  rw [AsyncLogging.back_of_idle hidle, List.append_nil] at hback
  rw [← hmessages]
  exact ⟨hback, h.flushed hidle, h.front⟩

theorem log_durable_round :
    ∃ s, run step (roundStart true) roundSteps = some s ∧ s.files ≠ [[]] ∧
      Whole s.files ((records .INFO roundSteps).take 1) ∧
      s.logFile.flushed = s.logFile.current.length := by
  obtain ⟨s, hrun, hpc, htaken, hfiles⟩ := round_run
  obtain ⟨hwhole, hflushed, -⟩ := log_durable .INFO (ascii "./log") true true 0 7 (fun _ => []) roundSteps
    sample_short hrun (.inl hpc)
  rw [htaken] at hwhole
  refine ⟨s, hrun, ?_, hwhole, hflushed⟩
  rw [hfiles]
  decide

end Runs

/-! ## The files by name -/

theorem contents_append (l l' : List (Bytes × Bytes)) (name : Bytes) :
    LogFile.contents (l ++ l') name = LogFile.contents l name ++ LogFile.contents l' name := by
  rw [LogFile.contents, List.filter_append, List.flatMap_append]
  rfl

theorem contents_singleton (n x name : Bytes) :
    LogFile.contents [(n, x)] name = if n = name then x else [] := by
  rw [LogFile.contents, List.filter_singleton]
  by_cases h : n = name
  · rw [if_pos h, decide_eq_true h, cond_true, List.flatMap_singleton]
  · rw [if_neg h, decide_eq_false h, cond_false, List.flatMap_nil]

/-- **The invariant of the files**: each has what its streams wrote, behind what it had. -/
structure DiskOk (first : Option Bytes) (old : Bytes → Bytes) (s : LogSystem) : Prop where
  basename : s.logFile.m_basename = []
  disk : ∀ name, s.disk name = old name ++ LogFile.contents s.logFile.sessions name
  names : s.logFile.sessions.map Prod.fst =
    first.toList ++ s.rolls.map fun x => getLogFileName [] x.1 x.2

theorem sessions_some {f : LogFile} {name : Bytes} (h : f.m_fp = some name) :
    f.sessions = f.closed ++ [(name, f.current)] := by
  rw [LogFile.sessions, h]
  rfl

theorem sessions_none {f : LogFile} (h : f.m_fp = none) : f.sessions = f.closed := by
  rw [LogFile.sessions, h]
  exact List.append_nil _

/-- What is written to a file goes to the end of its last stream. -/
theorem DiskOk.grow {first : Option Bytes} {old : Bytes → Bytes} (h : s.DiskOk first old) {name : Bytes}
    (hfp : s.logFile.m_fp = some name) (data : Bytes) (other : Bytes) : s.diskAfter data other =
      old other ++ LogFile.contents (s.logFile.closed ++ [(name, s.logFile.current ++ data)]) other := by
  have hold := h.disk other
  rw [sessions_some hfp, contents_append, contents_singleton] at hold
  rw [contents_append, contents_singleton, diskAfter, hfp]
  dsimp only
  by_cases heq : name = other
  · subst heq
    rw [if_pos rfl] at hold
    rw [Function.update_self, if_pos rfl, hold]
    simp only [List.append_assoc]
  · rw [if_neg heq] at hold
    rw [Function.update_of_ne (Ne.symm heq), if_neg heq, hold]

/-- **A block is appended to the current file.** -/
theorem DiskOk.write {first : Option Bytes} {old : Bytes → Bytes} (h : s.DiskOk first old) {data : Bytes}
    {a : LogAppend} (hs : s.write data a = some s') : s'.DiskOk first old := by
  rcases write_cases hs with ⟨-, -, rfl⟩ | ⟨-, logFile, haccount, rfl⟩
  · exact ⟨h.basename, h.disk, h.names⟩
  have hnames := h.names
  obtain ⟨hbase, -, ⟨hclosed, hfp, hcur, -⟩ | ⟨name, hfp, hclosed, hfp', hcur, -⟩⟩ :=
    s.logFile.account_cases haccount
  · rw [hclosed, if_neg (by simp)]
    cases hname : s.logFile.m_fp with
    | some name =>
      rw [hname] at hfp
      rw [sessions_some hname, List.map_append, List.map_singleton] at hnames
      refine ⟨hbase.trans h.basename, fun other => ?_, ?_⟩
      · dsimp only
        rw [sessions_some hfp, hclosed, hcur, h.grow hname]
      · dsimp only
        rw [sessions_some hfp, hclosed, List.map_append, List.map_singleton]
        exact hnames
    | none =>
      -- there is no file, so there was no byte in the block
      rw [hname] at hfp
      refine ⟨hbase.trans h.basename, fun other => ?_, ?_⟩
      · dsimp only
        rw [sessions_none hfp, hclosed, ← sessions_none hname, diskAfter, hname]
        exact h.disk other
      · dsimp only
        rw [sessions_none hfp, hclosed, ← sessions_none hname]
        exact hnames
  · rw [sessions_some hfp, List.map_append, List.map_singleton] at hnames
    have hne : logFile.closed ≠ s.logFile.closed := by
      rw [hclosed]
      simp
    cases hopens : a.opens with
    | true =>
      -- the new file has nothing from this stream yet
      rw [hopens, if_pos rfl] at hfp'
      refine ⟨hbase.trans h.basename, fun other => ?_, ?_⟩
      · dsimp only
        rw [sessions_some hfp', hcur, contents_append _ [(_, [])], contents_singleton, ite_self,
          List.append_nil, hclosed, h.grow hfp]
      · dsimp only
        rw [sessions_some hfp', if_pos ⟨hne, rfl⟩, hclosed, h.basename, List.map_append, List.map_append,
          List.map_append, List.map_singleton, List.map_singleton, List.map_singleton, ← List.append_assoc]
        exact congrArg (· ++ _) hnames
    | false =>
      rw [hopens, if_neg (by decide)] at hfp'
      refine ⟨hbase.trans h.basename, fun other => ?_, ?_⟩
      · dsimp only
        rw [sessions_none hfp', hclosed, h.grow hfp]
      · dsimp only
        rw [sessions_none hfp', hclosed, if_neg (by simp), List.map_append, List.map_singleton]
        exact hnames

theorem step_diskOk {first : Option Bytes} {old : Bytes → Bytes} (h : s.DiskOk first old) {a : LogSystemStep}
    (hs : s.step a = some s') : s'.DiskOk first old := by
  obtain ⟨hcrash, hs⟩ := step_act hs
  cases a with
  | setLogLevel level =>
    cases hs
    exact ⟨h.basename, h.disk, h.names⟩
  | statement thread c =>
    rcases statement_cases hs with ⟨-, r, log, -, -, rfl⟩ | ⟨-, rfl⟩
    · exact ⟨h.basename, h.disk, h.names⟩
    · exact h
  | backend a =>
    rcases backend_cases hcrash hs with rfl | ⟨s₁, log, -, hfile, -, -, rfl⟩
    · exact ⟨h.basename, h.disk, h.names⟩
    · have h₁ : s₁.DiskOk first old := by
        unfold file at hfile
        split at hfile
        · exact h.write hfile
        · split at hfile
          · cases hfile
            exact ⟨h.basename, h.disk, h.names⟩
          · cases hfile
            split
            · exact ⟨h.basename, h.disk, h.names⟩
            · exact h
      exact ⟨h₁.basename, h₁.disk, h₁.names⟩
  | stop =>
    obtain ⟨log, -, rfl⟩ := Option.map_eq_some_iff.1 hs
    exact ⟨h.basename, h.disk, h.names⟩

/-- Rolled files have the same name if they are rolled by one thread in one second. -/
theorem getLogFileName_eq_iff {basename : Bytes} {t t' tid tid' : ℕ}
    (ht : InRange (Timestamp.secondOf t)) (ht' : InRange (Timestamp.secondOf t')) :
    getLogFileName basename t tid = getLogFileName basename t' tid' ↔
      Timestamp.secondOf t = Timestamp.secondOf t' ∧ tid = tid' := by
  rw [getLogFileName, getLogFileName, Timestamp.toDefaultLogString_eq ht,
    Timestamp.toDefaultLogString_eq ht']
  constructor
  · intro h
    obtain ⟨hfront, htid⟩ := List.append_inj (List.append_cancel_right h) (by
      simp only [List.length_append, stamp_length])
    have hstamp := List.append_cancel_right (List.append_cancel_left hfront)
    exact ⟨stamp_inj ht ht' hstamp, to_string_inj htid⟩
  · rintro ⟨h, rfl⟩
    rw [h]

section Files

variable (level : Logger.LogLevel) (filepath : Bytes) (opens opensDefault : Bool) (now tid : ℕ)
  (old : Bytes → Bytes) (steps : List LogSystemStep)

/-- **Files are appended to, never overwritten.** In every state of every run: a file has what it
had before, and behind it what the streams of its name wrote, in order. The streams are the one of the
constructor and one for each roll whose file could be opened; two of the rolled files are one exactly if
one thread rolled them in one second. -/
theorem log_disk (hrun : run step (start level filepath opens opensDefault now tid old) steps = some s) :
    (∀ name, s.disk name = old name ++ LogFile.contents s.logFile.sessions name) ∧
      s.logFile.sessions.map Prod.fst =
        (LogFile.new filepath kRollSize defaultFlushInterval opens opensDefault now tid).m_fp.toList ++
          s.rolls.map (fun x => getLogFileName [] x.1 x.2) ∧
      ((∀ x ∈ s.rolls, InRange (Timestamp.secondOf x.1)) →
        ((s.rolls.map fun x => getLogFileName [] x.1 x.2).Nodup ↔
          (s.rolls.map fun x => (Timestamp.secondOf x.1, x.2)).Nodup)) := by
  have hstart : (start level filepath opens opensDefault now tid old).DiskOk
      (LogFile.new filepath kRollSize defaultFlushInterval opens opensDefault now tid).m_fp old := by
    refine ⟨rfl, fun name => ?_, ?_⟩
    · unfold start
      cases hfp : (LogFile.new filepath kRollSize defaultFlushInterval opens opensDefault now tid).m_fp with
      | some first =>
        rw [sessions_some hfp, contents_append, contents_singleton]
        simp [LogFile.new, LogFile.contents]
      | none =>
        rw [sessions_none hfp]
        exact (List.append_nil _).symm
    · unfold start
      cases hfp : (LogFile.new filepath kRollSize defaultFlushInterval opens opensDefault now tid).m_fp with
      | some first =>
        rw [sessions_some hfp]
        rfl
      | none =>
        rw [sessions_none hfp]
        rfl
  have h := run_inv (I := DiskOk _ old) (fun _ _ _ h hs => step_diskOk h hs) hstart hrun
  refine ⟨h.disk, h.names, fun hrange => ?_⟩
  rw [List.Nodup, List.Nodup, List.pairwise_map, List.pairwise_map]
  refine List.Pairwise.iff_of_mem fun {x y} hx hy => not_congr ?_
  rw [getLogFileName_eq_iff (hrange x hx) (hrange y hy), Prod.mk.injEq]

theorem log_disk_round :
    ∃ s, run step (roundStart true) roundSteps = some s ∧
      s.disk (ascii "./log") = LogFile.contents s.logFile.sessions (ascii "./log") := by
  obtain ⟨s, hrun, -⟩ := round_run
  obtain ⟨hdisk, -⟩ := log_disk .INFO (ascii "./log") true true 0 7 (fun _ => []) roundSteps hrun
  exact ⟨s, hrun, hdisk (ascii "./log")⟩

end Files

/-! ## A file that cannot be opened -/

/-- **The invariant of `NULL`**: nothing is counted for it, and it is what ends the process. -/
structure NullOk (s : LogSystem) : Prop where
  size : 0 ≤ s.logFile.m_rollSize
  null : s.logFile.m_fp = none → s.logFile.m_writtenBytes = 0
  crashed : s.crashed = true → s.logFile.m_fp = none

theorem start_nullOk (level : Logger.LogLevel) (filepath : Bytes) (opens opensDefault : Bool)
    (now tid : ℕ) (old : Bytes → Bytes) : (start level filepath opens opensDefault now tid old).NullOk :=
  ⟨by change 0 ≤ kRollSize; decide, fun _ => rfl, fun h => by cases h⟩

/-- `NULL` takes a block of no bytes, and no other. -/
theorem append_null_iff (h : s.NullOk) (hfp : s.logFile.m_fp = none) (a : LogAppend) :
    s.logFile.append a = none ↔ a.data ≠ [] := by
  rw [LogFile.append]
  by_cases hdata : a.data = []
  · rw [if_neg fun h => h.2 hdata]
    have hloop : writeLoop a.data a.results a.calls 0 0 [] = some [] := by
      rw [writeLoop_start, hdata, List.length_nil, if_pos (Nat.zero_le _)]
    have hsize : ¬s.logFile.m_rollSize < (s.logFile.m_writtenBytes + a.data.length : ℕ) := by
      rw [h.null hfp, hdata]
      exact not_lt.2 h.size
    rw [hloop, Option.bind_some, LogFile.account_eq, if_neg hsize]
    refine iff_of_false (fun hnone => ?_) (fun hne => hne hdata)
    split at hnone
    · cases hnone
    · cases hnone
  · rw [if_pos ⟨hfp, hdata⟩]
    exact iff_of_true rfl hdata

/-- A step without a file writes nothing. -/
structure Silent (s s' : LogSystem) : Prop where
  m_fp : s'.logFile.m_fp = none
  files : s'.files = s.files
  disk : s'.disk = s.disk

theorem step_file_eq {a : LogAppend} (h : s.NullOk) (hs : s.file a = some s') :
    s'.NullOk ∧ (s.logFile.m_fp = none → Silent s s') := by
  unfold file at hs
  split at hs
  · rcases write_cases hs with ⟨hfp, -, rfl⟩ | ⟨hdata, logFile, haccount, rfl⟩
    · exact ⟨⟨h.size, h.null, fun _ => hfp⟩, fun hfp => ⟨hfp, rfl, rfl⟩⟩
    · obtain ⟨-, hsize, ⟨hclosed, hfp, hcur, hwritten⟩ | ⟨name, hfp, -, -, -, hwritten⟩⟩ :=
        s.logFile.account_cases haccount
      · refine ⟨⟨hsize ▸ h.size, fun hnone => ?_, fun hc => hfp.trans (h.crashed hc)⟩, fun hnone => ?_⟩
        · dsimp only at hnone ⊢
          rw [hfp] at hnone
          rw [hwritten, h.null hnone, hdata hnone]
          rfl
        · refine ⟨hfp.trans hnone, ?_, ?_⟩
          · rw [files, files, hclosed, hcur, hdata hnone, List.append_nil]
          · dsimp only
            rw [diskAfter, hnone]
      · refine ⟨⟨hsize ▸ h.size, fun _ => hwritten, fun hc => ?_⟩, fun hnone => ?_⟩
        · rw [h.crashed hc] at hfp
          cases hfp
        · rw [hnone] at hfp
          cases hfp
  · split at hs
    · rename_i hend
      cases hs
      exact ⟨⟨h.size, h.null, fun _ => hend.2⟩, fun hfp => ⟨hfp, rfl, rfl⟩⟩
    · cases hs
      split
      · exact ⟨⟨h.size, h.null, h.crashed⟩, fun hfp => ⟨hfp, rfl, rfl⟩⟩
      · exact ⟨h, fun hfp => ⟨hfp, rfl, rfl⟩⟩

theorem step_nullOk (h : s.NullOk) {a : LogSystemStep} (hs : s.step a = some s') :
    s'.NullOk ∧ (s.logFile.m_fp = none → Silent s s') := by
  obtain ⟨hcrash, hs⟩ := step_act hs
  cases a with
  | setLogLevel level =>
    cases hs
    exact ⟨⟨h.size, h.null, h.crashed⟩, fun hfp => ⟨hfp, rfl, rfl⟩⟩
  | statement thread c =>
    rcases statement_cases hs with ⟨-, r, log, -, -, rfl⟩ | ⟨-, rfl⟩
    · exact ⟨⟨h.size, h.null, h.crashed⟩, fun hfp => ⟨hfp, rfl, rfl⟩⟩
    · exact ⟨h, fun hfp => ⟨hfp, rfl, rfl⟩⟩
  | backend a =>
    obtain ⟨s₁, hfile, hs⟩ := Option.bind_eq_some_iff.1 hs
    obtain ⟨h₁, hsilent⟩ := step_file_eq h hfile
    split at hs
    · cases hs
      exact ⟨h₁, hsilent⟩
    · obtain ⟨log, -, rfl⟩ := Option.map_eq_some_iff.1 hs
      exact ⟨⟨h₁.size, h₁.null, h₁.crashed⟩,
        fun hfp => ⟨(hsilent hfp).m_fp, (hsilent hfp).files, (hsilent hfp).disk⟩⟩
  | stop =>
    obtain ⟨log, -, rfl⟩ := Option.map_eq_some_iff.1 hs
    exact ⟨⟨h.size, h.null, h.crashed⟩, fun hfp => ⟨hfp, rfl, rfl⟩⟩

/-- The step that ends the process: there are bytes to write, or the stream is closed. -/
theorem crash_iff (h : s.NullOk) (hfp : s.logFile.m_fp = none) (hcrash : s.crashed = false) (a : LogAppend) :
    s.step (.backend a) = some { s with crashed := true } ↔
      s.log.ends = true ∨ ∃ data, s.log.block = some data ∧ data ≠ [] := by
  rw [step, if_neg (by rw [hcrash]; decide), act, backend, file]
  cases hblock : s.log.block with
  | some data =>
    have hends : s.log.ends = false := by
      unfold AsyncLogging.block at hblock
      split at hblock
      · rename_i hpc
        simp [AsyncLogging.ends, hpc]
      · cases hblock
    have happend := append_null_iff h hfp { a with data := data }
    dsimp only at happend ⊢
    rw [write]
    cases hres : s.logFile.append { a with data := data } with
    | none =>
      rw [hres] at happend
      dsimp only
      rw [if_pos hfp, Option.bind_some, if_pos rfl]
      exact iff_of_true rfl (.inr ⟨data, rfl, happend.1 rfl⟩)
    | some logFile =>
      rw [hres] at happend
      have hdata : data = [] := by
        by_contra hne
        cases happend.2 hne
      dsimp only
      rw [Option.bind_some, if_neg (by rw [hcrash]; decide), hends, hdata]
      refine iff_of_false (fun heq => ?_) (by simp)
      obtain ⟨log, -, heq⟩ := Option.map_eq_some_iff.1 heq
      have hboth := congrArg LogSystem.crashed heq
      dsimp only at hboth
      rw [hcrash] at hboth
      cases hboth
  | none =>
    dsimp only
    by_cases hends : s.log.ends = true
    · rw [if_pos ⟨hends, hfp⟩, Option.bind_some, if_pos rfl]
      exact iff_of_true rfl (.inl hends)
    · rw [if_neg fun h => hends h.1, Option.bind_some]
      refine iff_of_false (fun heq => ?_) (by simp [hends])
      have hsame : (if s.log.flushes = true then { s with logFile := s.logFile.flush } else s).crashed =
          false := by
        split
        · exact hcrash
        · exact hcrash
      rw [if_neg (by rw [hsame]; decide)] at heq
      obtain ⟨log, -, heq⟩ := Option.map_eq_some_iff.1 heq
      have hboth := congrArg LogSystem.crashed heq
      dsimp only at hboth
      rw [hsame] at hboth
      cases hboth

section Ends

variable (level : Logger.LogLevel) (filepath : Bytes) (opens opensDefault : Bool) (now tid : ℕ)
  (old : Bytes → Bytes) (steps : List LogSystemStep)

/-- **A file that cannot be opened ends the log.** In every state of every run: the process ends with a
stream that was not opened only. From a state with such a stream on nothing is written any more; and the
next step of the backend ends the process exactly if it has bytes to write, or leaves `threadFunc`. -/
theorem log_ends (hrun : run step (start level filepath opens opensDefault now tid old) steps = some s) :
    (s.crashed = true → s.logFile.m_fp = none) ∧
      (s.logFile.m_fp = none →
        (∀ more t, run step s more = some t →
          t.logFile.m_fp = none ∧ t.files = s.files ∧ t.disk = s.disk) ∧
        (s.crashed = false → ∀ a, s.step (.backend a) = some { s with crashed := true } ↔
          s.log.ends = true ∨ ∃ data, s.log.block = some data ∧ data ≠ [])) := by
  have h : s.NullOk := run_inv (fun _ _ _ h hs => (step_nullOk h hs).1)
    (start_nullOk level filepath opens opensDefault now tid old) hrun
  refine ⟨h.crashed, fun hfp => ⟨fun more t hmore => ?_, fun hcrash a => crash_iff h hfp hcrash a⟩⟩
  have hend : t.NullOk ∧ Silent s t :=
    run_inv (I := fun t => t.NullOk ∧ Silent s t)
      (fun t a t' ht hs => by
        obtain ⟨hnull, hsilent⟩ := step_nullOk ht.1 hs
        have hnext := hsilent ht.2.m_fp
        exact ⟨hnull, hnext.m_fp, hnext.files.trans ht.2.files, hnext.disk.trans ht.2.disk⟩)
      ⟨h, hfp, rfl, rfl⟩ hmore
  exact ⟨hend.2.m_fp, hend.2.files, hend.2.disk⟩

/-- The backend comes to its first block, and has no file for it. -/
theorem null_run : ∃ s, run step (roundStart false) (roundSteps.take 4) = some s ∧ s.logFile.m_fp = none ∧
    s.crashed = false ∧ s.log.block = some (ascii "19700101 00:00:00.1 1 INFO hi - a.cpp58410") := by
  rw [roundSteps, List.take_succ_cons, run, sample_step]
  exact ⟨_, rfl, rfl, rfl, rfl⟩

/-- `./log` is no directory, and cannot be written: the first record ends the process. -/
theorem log_ends_null : ∃ s, run step (roundStart false) (roundSteps.take 4) = some s ∧
    s.step (.backend fastWrite) = some { s with crashed := true } := by
  obtain ⟨s, hrun, hfp, hcrash, hblock⟩ := null_run
  obtain ⟨-, hends⟩ := log_ends .INFO (ascii "./log") false false 0 7 (fun _ => []) _ hrun
  exact ⟨s, hrun, ((hends hfp).2 hcrash fastWrite).2 (.inr ⟨_, hblock, by decide⟩)⟩

end Ends

end LogSystem

end MyMuduo
