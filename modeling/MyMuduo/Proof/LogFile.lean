import MyMuduo.Lib.Run
import MyMuduo.Spec.LogFile

/-!
# The log file

* `writeLoop_eq`: the loop of `append` is done as soon as the results add up to the block, and
  then it has written the block.
* `append_ends_iff`: **the loop comes to its end exactly if writing does not fail for good while
  bytes are missing.**
* `roll_bound_iff`: **the current file stays within the roll size exactly if no block that takes it
  over the size comes in the branch that flushes.**
-/

namespace MyMuduo

open Lib

/-! ## The write loop -/

/-- **The loop in closed form.** -/
theorem writeLoop_eq (data : Bytes) (results : ℕ → ℕ) (fuel i : ℕ) {pos : ℕ} {out : Bytes}
    (hpos : pos ≤ data.length) (hout : out = data.take pos) :
    writeLoop data results fuel i pos out =
      if data.length ≤ pos + ∑ k ∈ Finset.range fuel, results (i + k) then some data else none := by
  induction fuel generalizing i pos out with
  | zero =>
    rw [writeLoop, Finset.range_zero, Finset.sum_empty]
    by_cases h : pos = data.length
    · rw [if_pos h, if_pos (by omega), hout, h, List.take_length]
    · rw [if_neg h, if_neg (by omega)]
  | succ fuel ih =>
    rw [writeLoop]
    by_cases h : pos = data.length
    · rw [if_pos h, if_pos (by omega), hout, h, List.take_length]
    · have hsum : ∑ k ∈ Finset.range (fuel + 1), results (i + k) =
          ∑ k ∈ Finset.range fuel, results (i + 1 + k) + results i := by
        rw [Finset.sum_range_succ', Nat.add_zero]
        simp only [Nat.add_assoc, Nat.add_comm 1]
      have hstep : out ++ (data.drop pos).take (min (results i) (data.length - pos)) =
          data.take (pos + min (results i) (data.length - pos)) := by
        rw [hout, List.take_add]
      simp only [if_neg h]
      rw [ih (i + 1) (by omega) hstep, hsum]
      -- a call that writes all that is left ends the loop
      rcases Nat.lt_or_ge (results i) (data.length - pos) with hlt | hge
      · rw [min_eq_left hlt.le, Nat.add_assoc, Nat.add_comm (results i)]
      · rw [min_eq_right hge, if_pos (by omega), if_pos (by omega)]

/-- The results of the first `n` calls. -/
theorem writeLoop_start (data : Bytes) (results : ℕ → ℕ) (n : ℕ) :
    writeLoop data results n 0 0 [] =
      if data.length ≤ ∑ i ∈ Finset.range n, results i then some data else none := by
  rw [writeLoop_eq data results n 0 (Nat.zero_le _) List.take_zero.symm]
  simp only [Nat.zero_add]

/-- Results that are never zero for good add up to any number. -/
theorem exists_sum_ge {results : ℕ → ℕ} {len : ℕ}
    (h : ∀ n, ∑ i ∈ Finset.range n, results i < len → ∃ m, n ≤ m ∧ 0 < results m) :
    ∀ j, j ≤ len → ∃ n, j ≤ ∑ i ∈ Finset.range n, results i := by
  intro j
  induction j with
  | zero => intro _; exact ⟨0, Nat.zero_le _⟩
  | succ j ih =>
    intro hj
    obtain ⟨n, hn⟩ := ih (by omega)
    rcases Nat.lt_or_ge (∑ i ∈ Finset.range n, results i) len with hlt | hge
    · obtain ⟨m, hnm, hm⟩ := h n hlt
      refine ⟨m + 1, ?_⟩
      have hmono : ∑ i ∈ Finset.range n, results i ≤ ∑ i ∈ Finset.range m, results i :=
        Finset.sum_le_sum_of_subset (Finset.range_subset_range.2 hnm)
      rw [Finset.sum_range_succ]
      omega
    · exact ⟨n, by omega⟩

/-- **When writing a block ends.** On return every byte has been written, once and in order. The
loop returns exactly if, as long as bytes are missing, some later call still writes. -/
theorem append_ends_iff (data : Bytes) (results : ℕ → ℕ) :
    (∀ n out, writeLoop data results n 0 0 [] = some out → out = data) ∧
      ((∃ n out, writeLoop data results n 0 0 [] = some out) ↔
        ∀ n, ∑ i ∈ Finset.range n, results i < data.length → ∃ m, n ≤ m ∧ 0 < results m) := by
  constructor
  · intro n out h
    rw [writeLoop_start] at h
    split at h
    · exact (Option.some_inj.1 h).symm
    · cases h
  constructor
  · rintro ⟨n₀, out, hout⟩ n hn
    have hsum : data.length ≤ ∑ i ∈ Finset.range n₀, results i := by
      by_contra hlt
      rw [writeLoop_start, if_neg hlt] at hout
      cases hout
    by_contra hzero
    have hall : ∀ m, n ≤ m → results m = 0 := by
      intro m hm
      by_contra h0
      exact hzero ⟨m, hm, Nat.pos_of_ne_zero h0⟩
    have hle : ∑ i ∈ Finset.range n₀, results i ≤ ∑ i ∈ Finset.range n, results i := by
      refine Finset.sum_le_sum_of_ne_zero fun m _ hm => ?_
      by_contra hmem
      exact hm (hall m (by simpa using hmem))
    omega
  · intro h
    obtain ⟨n, hn⟩ := exists_sum_ge h data.length le_rfl
    exact ⟨n, data, by rw [writeLoop_start, if_pos hn]⟩

/-- One byte, and a disk that takes nothing. -/
theorem append_never_ends : ¬∃ n out, writeLoop [97] (fun _ => 0) n 0 0 [] = some out := by
  rintro ⟨n, out, h⟩
  rw [writeLoop_start, Finset.sum_const_zero, if_neg (by decide)] at h
  cases h

/-! ## Rolling -/

namespace LogFile

variable {s s' : LogFile} {a : LogAppend}

/-- A call that returns has written the block, to a file if there was something to write. -/
theorem append_eq_some (h : s.append a = some s') :
    s.account a.data a = some s' ∧ (s.m_fp = none → a.data = []) := by
  rw [append, Option.ite_none_left_eq_some, Option.bind_eq_some_iff] at h
  obtain ⟨hfp, out, hout, hs'⟩ := h
  rw [(append_ends_iff a.data a.results).1 a.calls out hout] at hs'
  refine ⟨hs', fun hnone => ?_⟩
  by_contra hdata
  exact hfp ⟨hnone, hdata⟩

/-- `append` does not take the file over the roll size, or it comes to the test of the size. -/
def Rolls (s : LogFile) (a : LogAppend) : Prop :=
  (s.m_writtenBytes + a.data.length : ℤ) ≤ s.m_rollSize ∨
    Timestamp.timeDifference a.now s.m_lastFlush ≤ s.m_flushInterval ∧ 0 ≤ s.m_rollSize

/-- `m_writtenBytes` counts the bytes of the current file, and is within the roll size. -/
def Within (s : LogFile) : Prop :=
  s.m_writtenBytes = s.current.length ∧ (s.m_writtenBytes : ℤ) ≤ s.m_rollSize

/-- `append` without the flush and the roll. -/
def count (s : LogFile) (out : Bytes) (a : LogAppend) : LogFile :=
  { s with current := s.current ++ out, m_writtenBytes := s.m_writtenBytes + a.data.length }

/-- The two branches behind the loop: only one of them looks at the size. -/
theorem account_eq (s : LogFile) (out : Bytes) (a : LogAppend) :
    s.account out a =
      if s.m_flushInterval < Timestamp.timeDifference a.now s.m_lastFlush then
        some { (s.count out a).flush with m_lastFlush := a.now }
      else if s.m_rollSize < (s.m_writtenBytes + a.data.length : ℕ) then
        (s.count out a).rollFile a.rollNow a.tid a.opens
      else some (s.count out a) := by
  rw [account, count]
  by_cases h : a.data.length = 0
  · simp only [h, ne_eq, not_true_eq_false, if_false, Nat.add_zero]
  · simp only [h, ne_eq, not_false_eq_true, if_true]

/-- **One call of `append`.** -/
theorem account_within (hs : s.m_writtenBytes = s.current.length) (h : s.account a.data a = some s') :
    (s.Rolls a ↔ s'.Within) ∧ s'.m_writtenBytes = s'.current.length := by
  have hcount : (s.count a.data a).m_writtenBytes = (s.count a.data a).current.length := by
    simp only [count, List.length_append]
    omega
  have hsum : ((s.m_writtenBytes + a.data.length : ℕ) : ℤ) = s.m_writtenBytes + a.data.length := by
    push_cast
    rfl
  rw [account_eq] at h
  rw [Rolls, Within]
  by_cases hflush : s.m_flushInterval < Timestamp.timeDifference a.now s.m_lastFlush
  · -- the file is flushed, whatever its size
    rw [if_pos hflush] at h
    cases h
    refine ⟨?_, hcount⟩
    change _ ↔ _ ∧ ((s.m_writtenBytes + a.data.length : ℕ) : ℤ) ≤ s.m_rollSize
    rw [hsum]
    constructor
    · rintro (h | ⟨h, -⟩)
      · exact ⟨hcount, h⟩
      · omega
    · intro h
      exact .inl h.2
  · rw [if_neg hflush] at h
    by_cases hroll : s.m_rollSize < (s.m_writtenBytes + a.data.length : ℕ)
    · rw [if_pos hroll] at h
      obtain ⟨name, -, rfl⟩ := Option.map_eq_some_iff.1 h
      refine ⟨?_, rfl⟩
      change _ ↔ (0 = 0 ∧ ((0 : ℕ) : ℤ) ≤ s.m_rollSize)
      omega
    · rw [if_neg hroll] at h
      cases h
      refine ⟨iff_of_true (.inl (by omega)) ⟨hcount, ?_⟩, hcount⟩
      change ((s.m_writtenBytes + a.data.length : ℕ) : ℤ) ≤ s.m_rollSize
      omega

/-- **When files are rolled by size.** In every run of `append` on a new log file, with any
lengths, any readings of the clock and any results of `fopen`: after every call the current file is
within the roll size exactly if every call that takes it over the size comes within the flush interval
since the last flush. -/
theorem roll_bound_iff (basename : Bytes) (rollSize flushInterval : ℤ) (opens opensDefault : Bool)
    (now tid : ℕ) (calls : List LogAppend) (s : LogFile)
    (h : run append (new basename rollSize flushInterval opens opensDefault now tid) calls = some s) :
    (∀ n t, n < calls.length →
        run append (new basename rollSize flushInterval opens opensDefault now tid) (calls.take (n + 1)) =
          some t → t.Within) ↔
      Along append Rolls (new basename rollSize flushInterval opens opensDefault now tid) calls := by
  refine forall_after_iff_along (I := fun s => s.m_writtenBytes = s.current.length) ?_ calls rfl h
  intro s a s' hs hs'
  obtain ⟨hiff, hkeep⟩ := account_within hs (append_eq_some hs').1
  exact ⟨hiff, fun _ => hkeep⟩

/-- A write of all the bytes asked for, at some time. -/
def write (data : Bytes) (now : ℕ) : LogAppend := ⟨data, fun _ => data.length, 1, now, now, true, 0⟩

/-- Within three seconds of the last flush the third byte rolls the file. -/
theorem roll_bound_iff_fast :
    (run append (new [] 2 3 true true 0 0) [write [97, 98] 1, write [99] 2]).isSome ∧
      ∀ n t, n < 2 → run append (new [] 2 3 true true 0 0)
        ([write [97, 98] 1, write [99] 2].take (n + 1)) = some t → t.Within := by
  have hrun : (run append (new [] 2 3 true true 0 0) [write [97, 98] 1, write [99] 2]).isSome := by
    decide
  obtain ⟨s, hs⟩ := Option.isSome_iff_exists.1 hrun
  refine ⟨hrun, (roll_bound_iff [] 2 3 true true 0 0 _ s hs).2
    ⟨.inl (by decide), fun s₁ hs₁ => ⟨?_, fun _ _ => trivial⟩⟩⟩
  cases hs₁
  exact .inr ⟨by decide, by decide⟩

/-- A single block of three bytes, ten seconds after the start: the file is flushed and not
rolled, with the roll size of two bytes passed. -/
theorem roll_bound_missed :
    ∃ s, run append (new [] 2 3 true true 0 0) [write [97, 98, 99] (10 * 10 ^ 9)] = some s ∧
      s.m_writtenBytes = 3 ∧ s.m_rollSize = 2 ∧ s.closed = [] ∧ ¬ s.Within := by
  refine ⟨_, rfl, by decide, by decide, by decide, ?_⟩
  rintro ⟨-, h⟩
  revert h
  decide

/-- An interval of 3000 seconds is negative as an `int`, so the same block is flushed and not rolled. -/
example : (run append (new [] 2 3000 true true 0 0) [write [97, 98, 99] (10 * 10 ^ 9)]).map
    (fun s => (s.m_flushInterval, s.m_writtenBytes)) = some (-1294967296, 3) := by decide

end LogFile

end MyMuduo
