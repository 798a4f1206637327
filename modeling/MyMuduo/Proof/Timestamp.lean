import MyMuduo.Proof.HttpResponse
import MyMuduo.Spec.Timestamp

/-!
# The texts of a time

* `stamp`: date and time of day in 17 characters, every field with its full width.
* `toDefaultLogString_eq`, `toString_eq`: up to the year 9999 the one encoder writes the stamp,
  the other one the stamp, a point and the microseconds in six digits.
* `stamp_lt`: **the stamps of two seconds are in their order.**
-/

namespace MyMuduo

open Lib

/-! ## Fields -/

theorem to_string_eq (n : ℕ) : to_string n = numeral charDigit 10 n := by
  have hdigit : ∀ d < 10, UInt8.ofNat (Nat.digitChar d).toNat = charDigit d := by
    decide
  induction n using Nat.strong_induction_on with
  | _ n ih =>
    rcases Nat.lt_or_ge n 10 with hlt | hge
    · rw [to_string, Nat.toDigits_of_lt_base hlt, numeral_of_lt hlt, ← hdigit n hlt]
      rfl
    · have hq : to_string (n / 10) = numeral charDigit 10 (n / 10) :=
        ih (n / 10) (Nat.div_lt_self (by omega) (by decide))
      rw [to_string, Nat.toDigits_of_base_le (by decide) hge, List.map_append,
        numeral_of_le (by decide) hge, ← hq, ← hdigit (n % 10) (Nat.mod_lt n (by decide))]
      rfl

/-- A field filled with zeros. -/
theorem field_zero {w n : ℕ} (hw : 0 < w) (h : n < 10 ^ w) : field 48 w n = fixed charDigit 10 w n := by
  have hlog : Nat.log 10 n < w := Nat.log_lt_of_lt_pow' (by omega) h
  rw [field, to_string_eq, numeral_length, fixed_eq_numeral hlog (by decide)]
  rfl

/-- A field that the number fills. -/
theorem field_full {fill : UInt8} {w n : ℕ} (hlo : 10 ^ w ≤ n) (hhi : n < 10 ^ (w + 1)) :
    field fill (w + 1) n = fixed charDigit 10 (w + 1) n := by
  have hlog : Nat.log 10 n = w := Nat.log_eq_of_pow_le_of_lt_pow hlo hhi
  rw [field, to_string_eq, numeral_length, hlog, numeral, hlog, Nat.sub_self]
  rfl

theorem field_printable {fill x : UInt8} {w n : ℕ} (hfill : 32 ≤ fill.toNat)
    (h : x ∈ field fill w n) : 32 ≤ x.toNat := by
  rcases List.mem_append.1 h with h | h
  · rw [List.eq_of_mem_replicate h]
    exact hfill
  · have := to_string_digits h
    omega

/-! ## The calendar -/

theorem yearDays_pos (i : ℕ) : 0 < yearDays i := by
  rw [yearDays]
  split <;> omega

theorem monthDays_bounds (i mon : ℕ) : 0 < monthDays i mon ∧ monthDays i mon ≤ 31 := by
  rw [monthDays]
  rcases Nat.lt_or_ge mon 12 with h | h
  · cases isLeap (1970 + i) <;> interval_cases mon <;> decide
  · rw [List.getD_eq_getElem?_getD, List.getElem?_eq_none (by simpa using h)]
    decide

theorem monthDays_sum (i : ℕ) : ∑ mon ∈ Finset.range 12, monthDays i mon = yearDays i := by
  simp only [Finset.sum_range_succ, Finset.sum_range_zero, monthDays, yearDays]
  cases isLeap (1970 + i) <;> rfl

/-- The year since 1970 and the day in it. -/
def yearOf (time : ℕ) : ℕ × ℕ := locate yearDays (time / 86400 + 1) 0 (time / 86400)

/-- The month and the day in it, both from 0. -/
def monthOf (time : ℕ) : ℕ × ℕ :=
  locate (monthDays (yearOf time).1) ((yearOf time).2 + 1) 0 (yearOf time).2

/-- The bounds of the fields. -/
theorem gmtime_bounds (time : ℕ) :
    (gmtime time).tm_mon < 12 ∧ (gmtime time).tm_mday ≤ 31 ∧ (gmtime time).tm_hour < 24 ∧
      (gmtime time).tm_min < 60 ∧ (gmtime time).tm_sec < 60 := by
  have hday : (yearOf time).2 < yearDays (yearOf time).1 :=
    locate_inside yearDays_pos (Nat.lt_succ_self _)
  have hmday : (monthOf time).2 < monthDays (yearOf time).1 (monthOf time).1 :=
    locate_inside (fun mon => (monthDays_bounds _ mon).1) (Nat.lt_succ_self _)
  have hle := (monthDays_bounds (yearOf time).1 (monthOf time).1).2
  have hmon : (monthOf time).1 < 12 := by
    by_contra h
    have hsum : ∑ mon ∈ Finset.Ico 0 (monthOf time).1, monthDays (yearOf time).1 mon +
        (monthOf time).2 = (yearOf time).2 := locate_sum _ _ _
    have hmono : ∑ mon ∈ Finset.range 12, monthDays (yearOf time).1 mon ≤
        ∑ mon ∈ Finset.Ico 0 (monthOf time).1, monthDays (yearOf time).1 mon := by
      rw [← Finset.range_eq_Ico]
      exact Finset.sum_le_sum_of_subset (Finset.range_subset_range.2 (by omega))
    rw [monthDays_sum] at hmono
    omega
  refine ⟨hmon, ?_, ?_, ?_, ?_⟩
  · change (monthOf time).2 + 1 ≤ 31
    omega
  · change time % 86400 / 3600 < 24
    omega
  · change time % 3600 / 60 < 60
    omega
  · exact Nat.mod_lt _ (by omega)

/-- **The calendar keeps the order**, field by field. -/
theorem gmtime_lt {s t : ℕ} (h : s < t) :
    (gmtime s).tm_year < (gmtime t).tm_year ∨ (gmtime s).tm_year = (gmtime t).tm_year ∧
    ((gmtime s).tm_mon < (gmtime t).tm_mon ∨ (gmtime s).tm_mon = (gmtime t).tm_mon ∧
    ((gmtime s).tm_mday < (gmtime t).tm_mday ∨ (gmtime s).tm_mday = (gmtime t).tm_mday ∧
    ((gmtime s).tm_hour < (gmtime t).tm_hour ∨ (gmtime s).tm_hour = (gmtime t).tm_hour ∧
    ((gmtime s).tm_min < (gmtime t).tm_min ∨ (gmtime s).tm_min = (gmtime t).tm_min ∧
      (gmtime s).tm_sec < (gmtime t).tm_sec)))) := by
  change 70 + (yearOf s).1 < 70 + (yearOf t).1 ∨ 70 + (yearOf s).1 = 70 + (yearOf t).1 ∧
    ((monthOf s).1 < (monthOf t).1 ∨ (monthOf s).1 = (monthOf t).1 ∧
    ((monthOf s).2 + 1 < (monthOf t).2 + 1 ∨ (monthOf s).2 + 1 = (monthOf t).2 + 1 ∧
    (s % 86400 / 3600 < t % 86400 / 3600 ∨ s % 86400 / 3600 = t % 86400 / 3600 ∧
    (s % 3600 / 60 < t % 3600 / 60 ∨ s % 3600 / 60 = t % 3600 / 60 ∧ s % 60 < t % 60))))
  rcases Nat.lt_or_ge (s / 86400) (t / 86400) with hday | hday
  · have hyear : (yearOf s).1 < (yearOf t).1 ∨
        (yearOf s).1 = (yearOf t).1 ∧ (yearOf s).2 < (yearOf t).2 :=
      locate_lt yearDays_pos (Nat.lt_succ_self _) (Nat.lt_succ_self _) hday
    rcases hyear with hyear | ⟨hyear, hyday⟩
    · exact .inl (by omega)
    · have hmonth : (monthOf s).1 < (monthOf t).1 ∨
          (monthOf s).1 = (monthOf t).1 ∧ (monthOf s).2 < (monthOf t).2 := by
        rw [monthOf, monthOf, ← hyear]
        exact locate_lt (fun mon => (monthDays_bounds _ mon).1) (Nat.lt_succ_self _)
          (Nat.lt_succ_self _) hyday
      rcases hmonth with hmonth | ⟨hmonth, hmday⟩
      · exact .inr ⟨by omega, .inl hmonth⟩
      · exact .inr ⟨by omega, .inr ⟨hmonth, .inl (by omega)⟩⟩
  · -- on one day the time of day decides
    have heq : s / 86400 = t / 86400 := by omega
    have hyear : yearOf s = yearOf t := by rw [yearOf, yearOf, heq]
    have hmonth : monthOf s = monthOf t := by rw [monthOf, monthOf, hyear]
    rw [hyear, hmonth]
    refine .inr ⟨rfl, .inr ⟨rfl, .inr ⟨rfl, ?_⟩⟩⟩
    omega

/-! ## The stamp -/

/-- Date and time of day. -/
def stamp (time : ℕ) : Bytes :=
  fixed charDigit 10 4 ((gmtime time).tm_year + 1900) ++
    (fixed charDigit 10 2 ((gmtime time).tm_mon + 1) ++
      (fixed charDigit 10 2 (gmtime time).tm_mday ++ 32 ::
        (fixed charDigit 10 2 (gmtime time).tm_hour ++ 58 ::
          (fixed charDigit 10 2 (gmtime time).tm_min ++ 58 ::
            fixed charDigit 10 2 (gmtime time).tm_sec))))

theorem stamp_length (time : ℕ) : (stamp time).length = 17 := by
  simp [stamp]

theorem byte_cons_lt_iff (c : UInt8) (u v : Bytes) : c :: u < c :: v ↔ u < v := by
  rw [List.cons_lt_cons_iff]
  constructor
  · rintro (hc | ⟨-, huv⟩)
    · exact absurd hc (UInt8.lt_irrefl c)
    · exact huv
  · intro huv
    exact .inr ⟨rfl, huv⟩

theorem byte_append_lt_iff (w u v : Bytes) : w ++ u < w ++ v ↔ u < v := by
  induction w with
  | nil => rfl
  | cons c w ih => rw [List.cons_append, List.cons_append, byte_cons_lt_iff, ih]

/-- **A later second has a later stamp.** -/
theorem stamp_lt {s t : ℕ} (hs : InRange s) (ht : InRange t) (h : s < t) : stamp s < stamp t := by
  have hlt := gmtime_lt h
  obtain ⟨hs1, hs2, hs3, hs4, hs5⟩ := gmtime_bounds s
  obtain ⟨ht1, ht2, ht3, ht4, ht5⟩ := gmtime_bounds t
  have hlast : fixed charDigit 10 2 (gmtime s).tm_sec < fixed charDigit 10 2 (gmtime t).tm_sec ↔
      (gmtime s).tm_sec < (gmtime t).tm_sec :=
    fixed_lt_iff charDigit_alphabet (by omega) (by omega)
  unfold InRange at hs ht
  rw [stamp, stamp, fixed_append_lt_iff charDigit_alphabet (by omega) (by omega),
    fixed_append_lt_iff charDigit_alphabet (by omega) (by omega),
    fixed_append_lt_iff charDigit_alphabet (by omega) (by omega), byte_cons_lt_iff,
    fixed_append_lt_iff charDigit_alphabet (by omega) (by omega), byte_cons_lt_iff,
    fixed_append_lt_iff charDigit_alphabet (by omega) (by omega), byte_cons_lt_iff, hlast]
  simpa only [Nat.add_lt_add_iff_right, Nat.add_right_cancel_iff] using hlt

/-! ## The encoders -/

namespace Timestamp

theorem format_eq {tm : Tm} {time : ℕ} (htm : tm = gmtime time) (ht : InRange time) {micro : ℕ}
    (hmicro : micro < 10 ^ 6) :
    format tm micro = stamp time ++ 46 :: fixed charDigit 10 6 micro := by
  subst htm
  obtain ⟨h1, h2, h3, h4, h5⟩ := gmtime_bounds time
  have hyear : 70 ≤ (gmtime time).tm_year := Nat.le_add_right 70 _
  unfold InRange at ht
  rw [format, field_full (w := 3) (by omega) (by omega), field_zero (by omega) (by omega),
    field_zero (by omega) (by omega), field_zero (by omega) (by omega),
    field_zero (by omega) (by omega), field_zero (by omega) (by omega),
    field_zero (by omega) hmicro]
  simp only [stamp, List.append_assoc]
  rfl

theorem buf_eq {t : ℕ} (ht : InRange (secondOf t)) :
    buf t = stamp (secondOf t) ++ 46 :: fixed charDigit 10 6 (microOf t) ++ List.replicate 8 0 := by
  have hmicro : t / 1000 - t / 10 ^ 9 * 10 ^ 6 = microOf t := by
    have hdiv : t / 10 ^ 9 = t / 1000 / 10 ^ 6 := (Nat.div_div_eq_div_mul t 1000 (10 ^ 6)).symm
    change t / 1000 - t / 10 ^ 9 * 10 ^ 6 = t / 1000 % 10 ^ 6
    omega
  have hlen : (stamp (secondOf t) ++ 46 :: fixed charDigit 10 6 (microOf t)).length = 24 := by
    simp [stamp_length]
  have hlt : microOf t < 10 ^ 6 := Nat.mod_lt _ (by omega)
  have hformat : format (gmtime (secondOf t)) (microOf t) = _ := format_eq rfl ht hlt
  rw [buf]
  simp only [hmicro]
  rw [snprintf, hformat, List.take_of_length_le (by omega), hlen]

theorem toDefaultLogString_eq {t : ℕ} (ht : InRange (secondOf t)) :
    toDefaultLogString t = stamp (secondOf t) := by
  rw [toDefaultLogString, buf_eq ht, List.append_assoc, List.take_left' (stamp_length _)]

/-- The text has no control characters. -/
theorem format_printable {tm : Tm} {micro : ℕ} : ∀ x ∈ format tm micro, 32 ≤ x.toNat := by
  have hzero : ∀ w n, ∀ x ∈ field 48 w n, 32 ≤ x.toNat := by
    intro w n x hx
    exact field_printable (by decide) hx
  have hspace : ∀ x ∈ ascii " ", 32 ≤ x.toNat := by
    intro x hx
    rw [List.mem_singleton.1 hx]
    decide
  have hcolon : ∀ x ∈ ascii ":", 32 ≤ x.toNat := by
    intro x hx
    rw [List.mem_singleton.1 hx]
    decide
  have hpoint : ∀ x ∈ ascii ".", 32 ≤ x.toNat := by
    intro x hx
    rw [List.mem_singleton.1 hx]
    decide
  intro x hx
  simp only [format, List.mem_append] at hx
  rcases hx with ((((((((((hx | hx) | hx) | hx) | hx) | hx) | hx) | hx) | hx) | hx) | hx)
  · exact field_printable (by decide) hx
  · exact hzero _ _ x hx
  · exact hzero _ _ x hx
  · exact hspace x hx
  · exact hzero _ _ x hx
  · exact hcolon x hx
  · exact hzero _ _ x hx
  · exact hcolon x hx
  · exact hzero _ _ x hx
  · exact hpoint x hx
  · exact hzero _ _ x hx

theorem buf_printable {t : ℕ} {x : UInt8} (h : x ∈ buf t) : x = 0 ∨ 32 ≤ x.toNat := by
  rw [buf, snprintf] at h
  rcases List.mem_append.1 h with h | h
  · exact .inr (format_printable x (List.mem_of_mem_take h))
  · exact .inl (List.eq_of_mem_replicate h)

theorem toString_eq {t : ℕ} (ht : InRange (secondOf t)) :
    toString t = stamp (secondOf t) ++ 46 :: fixed charDigit 10 6 (microOf t) := by
  have hlt : microOf t < 10 ^ 6 := Nat.mod_lt _ (by omega)
  have hne : ∀ x ∈ stamp (secondOf t) ++ 46 :: fixed charDigit 10 6 (microOf t), x ≠ 0 := by
    intro x hx h0
    rw [← format_eq rfl ht hlt] at hx
    have := format_printable x hx
    rw [h0] at this
    simp at this
  rw [toString, buf_eq ht, List.takeWhile_append_of_pos (by simpa using hne)]
  simp

end Timestamp

end MyMuduo
