import MyMuduo.Proof.LogStream
import MyMuduo.Proof.Timestamp
import MyMuduo.Spec.Logging

/-!
# Log records

* `record_eq`: the record of a statement is what its insertions leave of their texts, one after
  the other, in the buffer of the stream.
* `record_text`: with room for all of them, the record has `58` for the colon and `10` for the
  newline, because a `char` is inserted as an integer.
* `record_malformed`: **no record is what it is to be, and a log of several records is one line.**
* `time_texts_iff`: **when the two encoders of a time agree, and when the prefixes of two times
  are in their order.**
-/

namespace MyMuduo

open Lib

namespace Logger

/-- A base name is a string of its own. -/
theorem takeWhile_basename (filename : Bytes) :
    (SourceFile filename).takeWhile (· ≠ 0) = SourceFile filename := by
  refine List.takeWhile_eq_self_iff.2 fun x hx => ?_
  have hmem : x ∈ filename.take (strlen filename) := by
    have := (List.takeWhile_prefix _).subset (List.mem_reverse.1 hx)
    exact List.mem_reverse.1 this
  rw [RawBuffer.take_strlen] at hmem
  exact List.mem_takeWhile_imp (p := fun x => decide (x ≠ 0)) hmem

theorem Impl.insert_of_run {s : Impl} {items : List Insertion} {b : LogStream}
    (h : run RawBuffer.insert s.m_stream items = some b) :
    s.insert items = some { s with m_stream := b } := by
  rw [Impl.insert, h, Option.map_some]

theorem Impl.destroy_of_run {s : Impl} {b : LogStream}
    (h : run RawBuffer.insert s.m_stream s.finishItems = some b) :
    s.destroy.map Prod.fst = some b.text := by
  have hfinish : s.finish = some { s with m_stream := b } := Impl.insert_of_run h
  rw [Impl.destroy, hfinish]
  rfl

namespace Statement

variable {c : Statement}

theorem construct_of_run {b : LogStream}
    (h : run RawBuffer.insert c.impl.m_stream
      (Impl.clockItems c.now ++ c.impl.threadItems) = some b) :
    ∃ s : Impl, c.construct = some s ∧ s.m_stream = b ∧ s.finishItems = c.impl.finishItems := by
  have hinsert := Impl.insert_of_run (s := { c.impl with
    m_lastSecond := (Timestamp.microsecondsSinceEpoch c.now / 10 ^ 6 : ℕ) }) h
  exact ⟨_, hinsert, rfl, rfl⟩

/-- The insertions in front of the colon. -/
def headItems (c : Statement) : List Insertion :=
  Impl.clockItems c.now ++ c.impl.threadItems ++ c.items ++
    [.cstr (some (ascii " - ")), .cstr (some c.impl.m_basename)]

/-- The insertions from the colon on. -/
def tailItems (c : Statement) : List Insertion := [.char 58, .integer .int c.line, .char 10]

theorem recordText_eq :
    c.recordText = c.headItems.flatMap Insertion.text ++ [58] ++ decimal c.line.toInt ++ [10] := by
  have hbase : Insertion.text (.cstr (some c.impl.m_basename)) = c.impl.m_basename :=
    takeWhile_basename c.filename
  have hdash : Insertion.text (.cstr (some (ascii " - "))) = ascii " - " := by
    decide
  simp only [headItems, List.flatMap_append, List.flatMap_cons, List.flatMap_nil, hbase, hdash,
    recordText, prefixText, timeText, List.append_assoc, List.append_nil]

/-- The texts of a short statement are short. -/
theorem short_of_fits (h : c.recordText.length ≤ kSmallBuffer) :
    ∀ i ∈ c.headItems ++ c.tailItems, i.text.length < 2 ^ 31 := by
  intro i hi
  rw [recordText_eq, kSmallBuffer] at h
  simp only [List.length_append, List.length_singleton] at h
  rcases List.mem_append.1 hi with hi | hi
  · have hle : i.text.length ≤ (c.headItems.flatMap Insertion.text).length := by
      rw [List.length_flatMap]
      exact List.le_sum_of_mem (List.mem_map_of_mem hi)
    omega
  · have hline := RawBuffer.decimal_length_le (T := .int) c.line
    simp only [tailItems, List.mem_cons, List.not_mem_nil, or_false] at hi
    rcases hi with hi | hi | hi <;> subst hi
    · decide
    · change (decimal (IntType.value .int c.line)).length < 2 ^ 31
      omega
    · decide

/-- The record is the text of a stream that keeps its bounds. -/
theorem record_of_short (h : ∀ i ∈ c.headItems ++ c.tailItems, i.text.length < 2 ^ 31) :
    ∃ b : LogStream, b.Ok ∧ c.record = some b.text ∧
      b.text = (c.headItems ++ c.tailItems).foldl (insertText kSmallBuffer) [] := by
  obtain ⟨b, hb, hok, htext⟩ := RawBuffer.run_of_short (by decide) h
    (RawBuffer.new_ok (by decide) c.m_data : (RawBuffer.new c.m_data : LogStream).Ok)
  have hitems : c.headItems ++ c.tailItems =
      (Impl.clockItems c.now ++ c.impl.threadItems) ++ (c.items ++ c.impl.finishItems) := by
    simp only [headItems, tailItems, Impl.finishItems, List.append_assoc]
    rfl
  rw [hitems, run_append, Option.bind_eq_some_iff] at hb
  obtain ⟨b₁, hb₁, hb⟩ := hb
  rw [run_append, Option.bind_eq_some_iff] at hb
  obtain ⟨b₂, hb₂, hb⟩ := hb
  obtain ⟨s, hs, rfl, hfinish⟩ := construct_of_run hb₁
  rw [← hfinish] at hb
  have hdestroy := Impl.destroy_of_run (s := { s with m_stream := b₂ }) hb
  refine ⟨b, hok, ?_, htext⟩
  rw [record, hs, Option.bind_some, Impl.insert_of_run hb₂, Option.bind_some, hdestroy]

/-- **A record in terms of its insertions.** -/
theorem record_eq (h : c.recordText.length ≤ kSmallBuffer) :
    c.record = some ((c.headItems ++ c.tailItems).foldl (insertText kSmallBuffer) []) := by
  obtain ⟨b, -, hrecord, htext⟩ := record_of_short (short_of_fits h)
  rw [hrecord, htext]

/-- **The record when everything fits**: a `char` has no overload of its own, so the colon and the
newline are inserted as the integers 58 and 10. -/
theorem record_text (h : c.recordText.length + 50 ≤ kSmallBuffer) :
    c.record = some (c.headItems.flatMap Insertion.text ++
      (ascii "58" ++ (decimal c.line.toInt ++ ascii "10"))) := by
  have htail : c.tailItems.flatMap Insertion.text =
      ascii "58" ++ (decimal c.line.toInt ++ ascii "10") := by
    have hcolon : Insertion.text (.char 58) = ascii "58" := by decide
    have hnewline : Insertion.text (.char 10) = ascii "10" := by decide
    simp only [tailItems, List.flatMap_cons, List.flatMap_nil, hcolon, hnewline, List.append_nil]
    rfl
  have hlen : (ascii "58" ++ (decimal c.line.toInt ++ ascii "10")).length =
      (decimal c.line.toInt).length + 4 := by
    simp only [List.length_append]
    change 2 + (_ + 2) = _
    omega
  have hfits := h
  rw [recordText_eq] at hfits
  simp only [List.length_append, List.length_singleton] at hfits
  rw [record_eq (by omega), RawBuffer.insertTexts_eq, List.nil_append, List.flatMap_append, htail]
  rw [List.length_nil, List.flatMap_append, htail, List.length_append, hlen]
  omega

/-- What is left of the last three insertions is never a colon, the line and a newline. -/
theorem tail_ne {S : ℕ} {T E : Bytes} (h : T.length ≤ E.length) :
    c.tailItems.foldl (insertText S) T ≠ E ++ [58] ++ decimal c.line.toInt ++ [10] := by
  intro heq
  have hcolon : Insertion.text (.char 58) = [53, 56] := by decide
  have hnewline : Insertion.text (.char 10) = [49, 48] := by decide
  change insertText S (insertText S (insertText S T (.char 58)) (.integer .int c.line)) (.char 10) =
    _ at heq
  by_cases hroom : T.length + 48 ≤ S
  · have hfirst : insertText S T (.char 58) = T ++ [53, 56] := by
      rw [insertText, if_pos (show T.length + (Insertion.char 58).need ≤ S from hroom), hcolon]
    obtain ⟨line, hline, hle⟩ : ∃ line, insertText S (T ++ [53, 56]) (.integer .int c.line) =
        T ++ [53, 56] ++ line ∧ line.length ≤ (decimal c.line.toInt).length := by
      rw [insertText]
      split
      · exact ⟨_, rfl, le_rfl⟩
      · exact ⟨[], (List.append_nil _).symm, Nat.zero_le _⟩
    rw [hfirst, hline, insertText, hnewline] at heq
    split at heq
    · -- the last byte is a `0`
      have hlast : T ++ [53, 56] ++ line ++ [49] ++ [48] = E ++ [58] ++ decimal c.line.toInt ++ [10] := by
        rw [← heq, List.append_assoc _ [49]]
        rfl
      exact absurd (List.append_inj' hlast rfl).2 (by decide)
    · have hlen := congrArg List.length heq
      simp only [List.length_append, List.length_cons, List.length_nil] at hlen
      have hTE : T.length = E.length := by omega
      rw [List.append_assoc, List.append_assoc, List.append_assoc] at heq
      obtain ⟨-, hrest⟩ := List.append_inj heq hTE
      simp at hrest
  · -- without room for the colon there is none for what follows
    have hnone : ∀ i : Insertion, i.need = 48 → insertText S T i = T := by
      intro i hi
      rw [insertText, hi, if_neg hroom]
    rw [hnone _ rfl, hnone _ rfl, hnone _ rfl] at heq
    have hlen := congrArg List.length heq
    simp only [List.length_append, List.length_singleton] at hlen
    omega

/-- A record is not the text it is to be. -/
theorem record_ne (h : c.recordText.length ≤ kSmallBuffer) : ∃ r, c.record = some r ∧ r ≠ c.recordText := by
  refine ⟨_, record_eq h, ?_⟩
  have hle : (c.headItems.foldl (insertText kSmallBuffer) []).length ≤ _ :=
    RawBuffer.insertTexts_length_le c.headItems []
  rw [List.foldl_append, recordText_eq]
  exact tail_ne (by simpa using hle)

/-! ## Newlines -/

theorem decimal_no_newline (z : ℤ) : 10 ∉ decimal z := by
  intro h
  rcases List.mem_append.1 h with h | h
  · split at h
    · exact absurd (List.mem_singleton.1 h) (by decide)
    · exact List.not_mem_nil h
  · obtain ⟨d, hd, hx⟩ := mem_numeral (by decide) h
    have := charDigit_toNat hd
    rw [← hx] at this
    simp at this
    omega

/-- The time, the thread and the level have no newline. -/
theorem prefix_no_newline : 10 ∉ c.prefixText := by
  have htime : 10 ∉ Timestamp.toDefaultLogString c.now := by
    intro h
    rcases Timestamp.buf_printable (List.mem_of_mem_take h) with h | h
    · exact absurd h (by decide)
    · exact absurd h (by decide)
  have hlevel : 10 ∉ c.impl.getLogLevel.takeWhile (· ≠ 0) := by
    rw [Impl.getLogLevel]
    cases c.impl.m_level <;> decide
  have htid : 10 ∉ to_string c.impl.m_tid.toNat := by
    intro h
    have := to_string_digits h
    simp at this
  have hpoint : 10 ∉ (ascii ".").takeWhile (· ≠ 0) := by decide
  have hspace : 10 ∉ (ascii " ").takeWhile (· ≠ 0) := by decide
  have hmicro := decimal_no_newline
    (IntType.value .int (BitVec.ofNat 32 (Timestamp.microsecondsSinceEpoch c.now % 10 ^ 6)))
  simp only [prefixText, timeText, Impl.clockItems, Impl.threadItems, List.flatMap_cons,
    List.flatMap_nil, Insertion.text, List.mem_append, List.not_mem_nil, or_false, not_or]
  exact ⟨⟨htime, hpoint, hmicro⟩, hspace, htid, hspace, hlevel, hspace⟩

/-- The strings of the statement have no newline. -/
structure Plain (c : Statement) : Prop where
  items : 10 ∉ c.items.flatMap Insertion.text
  basename : 10 ∉ c.impl.m_basename

theorem head_no_newline (h : c.Plain) : 10 ∉ c.headItems.flatMap Insertion.text := by
  have heq : c.headItems.flatMap Insertion.text =
      c.prefixText ++ c.items.flatMap Insertion.text ++ ascii " - " ++ c.impl.m_basename := by
    have happ := recordText_eq (c := c)
    rw [recordText] at happ
    exact (List.append_cancel_right (List.append_cancel_right (List.append_cancel_right happ))).symm
  have hclean := prefix_no_newline (c := c)
  have hdash : 10 ∉ ascii " - " := by decide
  rw [heq]
  simp only [List.mem_append, not_or]
  exact ⟨⟨⟨hclean, h.items⟩, hdash⟩, h.basename⟩

/-- **The newline at the end is not one.** -/
theorem record_no_newline (hfits : c.recordText.length ≤ kSmallBuffer) (h : c.Plain) {r : Bytes}
    (hr : c.record = some r) : 10 ∉ r := by
  rw [record_eq hfits] at hr
  obtain rfl := Option.some_inj.1 hr
  intro hmem
  rcases RawBuffer.mem_insertTexts hmem with hmem | hmem
  · exact List.not_mem_nil hmem
  rw [List.flatMap_append, List.mem_append] at hmem
  rcases hmem with hmem | hmem
  · exact head_no_newline h hmem
  · have hcolon : 10 ∉ Insertion.text (.char 58) := by decide
    have hnewline : 10 ∉ Insertion.text (.char 10) := by decide
    have hline : 10 ∉ Insertion.text (.integer .int c.line) := decimal_no_newline _
    simp only [tailItems, List.flatMap_cons, List.flatMap_nil, List.mem_append, List.not_mem_nil,
      or_false] at hmem
    rcases hmem with hmem | hmem | hmem
    · exact hcolon hmem
    · exact hline hmem
    · exact hnewline hmem

end Statement

/-! ## A log of records -/

/-- Without a newline there is one line at most. -/
theorem splitLines_length_le {log : Bytes} (h : 10 ∉ log) : (splitLines log).length ≤ 1 := by
  induction log with
  | nil => exact Nat.zero_le 1
  | cons b log ih =>
    rw [List.mem_cons, not_or] at h
    have hlog := ih h.2
    rw [splitLines, if_neg fun hb => h.1 hb.symm]
    split
    · exact le_rfl
    · rename_i hsplit
      rw [hsplit] at hlog
      exact hlog

/-- A line in front of a log. -/
theorem splitLines_line {line : Bytes} (h : 10 ∉ line) (log : Bytes) :
    splitLines (line ++ [10] ++ log) = (line ++ [10]) :: splitLines log := by
  induction line with
  | nil => rfl
  | cons b line ih =>
    rw [List.mem_cons, not_or] at h
    rw [List.cons_append, List.cons_append, splitLines, if_neg fun hb => h.1 hb.symm, ih h.2]

/-- What the records are to be could be cut apart again. -/
theorem splitLines_recordTexts {cs : List Statement} (h : ∀ c ∈ cs, c.Plain) :
    splitLines (cs.flatMap Statement.recordText) = cs.map Statement.recordText := by
  induction cs with
  | nil => rfl
  | cons c cs ih =>
    have hc : 10 ∉ c.headItems.flatMap Insertion.text ++ [58] ++ decimal c.line.toInt := by
      have h1 := Statement.head_no_newline (h c List.mem_cons_self)
      have h2 := Statement.decimal_no_newline c.line.toInt
      simp only [List.mem_append, List.mem_singleton, not_or]
      exact ⟨⟨h1, by decide⟩, h2⟩
    rw [List.flatMap_cons, List.map_cons, ← ih fun d hd => h d (List.mem_cons_of_mem c hd),
      Statement.recordText_eq, splitLines_line hc]

/-- **No log record is well formed.** For all statements whose texts are to fit in the buffer, every
record is another text; and when the strings of the statements have no newline, a log of two or
more of them cannot be cut apart at newlines. -/
theorem record_malformed (cs : List Statement)
    (hfits : ∀ c ∈ cs, c.recordText.length ≤ kSmallBuffer) :
    (∀ c ∈ cs, ∃ r, c.record = some r ∧ r ≠ c.recordText) ∧
      (2 ≤ cs.length → (∀ c ∈ cs, c.Plain) →
        ∃ rs, cs.mapM Statement.record = some rs ∧ splitLines rs.flatten ≠ rs) := by
  refine ⟨fun c hc => Statement.record_ne (hfits c hc), fun hlen hplain => ?_⟩
  obtain ⟨rs, hrs, hsame, hclean⟩ : ∃ rs, cs.mapM Statement.record = some rs ∧
      rs.length = cs.length ∧ ∀ r ∈ rs, 10 ∉ r := by
    clear hlen
    induction cs with
    | nil => exact ⟨[], rfl, rfl, by simp⟩
    | cons c cs ih =>
      obtain ⟨rs, hrs, hsame, hclean⟩ := ih (fun d hd => hfits d (List.mem_cons_of_mem c hd))
        fun d hd => hplain d (List.mem_cons_of_mem c hd)
      have hc := hfits c List.mem_cons_self
      have hr := Statement.record_eq hc
      refine ⟨_ :: rs, by rw [List.mapM_cons, hr, hrs]; rfl, congrArg (· + 1) hsame, ?_⟩
      intro r hmem
      rcases List.mem_cons.1 hmem with h | h
      · rw [h]
        exact Statement.record_no_newline hc (hplain c List.mem_cons_self) hr
      · exact hclean r h
  refine ⟨rs, hrs, fun hsplit => ?_⟩
  have hflat : 10 ∉ rs.flatten := by
    intro hmem
    obtain ⟨r, hr, hmem⟩ := List.mem_flatten.1 hmem
    exact hclean r hr hmem
  have hle := splitLines_length_le hflat
  rw [hsplit] at hle
  omega

/-- `LOG_INFO << "hi"` in line 4 of a file, one microsecond after the epoch. -/
def sample : Statement where
  filename := ascii "src/a.cpp"
  line := 4
  level := .INFO
  tid := 1
  lastSecond := 0
  now := 1000
  m_data := fun _ => 0
  items := [.cstr (some (ascii "hi"))]

theorem record_malformed_sample :
    (∀ c ∈ [sample, sample], ∃ r, c.record = some r ∧ r ≠ c.recordText) ∧
      ∃ rs, [sample, sample].mapM Statement.record = some rs ∧ splitLines rs.flatten ≠ rs := by
  have hsample : ∀ c ∈ [sample, sample], c = sample := by simp
  have hfits : sample.recordText.length ≤ kSmallBuffer := by decide
  have hplain : sample.Plain := ⟨by decide, by decide⟩
  obtain ⟨hne, hsplit⟩ := record_malformed [sample, sample] fun c hc => by rwa [hsample c hc]
  exact ⟨hne, hsplit le_rfl fun c hc => by rwa [hsample c hc]⟩

/-- The colon of the sample comes out as `58`, and its newline as `10`. -/
theorem record_malformed_colon :
    sample.record ≠ some sample.recordText ∧
      sample.recordText = ascii "19700101 00:00:00.1 1 INFO hi - a.cpp:4\n" ∧
      sample.record = some (ascii "19700101 00:00:00.1 1 INFO hi - a.cpp58410") := by
  have hrecord : sample.record = some (ascii "19700101 00:00:00.1 1 INFO hi - a.cpp58410") := by
    rw [Statement.record_text (by decide)]
    decide
  refine ⟨?_, by decide, hrecord⟩
  rw [hrecord]
  decide

/-! ## The time of a record -/

namespace Statement

variable {c : Statement}

theorem threadText_length_le : (c.impl.threadItems.flatMap Insertion.text).length ≤ 28 := by
  have hlevel : (c.impl.getLogLevel.takeWhile (· ≠ 0)).length ≤ 5 := by
    rw [Impl.getLogLevel]
    cases c.impl.m_level <;> decide
  have htid : (to_string c.impl.m_tid.toNat).length ≤ 20 := by
    have hlt := c.impl.m_tid.isLt
    rw [to_string_eq]
    exact numeral_length_le (by omega) (by omega)
  have hspace : ((ascii " ").takeWhile (· ≠ 0)).length = 1 := by decide
  simp only [Impl.threadItems, List.flatMap_cons, List.flatMap_nil, Insertion.text,
    List.length_append, List.length_nil, hspace]
  omega

theorem timeText_length_le (now : ℕ) : (timeText now).length ≤ 39 := by
  have hpoint : ((ascii ".").takeWhile (· ≠ 0)).length = 1 := by decide
  have hstamp : (Timestamp.toDefaultLogString now).length ≤ 17 := List.length_take_le _ _
  have hmicro := RawBuffer.decimal_length_le (T := .int)
    (BitVec.ofNat 32 (Timestamp.microsecondsSinceEpoch now % 10 ^ 6))
  simp only [timeText, Impl.clockItems, List.flatMap_cons, List.flatMap_nil, Insertion.text,
    List.length_append, List.length_nil, hpoint]
  omega

/-- The prefix of a record is in the stream after the constructor. -/
theorem construct_text (c : Statement) :
    ∃ s : Impl, c.construct = some s ∧ s.m_stream.text = c.prefixText := by
  have h1 := timeText_length_le c.now
  have h2 := threadText_length_le (c := c)
  have hflat : (Impl.clockItems c.now ++ c.impl.threadItems).flatMap Insertion.text = c.prefixText :=
    List.flatMap_append
  have hlen : c.prefixText.length ≤ 67 := by
    rw [prefixText, List.length_append]
    omega
  have hshort : ∀ i ∈ Impl.clockItems c.now ++ c.impl.threadItems, i.text.length < 2 ^ 31 := by
    intro i hi
    have hle : i.text.length ≤ c.prefixText.length := by
      rw [← hflat, List.length_flatMap]
      exact List.le_sum_of_mem (List.mem_map_of_mem hi)
    omega
  obtain ⟨b, hb, -, htext⟩ := RawBuffer.run_of_short (by decide) hshort
    (RawBuffer.new_ok (by decide) c.m_data : (RawBuffer.new c.m_data : LogStream).Ok)
  obtain ⟨s, hs, rfl, -⟩ := construct_of_run hb
  refine ⟨s, hs, ?_⟩
  have hnew : (RawBuffer.new c.m_data : LogStream).text = [] := rfl
  rw [htext, hnew, RawBuffer.insertTexts_eq, hflat, List.nil_append]
  rw [hflat, List.length_nil, kSmallBuffer]
  omega

end Statement

open Timestamp

/-- The microseconds are written without leading zeros. -/
theorem timeText_eq {now : ℕ} (h : InRange (secondOf now)) :
    Statement.timeText now = stamp (secondOf now) ++ 46 :: numeral charDigit 10 (microOf now) := by
  have hlt : microOf now < 10 ^ 6 := Nat.mod_lt _ (by omega)
  have hvalue : IntType.value .int (BitVec.ofNat 32 (microOf now)) = microOf now := by
    have hnat : (BitVec.ofNat 32 (microOf now)).toNat = microOf now := by
      rw [BitVec.toNat_ofNat]
      omega
    change (BitVec.ofNat 32 (microOf now)).toInt = microOf now
    rw [BitVec.toInt_eq_toNat_of_lt (by rw [hnat]; omega), hnat]
  have hdecimal : decimal (microOf now : ℤ) = numeral charDigit 10 (microOf now) := by
    rw [decimal, if_neg (by omega), Int.natAbs_natCast]
    rfl
  have hpoint : (ascii ".").takeWhile (· ≠ 0) = [46] := by decide
  rw [Statement.timeText, Impl.clockItems]
  simp only [List.flatMap_cons, List.flatMap_nil, Insertion.text, toDefaultLogString_eq h, hpoint,
    microsecondsSinceEpoch, hvalue, hdecimal, List.append_nil]
  rfl

/-- Six digits are what both encoders write. -/
theorem timeText_eq_iff {now : ℕ} (h : InRange (secondOf now)) :
    Statement.timeText now = Timestamp.toString now ↔ 10 ^ 5 ≤ microOf now := by
  have hlt : microOf now < 10 ^ 6 := Nat.mod_lt _ (by omega)
  rw [timeText_eq h, toString_eq h, List.append_cancel_left_eq, List.cons_inj_right]
  constructor
  · intro heq
    have hlen := congrArg List.length heq
    rw [numeral_length, fixed_length] at hlen
    have hlog : Nat.log 10 (microOf now) = 5 := by omega
    have hne : microOf now ≠ 0 := by
      intro h0
      rw [h0, Nat.log_zero_right] at hlog
      omega
    exact Nat.pow_le_of_le_log hne hlog.ge
  · intro hge
    rw [numeral, Nat.log_eq_of_pow_le_of_lt_pow hge hlt]

/-- **When the encoders agree, and when prefixes are in order.** What `formatTime` writes of a time
is its `toString` exactly if its microseconds have six digits. Of two times a microsecond apart at
least, the prefix of the earlier one is the smaller text exactly if they are in different seconds,
or the microseconds of the earlier one are at most the number that as many leading digits of those
of the later one make. -/
theorem time_texts_iff (c d : Statement) (hc : InRange (secondOf c.now)) (hd : InRange (secondOf d.now)) :
    ∃ s t : Impl, c.construct = some s ∧ d.construct = some t ∧
      Statement.timeText c.now <+: s.m_stream.text ∧
      (Statement.timeText c.now = Timestamp.toString c.now ↔ 10 ^ 5 ≤ microOf c.now) ∧
      (c.now + 1000 ≤ d.now →
        (s.m_stream.text < t.m_stream.text ↔ secondOf c.now ≠ secondOf d.now ∨
          microOf c.now ≤
            microOf d.now / 10 ^ (Nat.log 10 (microOf d.now) - Nat.log 10 (microOf c.now)))) := by
  obtain ⟨s, hs, hstext⟩ := c.construct_text
  obtain ⟨t, ht, httext⟩ := d.construct_text
  refine ⟨s, t, hs, ht, ⟨_, hstext.symm⟩, timeText_eq_iff hc, fun hnow => ?_⟩
  have hspace : ∀ e : Statement, ∃ rest,
      e.impl.threadItems.flatMap Insertion.text = 32 :: rest := fun e => ⟨_, rfl⟩
  obtain ⟨u, hu⟩ := hspace c
  obtain ⟨v, hv⟩ := hspace d
  have hsec : ∀ n : ℕ, secondOf n = n / 1000 / 10 ^ 6 := fun n =>
    (Nat.div_div_eq_div_mul n 1000 (10 ^ 6)).symm
  have hle : secondOf c.now ≤ secondOf d.now := Nat.div_le_div_right (by omega)
  rw [hstext, httext, Statement.prefixText, Statement.prefixText, timeText_eq hc, timeText_eq hd,
    hu, hv, List.append_assoc, List.append_assoc]
  rcases Nat.lt_or_eq_of_le hle with hlt | heq
  · refine iff_of_true ?_ (.inl hlt.ne)
    rw [append_lt_append_iff (by rw [stamp_length, stamp_length])]
    exact .inl (stamp_lt hc hd hlt)
  · -- in one second the microseconds decide
    have hmicro : microOf c.now < microOf d.now := by
      rw [hsec, hsec] at heq
      change c.now / 1000 % 10 ^ 6 < d.now / 1000 % 10 ^ 6
      omega
    have hbelow : ∀ k < 10, (32 : UInt8) < charDigit k := by
      intro k hk
      rw [UInt8.lt_iff_toNat_lt, charDigit_toNat hk]
      change 32 < 48 + k
      omega
    rw [heq, byte_append_lt_iff, List.cons_append, List.cons_append, byte_cons_lt_iff,
      numeral_lt_iff charDigit_alphabet hbelow hmicro]
    simp

/-- Two times in different seconds. -/
theorem time_texts_iff_seconds :
    ∃ s t : Impl, sample.construct = some s ∧
      { sample with now := 10 ^ 9 }.construct = some t ∧ s.m_stream.text < t.m_stream.text := by
  obtain ⟨s, t, hs, ht, -, -, hlt⟩ :=
    time_texts_iff sample { sample with now := 10 ^ 9 } (by decide) (by decide)
  exact ⟨s, t, hs, ht, (hlt (by decide)).2 (.inl (by decide))⟩

/-- One microsecond after the epoch, the encoders disagree; and the prefix of 9 microseconds is
greater than that of 10. -/
theorem time_texts_differ :
    Statement.timeText 1000 = ascii "19700101 00:00:00.1" ∧
      Timestamp.toString 1000 = ascii "19700101 00:00:00.000001" ∧
      ∃ s t : Impl, { sample with now := 9000 }.construct = some s ∧
        { sample with now := 10000 }.construct = some t ∧ t.m_stream.text < s.m_stream.text := by
  refine ⟨by decide, by decide, ?_⟩
  obtain ⟨s, hs, hstext⟩ := Statement.construct_text { sample with now := 9000 }
  obtain ⟨t, ht, httext⟩ := Statement.construct_text { sample with now := 10000 }
  refine ⟨s, t, hs, ht, ?_⟩
  rw [hstext, httext]
  decide

end Logger

end MyMuduo
