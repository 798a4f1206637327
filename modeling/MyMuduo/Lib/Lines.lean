import MyMuduo.Lib.ByteQueue

/-!
# Lines of a byte string

A line ends in CR LF; `lines` cuts a byte string at its leftmost CR LFs and drops what
follows the last one. `findCRLF` is the search for the first CR LF.

* `lines_of_find`, `lines_of_not_find`: one search cuts off the first line.
* `findCRLF_append`, `lines_append_of_find`: bytes that come later do not change the first line.
* `lines_split`: the lines that are read off stand in the string, each with its CR LF.
* `lines_line`, `lines_encode`: lines without a CR LF, each followed by one, are read back.
* `lines_isLine`: what is read back has no CR LF in it.
* `cutBlank_encode`: lines that are not empty, a blank line and any bytes are cut apart at the
  first CR LF CR LF.
-/

namespace MyMuduo.Lib

/-- The bytes of a string of ASCII characters. -/
def ascii (s : String) : Bytes := s.toList.map fun c => UInt8.ofNat c.toNat

/-- Carriage return, line feed. -/
def CRLF : Bytes := [13, 10]

/-- The index of the first CR LF. -/
def findCRLF : Bytes → Option ℕ
  | [] => none
  | 13 :: 10 :: _ => some 0
  | _ :: s => (findCRLF s).map (· + 1)

/-- The lines that end in CR LF, without it. -/
def lines : Bytes → List Bytes
  | [] => []
  | 13 :: 10 :: s => [] :: lines s
  | b :: s =>
    match lines s with
    | [] => []
    | l :: ls => (b :: l) :: ls

/-- A line: no CR LF in it. -/
def IsLine (l : Bytes) : Prop := findCRLF l = none

instance (l : Bytes) : Decidable (IsLine l) := inferInstanceAs (Decidable (_ = _))

/-- Lines, each with its CR LF. -/
def encodeLines (ls : List Bytes) : Bytes := ls.flatMap (· ++ CRLF)

@[simp] theorem lines_nil : lines [] = [] := rfl

/-- The first byte of a string that does not start with CR LF belongs to its first line. -/
theorem lines_cons {b : UInt8} {s : Bytes} (h : ∀ s', b = 13 → s ≠ 10 :: s') :
    lines (b :: s) = match lines s with
      | [] => []
      | l :: ls => (b :: l) :: ls := by
  rw [lines]
  intro s' hb hs
  exact h s' hb hs

theorem findCRLF_cons {b : UInt8} {s : Bytes} (h : ∀ s', b = 13 → s ≠ 10 :: s') :
    findCRLF (b :: s) = (findCRLF s).map (· + 1) := by
  rw [findCRLF]
  intro s' hb hs
  exact h s' hb hs

theorem lines_of_not_find : ∀ {s : Bytes}, findCRLF s = none → lines s = []
  | [], _ => rfl
  | b :: s, h => by
    by_cases hc : ∃ s', b = 13 ∧ s = 10 :: s'
    · obtain ⟨s', rfl, rfl⟩ := hc
      simp [findCRLF] at h
    · push Not at hc
      rw [findCRLF_cons hc, Option.map_eq_none_iff] at h
      rw [lines_cons hc, lines_of_not_find h]

theorem lines_of_find : ∀ {s : Bytes} {i : ℕ}, findCRLF s = some i →
    i + 2 ≤ s.length ∧ lines s = s.take i :: lines (s.drop (i + 2))
  | [], i, h => by simp [findCRLF] at h
  | b :: s, i, h => by
    by_cases hc : ∃ s', b = 13 ∧ s = 10 :: s'
    · obtain ⟨s', rfl, rfl⟩ := hc
      simp only [findCRLF, Option.some.injEq] at h
      subst h
      exact ⟨by simp, rfl⟩
    · push Not at hc
      rw [findCRLF_cons hc, Option.map_eq_some_iff] at h
      obtain ⟨j, hj, rfl⟩ := h
      obtain ⟨h1, h2⟩ := lines_of_find hj
      refine ⟨by simp only [List.length_cons]; omega, ?_⟩
      rw [lines_cons hc, h2]
      rfl

/-- The search cuts the string in the first line, its CR LF and the rest. -/
theorem findCRLF_cut : ∀ {s : Bytes} {i : ℕ}, findCRLF s = some i →
    s = s.take i ++ CRLF ++ s.drop (i + 2)
  | [], i, h => by simp [findCRLF] at h
  | b :: s, i, h => by
    by_cases hc : ∃ s', b = 13 ∧ s = 10 :: s'
    · obtain ⟨s', rfl, rfl⟩ := hc
      simp only [findCRLF, Option.some.injEq] at h
      subst h
      rfl
    · push Not at hc
      rw [findCRLF_cons hc, Option.map_eq_some_iff] at h
      obtain ⟨j, hj, rfl⟩ := h
      have ih := findCRLF_cut hj
      rw [List.take_succ_cons, List.cons_append, List.cons_append,
        show j + 1 + 2 = (j + 2) + 1 by omega, List.drop_succ_cons, ← ih]

/-- The first CR LF is where it was after more bytes came. -/
theorem findCRLF_append : ∀ {s : Bytes} {i : ℕ} (c : Bytes), findCRLF s = some i →
    findCRLF (s ++ c) = some i
  | [], i, c, h => by simp [findCRLF] at h
  | b :: s, i, c, h => by
    by_cases hc : ∃ s', b = 13 ∧ s = 10 :: s'
    · obtain ⟨s', rfl, rfl⟩ := hc
      simpa only [List.cons_append, findCRLF] using h
    · push Not at hc
      rw [findCRLF_cons hc, Option.map_eq_some_iff] at h
      obtain ⟨j, hj, rfl⟩ := h
      have hc' : ∀ s', b = 13 → s ++ c ≠ 10 :: s' := by
        intro s' hb he
        cases s with
        | nil => simp [findCRLF] at hj
        | cons a s => exact hc s hb (by rw [(List.cons.inj he).1])
      rw [List.cons_append, findCRLF_cons hc', findCRLF_append c hj]
      rfl

/-- The first line is what it was after more bytes came. -/
theorem lines_append_of_find {s : Bytes} {i : ℕ} (c : Bytes) (h : findCRLF s = some i) :
    lines (s ++ c) = s.take i :: lines (s.drop (i + 2) ++ c) := by
  obtain ⟨hlen, -⟩ := lines_of_find h
  obtain ⟨-, hlines⟩ := lines_of_find (findCRLF_append c h)
  rw [hlines, List.take_append_of_le_length (by omega), List.drop_append_of_le_length hlen]

/-- A line with its CR LF is the first line of what starts with it. -/
theorem lines_line : ∀ {l : Bytes} (s : Bytes), IsLine l → lines (l ++ CRLF ++ s) = l :: lines s
  | [], s, _ => rfl
  | b :: l, s, h => by
    have hc : ∀ s', b = 13 → l ≠ 10 :: s' := by
      rintro s' rfl rfl
      simp [IsLine, findCRLF] at h
    have hl : IsLine l := by
      rw [IsLine, findCRLF_cons hc, Option.map_eq_none_iff] at h; exact h
    have hc' : ∀ s', b = 13 → l ++ CRLF ++ s ≠ 10 :: s' := by
      intro s' hb he
      cases l with
      | nil => simp [CRLF] at he
      | cons c l => simp only [List.cons_append, List.cons.injEq] at he; exact hc l hb (by rw [he.1])
    rw [List.cons_append, List.cons_append, lines_cons hc', lines_line s hl]

theorem lines_encode {ls : List Bytes} (h : ∀ l ∈ ls, IsLine l) (s : Bytes) :
    lines (encodeLines ls ++ s) = ls ++ lines s := by
  induction ls with
  | nil => rfl
  | cons l ls ih =>
    have hl := h l List.mem_cons_self
    have ih := ih fun x hx => h x (List.mem_cons_of_mem _ hx)
    rw [encodeLines, List.flatMap_cons, List.append_assoc, lines_line _ hl]
    rw [encodeLines] at ih
    rw [ih, List.cons_append]

/-- **Lines at the front of a string stand there with their CR LFs.** -/
theorem lines_split (pre : List Bytes) {post : List Bytes} {s : Bytes} (h : lines s = pre ++ post) :
    ∃ t, s = encodeLines pre ++ t ∧ lines t = post := by
  induction pre generalizing s with
  | nil => exact ⟨s, rfl, h⟩
  | cons l pre ih =>
    cases hf : findCRLF s with
    | none =>
      rw [lines_of_not_find hf] at h
      cases h
    | some i =>
      obtain ⟨-, hlines⟩ := lines_of_find hf
      rw [hlines, List.cons_append, List.cons.injEq] at h
      obtain ⟨t, ht, hpost⟩ := ih h.2
      refine ⟨t, ?_, hpost⟩
      rw [encodeLines, List.flatMap_cons, ← h.1, List.append_assoc]
      exact (findCRLF_cut hf).trans (by rw [ht]; rfl)

/-- The first line begins with the first byte. -/
theorem line_head {s l : Bytes} {b : UInt8} {ls : List Bytes} (h : lines s = (b :: l) :: ls)
    (hs : ∀ t, s ≠ b :: t) : False := by
  cases s with
  | nil => cases h
  | cons a s =>
    by_cases hc : ∃ s', a = 13 ∧ s = 10 :: s'
    · obtain ⟨s', rfl, rfl⟩ := hc
      simp [lines] at h
    · push Not at hc
      rw [lines_cons hc] at h
      split at h
      · cases h
      · cases h
        exact hs s rfl

theorem lines_isLine : ∀ {s l : Bytes}, l ∈ lines s → IsLine l
  | [], l, h => absurd h List.not_mem_nil
  | b :: s, l, h => by
    by_cases hc : ∃ s', b = 13 ∧ s = 10 :: s'
    · obtain ⟨s', rfl, rfl⟩ := hc
      rcases List.mem_cons.1 h with rfl | h
      · rfl
      · exact lines_isLine h
    · push Not at hc
      rw [lines_cons hc] at h
      cases hs : lines s with
      | nil => rw [hs] at h; cases h
      | cons l₀ ls =>
        rw [hs] at h
        rcases List.mem_cons.1 h with rfl | h
        · have h₀ : IsLine l₀ := lines_isLine (s := s) (by rw [hs]; exact List.mem_cons_self)
          -- the byte in front joins no CR LF: the line begins as `s` does, or is empty
          have hc' : ∀ s', b = 13 → l₀ ≠ 10 :: s' := by
            rintro s' rfl rfl
            exact line_head hs fun t ht => hc t rfl ht
          rw [IsLine, findCRLF_cons hc', Option.map_eq_none_iff]
          exact h₀
        · exact lines_isLine (s := s) (by rw [hs]; exact List.mem_cons_of_mem _ h)

/-! ## Lines up to a blank one -/

/-- Cut at the first CR LF CR LF: what stands before it, and what follows it. -/
def cutBlank : Bytes → Option (Bytes × Bytes)
  | [] => none
  | 13 :: 10 :: 13 :: 10 :: s => some ([], s)
  | b :: s => (cutBlank s).map fun x => (b :: x.1, x.2)

/-- No CR and no LF in it. -/
def Clean (l : Bytes) : Prop := 13 ∉ l ∧ 10 ∉ l

instance (l : Bytes) : Decidable (Clean l) := inferInstanceAs (Decidable (_ ∧ _))

theorem isLine_of_clean : ∀ {l : Bytes}, Clean l → IsLine l
  | [], _ => rfl
  | b :: l, h => by
    have hb : b ≠ 13 := fun hb => h.1 (by rw [hb]; exact List.mem_cons_self)
    have hl : Clean l := ⟨fun hm => h.1 (List.mem_cons_of_mem _ hm), fun hm => h.2 (List.mem_cons_of_mem _ hm)⟩
    have ih := isLine_of_clean hl
    rw [IsLine, findCRLF_cons fun s' hb' => absurd hb' hb, show findCRLF l = none from ih]
    rfl

/-- A byte in front that starts no CR LF CR LF. -/
theorem cutBlank_cons {b : UInt8} {s : Bytes} (h : ∀ t, b = 13 → s ≠ 10 :: 13 :: 10 :: t) :
    cutBlank (b :: s) = (cutBlank s).map fun x => (b :: x.1, x.2) := by
  rw [cutBlank]
  intro t hb hs
  exact h t hb hs

theorem cutBlank_line {l : Bytes} (hl : Clean l) (s : Bytes) :
    cutBlank (l ++ s) = (cutBlank s).map fun x => (l ++ x.1, x.2) := by
  induction l with
  | nil => simp
  | cons b l ih =>
    have hb : b ≠ 13 := fun hb => hl.1 (by rw [hb]; exact List.mem_cons_self)
    have hl' : Clean l := ⟨fun hm => hl.1 (List.mem_cons_of_mem _ hm), fun hm => hl.2 (List.mem_cons_of_mem _ hm)⟩
    rw [List.cons_append, cutBlank_cons fun t hb' => absurd hb' hb, ih hl', Option.map_map]
    rfl

/-- A CR LF that no other follows. -/
theorem cutBlank_CRLF {s : Bytes} (h : ∀ t, s ≠ 13 :: t) :
    cutBlank (CRLF ++ s) = (cutBlank s).map fun x => (CRLF ++ x.1, x.2) := by
  have h1 : ∀ t, (13 : UInt8) = 13 → 10 :: s ≠ 10 :: 13 :: 10 :: t := by
    intro t _ he
    exact h _ (List.cons.inj he).2
  have h2 : ∀ t, (10 : UInt8) = 13 → s ≠ 10 :: 13 :: 10 :: t := fun t hb => absurd hb (by decide)
  rw [CRLF, List.cons_append, List.cons_append, List.nil_append, cutBlank_cons h1, cutBlank_cons h2,
    Option.map_map]
  rfl

/-- **Lines, a blank line and a body are cut at the blank line**, whatever the body. -/
theorem cutBlank_encode {ls : List Bytes} (hls : ∀ l ∈ ls, Clean l ∧ l ≠ []) (hne : ls ≠ []) (body : Bytes) :
    ∃ head, cutBlank (encodeLines ls ++ CRLF ++ body) = some (head, body) ∧ head ++ CRLF = encodeLines ls := by
  induction ls with
  | nil => exact absurd rfl hne
  | cons l ls ih =>
    obtain ⟨hl, -⟩ := hls l List.mem_cons_self
    have hcons : encodeLines (l :: ls) = l ++ (CRLF ++ encodeLines ls) := by
      simp [encodeLines]
    cases ls with
    | nil =>
      refine ⟨l, ?_, by simp [encodeLines]⟩
      have hcut : cutBlank (CRLF ++ (CRLF ++ body)) = some ([], body) := rfl
      have happ : encodeLines [l] ++ CRLF ++ body = l ++ (CRLF ++ (CRLF ++ body)) := by
        simp [encodeLines]
      rw [happ, cutBlank_line hl, hcut]
      simp
    | cons l' ls =>
      obtain ⟨head, hcut, hhead⟩ := ih (fun x hx => hls x (List.mem_cons_of_mem _ hx)) (by simp)
      -- the next line is not blank
      have hnext : ∀ t, encodeLines (l' :: ls) ++ CRLF ++ body ≠ 13 :: t := by
        intro t he
        obtain ⟨hl', hne'⟩ := hls l' (List.mem_cons_of_mem _ List.mem_cons_self)
        obtain ⟨b, l'', rfl⟩ := List.exists_cons_of_ne_nil hne'
        have hb : b = 13 := by
          simp only [encodeLines, List.flatMap_cons, List.cons_append] at he
          exact (List.cons.inj he).1
        exact hl'.1 (by rw [hb]; exact List.mem_cons_self)
      refine ⟨l ++ (CRLF ++ head), ?_, ?_⟩
      · have happ : encodeLines (l :: l' :: ls) ++ CRLF ++ body =
            l ++ (CRLF ++ (encodeLines (l' :: ls) ++ CRLF ++ body)) := by
          rw [hcons]; simp
        rw [happ, cutBlank_line hl, cutBlank_CRLF hnext, hcut]
        rfl
      · rw [hcons, ← hhead]; simp

end MyMuduo.Lib
