import MyMuduo.Lib.Run
import MyMuduo.Spec.LogStream

/-!
# The log stream

* `formatInteger_eq`: with `kMaxNumericSize` bytes free, `formatInteger` stores the decimal
  text and a NUL behind the text in the buffer, and nothing else.
* `integer_canonical`: **the text is the canonical decimal one, for every value of every type,
  and the loop comes to its end.**
* `Ok.insert`: the insertion of a string of at most 2 GiB, or of anything else, stays inside of
  the buffer and follows `insertText`.
* `stream_bounded_iff`: **a run of insertions keeps to the buffer exactly if no string inserted
  looks shorter than the free bytes, through the cast of its length, without being so.**
-/

namespace MyMuduo

open Lib

theorem castInt_of_lt {n : ℕ} (h : n < 2 ^ 31) : castInt n = n := by
  unfold castInt
  rw [BitVec.toInt_eq_toNat_of_lt]
  · simp only [BitVec.toNat_ofNat]
    omega
  · simp only [BitVec.toNat_ofNat]
    omega

/-! ## Stores -/

namespace RawBuffer

variable {SIZE : ℕ} {b b' : RawBuffer SIZE} {i : ℕ} {xs ys zs : Bytes}

@[simp] theorem store_m_cur : (b.store i xs).m_cur = b.m_cur := rfl

@[simp] theorem store_m_data : (b.store i xs).m_data = Memory.write b.m_data i xs := rfl

@[simp] theorem add_m_cur (n : ℕ) : (b.add n).m_cur = b.m_cur + n := rfl

@[simp] theorem add_m_data (n : ℕ) : (b.add n).m_data = b.m_data := rfl

@[simp] theorem add_top (n : ℕ) : (b.add n).top = b.top := rfl

theorem store_top (h : xs ≠ []) : (b.store i xs).top = max b.top (i + xs.length) := if_neg h

theorem store_top_le : (b.store i xs).top ≤ max b.top (i + xs.length) := by
  by_cases h : xs = []
  · rw [store, if_pos h]; exact le_max_left _ _
  · rw [store_top h]

/-- Two stores, one behind the other. -/
theorem store_append (hx : xs ≠ []) (hy : ys ≠ []) :
    (b.store i xs).store (i + xs.length) ys = b.store i (xs ++ ys) := by
  have htop : max (max b.top (i + xs.length)) (i + xs.length + ys.length) =
      max b.top (i + (xs ++ ys).length) := by
    rw [List.length_append]; omega
  refine RawBuffer.ext Memory.write_append rfl ?_
  rw [store_top hy, store_top hx, htop, store_top (by simp [hx])]

/-- The reversal of the first part of what was just stored. -/
theorem reverse_store (hx : xs ≠ []) :
    (b.store i (xs ++ ys)).reverse i (i + xs.length) = b.store i (xs.reverse ++ ys) := by
  have hslice : Memory.slice (Memory.write b.m_data i (xs ++ ys)) i xs.length = xs := by
    rw [← Memory.write_append, Memory.slice_write_before (by omega), Memory.slice_write]
  have htop : max (max b.top (i + (xs ++ ys).length)) (i + xs.reverse.length) =
      max b.top (i + (xs.reverse ++ ys).length) := by
    simp only [List.length_append, List.length_reverse]; omega
  rw [reverse, store_m_data, Nat.add_sub_cancel_left, hslice]
  refine RawBuffer.ext (Memory.write_over (by simp)) rfl ?_
  rw [store_top (by simpa using hx), store_top (by simp [hx]), htop, store_top (by simp [hx])]

/-- The text behind a store at its end. -/
theorem text_add_store : ((b.store b.m_cur (xs ++ ys)).add xs.length).text = b.text ++ xs := by
  rw [text, add_m_cur, add_m_data, store_m_cur, store_m_data, Memory.slice_add, Nat.zero_add,
    Memory.slice_write_before (by omega), ← Memory.write_append, Memory.slice_write_before (by omega),
    Memory.slice_write]
  rfl

theorem text_add_store_self : ((b.store b.m_cur xs).add xs.length).text = b.text ++ xs := by
  have h : ((b.store b.m_cur (xs ++ [])).add xs.length).text = b.text ++ xs := text_add_store
  rwa [List.append_nil] at h

end RawBuffer

/-! ## The digits of a number -/

namespace IntType

variable (T : IntType)

theorem width_ge : 32 ≤ T.width := by
  cases T <;> decide

theorem width_le : T.width ≤ 64 := by
  cases T <;> decide

/-- Ten, in every type. -/
theorem ten_toNat : (BitVec.ofNat T.width 10).toNat = 10 := by
  cases T <;> rfl

theorem ten_toInt : (BitVec.ofNat T.width 10).toInt = 10 := by
  cases T <;> rfl

variable {T} (num : BitVec T.width)

theorem isNegative_iff : T.isNegative num = true ↔ T.value num < 0 := by
  rw [isNegative, value]
  by_cases h : T.isSigned
  · rw [h, Bool.true_and, if_pos rfl, BitVec.slt_iff_toInt_lt, BitVec.toInt_zero]
  · simp [h]

theorem remainder_eq : T.remainder num = (T.value num).tmod 10 := by
  rw [remainder, value]
  by_cases h : T.isSigned
  · rw [if_pos h, if_pos h, BitVec.toInt_srem, ten_toInt]
  · rw [if_neg h, if_neg h, BitVec.toNat_umod, ten_toNat]
    exact Int.ofNat_tmod num.toNat 10

/-- The division by ten does not overflow: only a division by `-1` can. -/
theorem value_quotient : T.value (T.quotient num) = (T.value num).tdiv 10 := by
  rw [quotient, value, value]
  by_cases h : T.isSigned
  · have hne : BitVec.ofNat T.width 10 ≠ -1#T.width := by
      cases T <;> decide
    rw [if_pos h, if_pos h, if_pos h, BitVec.toInt_sdiv_of_ne_or_ne _ _ (.inr hne), ten_toInt]
  · rw [if_neg h, if_neg h, if_neg h, BitVec.toNat_udiv, ten_toNat]
    exact Int.ofNat_tdiv num.toNat 10

theorem value_eq_zero_iff : T.value num = 0 ↔ num = 0#T.width := by
  rw [value]
  by_cases h : T.isSigned
  · rw [if_pos h, ← BitVec.toInt_inj, BitVec.toInt_zero]
  · rw [if_neg h, ← BitVec.toNat_inj]
    simp

theorem natAbs_value_lt : (T.value num).natAbs < 2 ^ T.width := by
  have hlt := num.isLt
  rw [value]
  by_cases h : T.isSigned
  · rw [if_pos h]
    have h1 := num.toInt_lt
    have h2 := num.le_toInt
    have h3 : (2 : ℤ) ^ (T.width - 1) < 2 ^ T.width :=
      pow_lt_pow_right₀ (by omega) (by have := T.width_ge; omega)
    have h4 : ((2 ^ T.width : ℕ) : ℤ) = 2 ^ T.width := by push_cast; rfl
    omega
  · rw [if_neg h, Int.natAbs_natCast]
    exact hlt

end IntType

/-- The table is a mirror: a remainder and its negative have the same digit. -/
theorem zero_eq {r : ℤ} (h : r.natAbs < 10) : zero r = charDigit r.natAbs := by
  have hall : ∀ k : ℕ, k < 10 → zero k = charDigit k ∧ zero (-k) = charDigit k := by
    decide
  rcases Int.natAbs_eq r with hr | hr
  · rw [hr, Int.natAbs_natCast]
    exact (hall r.natAbs h).1
  · rw [hr, Int.natAbs_neg, Int.natAbs_natCast]
    exact (hall r.natAbs h).2

theorem zero_remainder {T : IntType} (num : BitVec T.width) :
    zero (T.remainder num) = charDigit ((T.value num).natAbs % 10) := by
  have hmod : (T.remainder num).natAbs = (T.value num).natAbs % 10 := by
    rw [IntType.remainder_eq, Int.natAbs_tmod]
    rfl
  rw [← hmod]
  exact zero_eq (by omega)

/-- A number below `10 ^ n` has at most `n` digits. -/
theorem numeral_length_le {k n : ℕ} (hn : 0 < n) (h : k < 10 ^ n) : (numeral charDigit 10 k).length ≤ n := by
  have := Nat.log_lt_of_lt_pow' (b := 10) (by omega) h
  rw [numeral_length]
  omega

namespace RawBuffer

variable {SIZE : ℕ} {b : RawBuffer SIZE} {T : IntType} {num : BitVec T.width}

/-- **The loop writes the digits from the last to the first.** -/
theorem digitLoop_eq {fuel : ℕ} (hfuel : 0 < fuel) (h : (T.value num).natAbs < 10 ^ fuel) (now : ℕ) :
    digitLoop T fuel b now num =
      some (b.store now (numeral charDigit 10 (T.value num).natAbs).reverse,
        now + (numeral charDigit 10 (T.value num).natAbs).length) := by
  induction fuel generalizing b now num with
  | zero => omega
  | succ fuel ih =>
    have hq : (T.value (T.quotient num)).natAbs = (T.value num).natAbs / 10 := by
      rw [IntType.value_quotient, Int.natAbs_tdiv]
      rfl
    have hq0 : T.quotient num = 0#T.width ↔ (T.value num).natAbs < 10 := by
      rw [← IntType.value_eq_zero_iff, ← Int.natAbs_eq_zero, hq]
      omega
    rw [digitLoop, zero_remainder]
    by_cases hlt : (T.value num).natAbs < 10
    · rw [if_pos (hq0.2 hlt), numeral_of_lt hlt, Nat.mod_eq_of_lt hlt]
      rfl
    · rw [if_neg fun h0 => hlt (hq0.1 h0)]
      have hpos : 0 < fuel := by
        by_contra h0
        obtain rfl : fuel = 0 := by omega
        omega
      rw [ih hpos (by rw [hq]; exact Nat.div_lt_of_lt_mul (by rwa [← pow_succ'])), hq,
        numeral_of_le (n := (T.value num).natAbs) (by decide) (by omega)]
      have hstore : (b.store now [charDigit ((T.value num).natAbs % 10)]).store (now + 1)
          (numeral charDigit 10 ((T.value num).natAbs / 10)).reverse = b.store now _ :=
        store_append (by simp) (by simpa using numeral_ne_nil _)
      rw [hstore, List.reverse_append, List.length_append, List.length_singleton, Nat.add_assoc,
        Nat.add_comm 1]
      rfl

/-- The characters stored so far are reversed, and a NUL stands behind them. -/
theorem finishInteger_eq {xs : Bytes} (hx : xs ≠ []) (hlen : xs.length < 2 ^ 31) :
    finishInteger b.m_cur (b.store b.m_cur xs, b.m_cur + xs.length) =
      (b.store b.m_cur (xs.reverse ++ [0])).add xs.length := by
  have hint : (castInt (b.m_cur + xs.length - b.m_cur)).toNat = xs.length := by
    rw [castInt_of_lt (by omega)]
    omega
  rw [finishInteger]
  simp only [hint]
  rw [store_append hx (by simp), reverse_store hx]

theorem putSign_eq {xs : Bytes} (hx : xs ≠ []) (negative : Bool) :
    putSign negative (b.store b.m_cur xs, b.m_cur + xs.length) =
      (b.store b.m_cur (xs ++ if negative then [45] else []),
        b.m_cur + (xs ++ if negative then [45] else []).length) := by
  cases negative with
  | false => simp [putSign]
  | true =>
    simp only [putSign, if_true]
    rw [← store_append hx (by simp), List.length_append]
    rfl

/-- The decimal text is short. -/
theorem decimal_length_le (num : BitVec T.width) : (decimal (T.value num)).length ≤ 21 := by
  have hlen : (numeral charDigit 10 (T.value num).natAbs).length ≤ 20 := by
    refine numeral_length_le (by omega) ?_
    have h1 := IntType.natAbs_value_lt num
    have h2 : 2 ^ T.width ≤ 2 ^ 64 := Nat.pow_le_pow_right (by omega) T.width_le
    omega
  have hsign : (if T.value num < 0 then ([45] : Bytes) else []).length ≤ 1 := by
    split <;> simp
  rw [decimal, List.length_append]
  omega

/-- **What `formatInteger` does**: the decimal text and a NUL are stored behind the text in the
buffer, and the text is added. -/
theorem formatInteger_eq {fuel : ℕ} (havail : kMaxNumericSize ≤ b.avail) (hfuel : 0 < fuel)
    (h : (T.value num).natAbs < 10 ^ fuel) :
    b.formatInteger fuel T num =
      some ((b.store b.m_cur (decimal (T.value num) ++ [0])).add (decimal (T.value num)).length) := by
  have hne : (numeral charDigit 10 (T.value num).natAbs).reverse ≠ [] := by simpa using numeral_ne_nil _
  have hrev : ((numeral charDigit 10 (T.value num).natAbs).reverse ++
      if T.isNegative num then [45] else []).reverse = decimal (T.value num) := by
    rw [List.reverse_append, List.reverse_reverse, decimal]
    by_cases hneg : T.value num < 0
    · rw [if_pos ((IntType.isNegative_iff num).2 hneg), if_pos hneg]
      rfl
    · rw [if_neg fun h0 => hneg ((IntType.isNegative_iff num).1 h0), if_neg hneg]
      rfl
  have hlen := decimal_length_le num
  rw [← hrev, List.length_reverse] at hlen
  rw [formatInteger, if_pos havail, digitLoop_eq hfuel h, Option.map_some, ← List.length_reverse,
    putSign_eq hne, finishInteger_eq (by simp [hne]) (by omega), ← List.length_reverse, hrev]

/-- **Integer formatting is canonical**: with `kMaxNumericSize` bytes free, for every value of
every type, the loop comes to its end, the canonical decimal text is added, and it and the NUL
behind it take `kMaxNumericSize` bytes at most; no other byte changes. -/
theorem integer_canonical (b : RawBuffer SIZE) (T : IntType) (num : BitVec T.width)
    (havail : kMaxNumericSize ≤ b.avail) :
    IsDecimal (decimal (T.value num)) (T.value num) ∧
      ∃ b' : RawBuffer SIZE, (∀ fuel, 20 ≤ fuel → b.formatInteger fuel T num = some b') ∧
        b'.text = b.text ++ decimal (T.value num) ∧
        b'.m_data b'.m_cur = 0 ∧
        ((b'.m_cur + 1 - b.m_cur : ℕ) : ℤ) ≤ kMaxNumericSize ∧
        ∀ i, i < b.m_cur ∨ b'.m_cur < i → b'.m_data i = b.m_data i := by
  have hlen := decimal_length_le num
  refine ⟨decimal_isDecimal _, _, fun fuel hfuel => formatInteger_eq havail (by omega) ?_,
    text_add_store, ?_, ?_, ?_⟩
  · have h1 := IntType.natAbs_value_lt num
    have h2 : 2 ^ T.width ≤ 2 ^ 64 := Nat.pow_le_pow_right (by omega) T.width_le
    have h3 : 10 ^ 20 ≤ 10 ^ fuel := Nat.pow_le_pow_right (by omega) hfuel
    omega
  · -- the NUL is the last byte of the store
    rw [add_m_cur, add_m_data, store_m_cur, store_m_data, Memory.write_of_inside (by simp)]
    simp
  · simp only [add_m_cur, store_m_cur, kMaxNumericSize]
    omega
  · intro i hi
    rw [add_m_data, store_m_data, Memory.write_of_outside]
    simp only [add_m_cur, store_m_cur] at hi
    simp only [List.length_append, List.length_singleton]
    omega

/-- The most negative `long` in an empty buffer. -/
theorem integer_canonical_min :
    ∃ b' : LogStream, (∀ fuel, 20 ≤ fuel →
        (new fun _ => 0 : LogStream).formatInteger fuel .long (BitVec.intMin 64) = some b') ∧
      b'.text = ascii "-9223372036854775808" := by
  obtain ⟨-, b', hb', htext, -⟩ :=
    integer_canonical (new fun _ => 0 : LogStream) .long (BitVec.intMin 64) (by decide)
  refine ⟨b', hb', ?_⟩
  rw [htext]
  decide

/-! ## The bounds of the buffer -/

/-- The text ends before the block does, and nothing was written behind the block. -/
structure Ok (b : RawBuffer SIZE) : Prop where
  cur : b.m_cur < SIZE
  top : b.top ≤ SIZE

theorem text_length : b.text.length = b.m_cur := Memory.slice_length

theorem Ok.avail (h : b.Ok) (hS : SIZE < 2 ^ 31) : b.avail = SIZE - b.m_cur := by
  have := h.cur
  rw [RawBuffer.avail, BitVec.toInt_ofInt, Int.bmod_eq_of_le] <;> omega

theorem Ok.len (h : b.Ok) (hS : SIZE < 2 ^ 31) : b.len = b.m_cur :=
  castInt_of_lt (h.cur.trans hS)

/-- A store of a text, with room behind it for what is stored. -/
theorem Ok.add_store (h : b.Ok) {xs ys : Bytes} (hroom : b.m_cur + (xs ++ ys).length ≤ SIZE)
    (hcur : b.m_cur + xs.length < SIZE) : ((b.store b.m_cur (xs ++ ys)).add xs.length).Ok where
  cur := hcur
  top := by
    have h1 := h.top
    have h2 : (b.store b.m_cur (xs ++ ys)).top ≤ _ := store_top_le
    rw [add_top]
    omega

/-- The cast of the length does not make `buf` look shorter than the free bytes. -/
def Fits (b : RawBuffer SIZE) (buf : Bytes) : Prop :=
  castInt buf.length < b.avail → (buf.length : ℤ) < b.avail

theorem Ok.append (h : b.Ok) (hS : SIZE < 2 ^ 31) {buf : Bytes} (hfit : b.Fits buf) :
    (b.append buf).Ok ∧
      (b.append buf).text = if b.m_cur + (buf.length + 1) ≤ SIZE then b.text ++ buf else b.text := by
  have havail := h.avail hS
  by_cases hlt : b.m_cur + (buf.length + 1) ≤ SIZE
  · have htest : castInt buf.length < b.avail := by
      rw [castInt_of_lt (by omega)]
      omega
    have hok : ((b.store b.m_cur (buf ++ [])).add buf.length).Ok :=
      h.add_store (by simp; omega) (by omega)
    rw [List.append_nil] at hok
    rw [RawBuffer.append, if_pos htest, if_pos hlt]
    exact ⟨hok, text_add_store_self⟩
  · have htest : ¬ castInt buf.length < b.avail := by
      intro hc
      have := hfit hc
      omega
    rw [RawBuffer.append, if_neg htest, if_neg hlt]
    exact ⟨h, rfl⟩

/-- A length that its cast makes look shorter is one of 2 GiB at least, and then the copy runs
over the end of the block. -/
theorem Ok.append_over (h : b.Ok) (hS : SIZE < 2 ^ 31) {buf : Bytes} (hfit : ¬ b.Fits buf) :
    SIZE < (b.append buf).top := by
  have hcur := h.cur
  have havail := h.avail hS
  rw [Fits, Classical.not_imp] at hfit
  obtain ⟨hcast, hlen⟩ := hfit
  have hbig : 2 ^ 31 ≤ buf.length := by
    by_contra hsmall
    rw [castInt_of_lt (by omega)] at hcast
    exact hlen hcast
  have hne : buf ≠ [] := List.ne_nil_of_length_pos (by omega)
  rw [RawBuffer.append, if_pos hcast, add_top, store_top hne]
  omega

/-- The text of the buffer in memory is that of the `FixedBuffer`. -/
theorem Ok.append_refines (h : b.Ok) (hS : SIZE < 2 ^ 31) (buf : Bytes) :
    (⟨(b.append buf).text⟩ : FixedBuffer SIZE) = (⟨b.text⟩ : FixedBuffer SIZE).append buf := by
  have havail : (⟨b.text⟩ : FixedBuffer SIZE).avail = b.avail := by
    rw [FixedBuffer.avail, text_length, h.avail hS]
  rw [FixedBuffer.append, havail, RawBuffer.append]
  by_cases hlt : castInt buf.length < b.avail
  · rw [if_pos hlt, if_pos hlt, text_add_store_self]
  · rw [if_neg hlt, if_neg hlt]

theorem Ok.formatInteger (h : b.Ok) (hS : SIZE < 2 ^ 31) (T : IntType) (num : BitVec T.width) :
    ∃ b', b.formatInteger T.width T num = some b' ∧ b'.Ok ∧
      b'.text = if b.m_cur + 48 ≤ SIZE then b.text ++ decimal (T.value num) else b.text := by
  have havail := h.avail hS
  have hlen := decimal_length_le num
  by_cases hlt : b.m_cur + 48 ≤ SIZE
  · have htest : kMaxNumericSize ≤ b.avail := by
      rw [kMaxNumericSize]
      omega
    have hpow : (T.value num).natAbs < 10 ^ T.width :=
      (IntType.natAbs_value_lt num).trans_le (Nat.pow_le_pow_left (by omega) _)
    have hwidth := T.width_ge
    refine ⟨_, formatInteger_eq htest (by omega) hpow, ?_, ?_⟩
    · refine h.add_store ?_ (by omega)
      rw [List.length_append, List.length_singleton]
      omega
    · rw [text_add_store, if_pos hlt]
  · have htest : ¬ kMaxNumericSize ≤ b.avail := by
      rw [kMaxNumericSize]
      omega
    refine ⟨b, ?_, h, ?_⟩
    · rw [RawBuffer.formatInteger, if_neg htest]
    · rw [if_neg hlt]

theorem Ok.formatPointer (h : b.Ok) (hS : SIZE < 2 ^ 31) (p : PointerText) :
    (b.formatPointer p).Ok ∧
      (b.formatPointer p).text = if b.m_cur + 48 ≤ SIZE then b.text ++ (ascii "0x" ++ p.1) else b.text := by
  have havail := h.avail hS
  have hlen := p.2
  by_cases hlt : b.m_cur + 48 ≤ SIZE
  · have htest : kMaxNumericSize ≤ b.avail := by
      rw [kMaxNumericSize]
      omega
    have hstore : b.formatPointer p =
        (b.store b.m_cur ((ascii "0x" ++ p.1) ++ [0])).add (ascii "0x" ++ p.1).length := by
      have happ : (b.store b.m_cur (ascii "0x")).store (b.m_cur + 2) (p.1 ++ [0]) =
          b.store b.m_cur (ascii "0x" ++ (p.1 ++ [0])) := store_append (by decide) (by simp)
      rw [RawBuffer.formatPointer, if_pos htest, happ, List.append_assoc, List.length_append,
        show (ascii "0x").length = 2 from rfl, Nat.add_comm 2]
    have hx : (ascii "0x" ++ p.1).length = p.1.length + 2 := by
      rw [List.length_append, Nat.add_comm]
      rfl
    rw [hstore, text_add_store, if_pos hlt]
    refine ⟨h.add_store ?_ (by omega), rfl⟩
    rw [List.length_append, List.length_singleton]
    omega
  · have htest : ¬ kMaxNumericSize ≤ b.avail := by
      rw [kMaxNumericSize]
      omega
    rw [RawBuffer.formatPointer, if_neg htest, if_neg hlt]
    exact ⟨h, rfl⟩

/-! ## Insertions -/

theorem need_le (i : Insertion) : i.need ≤ i.text.length + 48 := by
  cases i <;> simp only [Insertion.need] <;> omega

theorem insertText_length_le (text : Bytes) (i : Insertion) :
    (insertText SIZE text i).length ≤ text.length + i.text.length := by
  rw [insertText]
  split
  · rw [List.length_append]
  · omega

/-- Nothing is added that was not inserted. -/
theorem insertTexts_length_le (items : List Insertion) (text : Bytes) :
    (items.foldl (insertText SIZE) text).length ≤
      text.length + (items.flatMap Insertion.text).length := by
  induction items generalizing text with
  | nil => exact Nat.le_add_right _ _
  | cons i items ih =>
    have h1 := ih (insertText SIZE text i)
    have h2 : (insertText SIZE text i).length ≤ _ := insertText_length_le text i
    rw [List.foldl_cons, List.flatMap_cons, List.length_append]
    omega

theorem mem_insertTexts {items : List Insertion} {text : Bytes} {x : UInt8}
    (h : x ∈ items.foldl (insertText SIZE) text) :
    x ∈ text ∨ x ∈ items.flatMap Insertion.text := by
  induction items generalizing text with
  | nil => exact .inl h
  | cons i items ih =>
    rw [List.flatMap_cons, List.mem_append]
    rcases ih h with hx | hx
    · rw [insertText] at hx
      split at hx
      · rcases List.mem_append.1 hx with hx | hx
        · exact .inl hx
        · exact .inr (.inl hx)
      · exact .inl hx
    · exact .inr (.inr hx)

/-- With room for all texts, and for one number more, all of them are added. -/
theorem insertTexts_eq {items : List Insertion} {text : Bytes}
    (h : text.length + (items.flatMap Insertion.text).length + 48 ≤ SIZE) :
    items.foldl (insertText SIZE) text = text ++ items.flatMap Insertion.text := by
  induction items generalizing text with
  | nil => exact (List.append_nil text).symm
  | cons i items ih =>
    have hneed := need_le i
    rw [List.flatMap_cons, List.length_append] at h
    rw [List.foldl_cons, insertText, if_pos (by omega), ih (by rw [List.length_append]; omega),
      List.flatMap_cons, List.append_assoc]

/-- An insertion gives `append` nothing that looks shorter than it is. -/
def Takes (b : RawBuffer SIZE) : Insertion → Prop
  | .cstr (some str) => b.Fits (str.takeWhile (· ≠ 0))
  | .string str => b.Fits str
  | _ => True

theorem take_strlen (str : Bytes) : str.take (strlen str) = str.takeWhile (· ≠ 0) :=
  (List.prefix_iff_eq_take.1 (List.takeWhile_prefix _)).symm

/-- A short text is what it looks like. -/
theorem fits_of_short {buf : Bytes} (h : buf.length < 2 ^ 31) : b.Fits buf := by
  intro hc
  rwa [castInt_of_lt h] at hc

/-- **One insertion**: it stays inside of the buffer and adds its whole text or nothing. -/
theorem Ok.insert (h : b.Ok) (hS : SIZE < 2 ^ 31) {i : Insertion} (hi : b.Takes i) :
    ∃ b', b.insert i = some b' ∧ b'.Ok ∧ b'.text = insertText SIZE b.text i := by
  have happend : ∀ buf : Bytes, b.Fits buf → (b.append buf).Ok ∧ (b.append buf).text =
      if b.text.length + (buf.length + 1) ≤ SIZE then b.text ++ buf else b.text := by
    intro buf hbuf
    rw [text_length]
    exact h.append hS hbuf
  have hnumber : ∀ (T : IntType) (num : BitVec T.width), ∃ b', b.formatInteger T.width T num = some b' ∧
      b'.Ok ∧ b'.text = if b.text.length + 48 ≤ SIZE then b.text ++ decimal (T.value num) else b.text := by
    intro T num
    rw [text_length]
    exact h.formatInteger hS T num
  cases i with
  | bool v => exact ⟨_, rfl, happend _ (fits_of_short (by cases v <;> decide))⟩
  | short num =>
    have := hnumber .int (num.signExtend 32)
    rwa [show IntType.value .int (num.signExtend 32) = num.toInt from
      BitVec.toInt_signExtend_of_le (by decide)] at this
  | unsignedShort num =>
    have := hnumber .unsignedInt (num.zeroExtend 32)
    rwa [show IntType.value .unsignedInt (num.zeroExtend 32) = num.toNat from
      congrArg Nat.cast (BitVec.toNat_setWidth_of_le (by decide))] at this
  | integer T num => exact hnumber T num
  | char c =>
    have := hnumber .int (c.signExtend 32)
    rwa [show IntType.value .int (c.signExtend 32) = c.toInt from
      BitVec.toInt_signExtend_of_le (by decide)] at this
  | unsignedChar c =>
    have hpos : IntType.value .int (c.zeroExtend 32) = c.toNat := by
      have hlt := c.isLt
      have hnat : (c.zeroExtend 32).toNat = c.toNat := BitVec.toNat_setWidth_of_le (by decide)
      change (c.zeroExtend 32).toInt = c.toNat
      rw [BitVec.toInt_eq_toNat_of_lt (by rw [hnat]; omega), hnat]
    have := hnumber .int (c.zeroExtend 32)
    rwa [hpos] at this
  | cstr str =>
    cases str with
    | none => exact ⟨_, rfl, happend _ (fits_of_short (by decide))⟩
    | some str =>
      refine ⟨_, rfl, ?_⟩
      rw [take_strlen]
      exact happend _ hi
  | string str => exact ⟨_, rfl, happend _ hi⟩
  | pointer p =>
    refine ⟨_, rfl, ?_⟩
    rw [insertText, text_length]
    exact h.formatPointer hS p

/-- What is shorter than 2 GiB is what it looks like. -/
theorem takes_of_short {i : Insertion} (h : i.text.length < 2 ^ 31) : b.Takes i := by
  cases i with
  | cstr str =>
    cases str with
    | none => trivial
    | some str => exact fits_of_short h
  | string str => exact fits_of_short h
  | bool _ | short _ | unsignedShort _ | integer _ _ | char _ | unsignedChar _ | pointer _ => trivial

/-- **A run of insertions** of texts shorter than 2 GiB follows `insertText`. -/
theorem run_of_short (hS : SIZE < 2 ^ 31) {items : List Insertion}
    (hitems : ∀ i ∈ items, i.text.length < 2 ^ 31) {b : RawBuffer SIZE} (h : b.Ok) :
    ∃ b', Lib.run insert b items = some b' ∧ b'.Ok ∧ b'.text = items.foldl (insertText SIZE) b.text := by
  induction items generalizing b with
  | nil => exact ⟨b, rfl, h, rfl⟩
  | cons i items ih =>
    obtain ⟨b₁, hb₁, hok₁, htext₁⟩ := h.insert hS (takes_of_short (hitems i List.mem_cons_self))
    obtain ⟨b', hb', hok', htext'⟩ :=
      ih (fun j hj => hitems j (List.mem_cons_of_mem i hj)) hok₁
    refine ⟨b', ?_, hok', ?_⟩
    · rw [Lib.run, hb₁]
      exact hb'
    · rw [htext', htext₁]
      rfl

/-- What `LogStream` promises of an insertion: no byte behind the block is written, the length
stays in its bounds, the text in front is kept, and the whole text is added or nothing. -/
def Bounded (b : RawBuffer SIZE) (i : Insertion) : Prop :=
  ∃ b', b.insert i = some b' ∧ b'.top ≤ SIZE ∧ 0 ≤ b'.len ∧ b'.len < SIZE ∧
    (b'.text = b.text ++ i.text ∨ b'.text = b.text)

theorem Ok.bounded (h : b.Ok) (hS : SIZE < 2 ^ 31) {i : Insertion} (hi : b.Takes i) : b.Bounded i := by
  obtain ⟨b', hb', hok, htext⟩ := h.insert hS hi
  have hcur := hok.cur
  refine ⟨b', hb', hok.top, ?_, ?_, ?_⟩
  · rw [hok.len hS]; omega
  · rw [hok.len hS]; omega
  · rw [htext, insertText]
    split
    · exact .inl rfl
    · exact .inr rfl

theorem Ok.not_bounded (h : b.Ok) (hS : SIZE < 2 ^ 31) {i : Insertion} (hi : ¬ b.Takes i) :
    ¬ b.Bounded i := by
  have hover : ∀ buf : Bytes, ¬ b.Fits buf → ¬ (b.append buf).top ≤ SIZE := by
    intro buf hbuf
    have := h.append_over hS hbuf
    omega
  rintro ⟨b', hb', htop, -⟩
  cases i with
  | cstr str =>
    cases str with
    | none => exact hi trivial
    | some str =>
      rw [RawBuffer.insert, take_strlen] at hb'
      cases hb'
      exact hover _ hi htop
  | string str =>
    cases hb'
    exact hover _ hi htop
  | bool _ | short _ | unsignedShort _ | integer _ _ | char _ | unsignedChar _ | pointer _ =>
    exact hi trivial

theorem new_ok (hS : 0 < SIZE) (m_data : ℕ → UInt8) : (new m_data : RawBuffer SIZE).Ok :=
  ⟨hS, Nat.zero_le _⟩

/-- **The bounds of the stream, exactly.** A run of insertions into a new `LogStream` keeps to
the buffer at every insertion exactly if every string inserted that is taken, because the cast of
its length to `int` is below the free bytes, is itself shorter than the free bytes. -/
theorem stream_bounded_iff (m_data : ℕ → UInt8) (items : List Insertion) :
    Along insert Bounded (new m_data : LogStream) items ↔
      Along insert Takes (new m_data : LogStream) items := by
  have hS : kSmallBuffer < 2 ^ 31 := by decide
  refine along_iff_along (I := Ok) ?_ ?_ items (new_ok (by decide) m_data)
  · intro b i h
    constructor
    · intro hb
      by_contra hi
      exact h.not_bounded hS hi hb
    · intro hi
      exact h.bounded hS hi
  · intro b i b' h hi hb'
    obtain ⟨b₁, hb₁, hok, -⟩ := h.insert hS hi
    rw [hb'] at hb₁
    cases hb₁
    exact hok

/-- A string of 2 GiB in an empty buffer of 4 KiB: its length is negative as an `int`. -/
theorem stream_overrun :
    ¬ Along insert Bounded (new (fun _ => 0) : LogStream)
      [.string (List.replicate (2 ^ 31) 97)] := by
  intro h
  refine (new_ok (by decide) _).not_bounded (by decide) ?_ h.1
  intro hfit
  have hlen : (List.replicate (2 ^ 31) (97 : UInt8)).length = 2 ^ 31 := List.length_replicate
  have := hfit (by rw [hlen]; decide)
  rw [hlen] at this
  revert this
  decide

end RawBuffer

end MyMuduo
