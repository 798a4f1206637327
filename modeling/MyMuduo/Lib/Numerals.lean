import Mathlib.Tactic

/-!
# Numerals, and the order of texts

The digits of a number in a base `b`, the most significant one first, written with the
characters `digit 0`, `digit 1`, … of any alphabet: `fixed` with a given number of digits,
`numeral` with as many as the number has. Texts are compared from the left.

* `fixed_lt_iff`: with as many digits each, the texts are ordered as the numbers are.
* `numeral_lt_iff`: without padding, and each with a smaller character behind it, the
  shorter text is compared with the head of the longer one.
* `locate_lt`: in a row of blocks, a later position is in a later block, or further on in
  the same one.
-/

namespace MyMuduo.Lib

variable {α : Type*}

/-! ## Texts from the left -/

/-- Texts that begin with equally long parts. -/
theorem append_lt_append_iff [LT α] : ∀ {a b c d : List α}, a.length = b.length →
    (a ++ c < b ++ d ↔ a < b ∨ a = b ∧ c < d)
  | [], [], c, d, _ => by simp
  | x :: a, y :: b, c, d, h => by
    have ih := append_lt_append_iff (c := c) (d := d) (Nat.succ.inj h)
    rw [List.cons_append, List.cons_append, List.cons_lt_cons_iff, List.cons_lt_cons_iff, ih]
    constructor
    · rintro (hxy | ⟨rfl, hab | ⟨rfl, hcd⟩⟩)
      · exact .inl (.inl hxy)
      · exact .inl (.inr ⟨rfl, hab⟩)
      · exact .inr ⟨rfl, hcd⟩
    · rintro ((hxy | ⟨rfl, hab⟩) | ⟨hl, hcd⟩)
      · exact .inl hxy
      · exact .inr ⟨rfl, .inl hab⟩
      · obtain ⟨rfl, rfl⟩ := List.cons.inj hl
        exact .inr ⟨rfl, .inr ⟨rfl, hcd⟩⟩

/-! ## Digits -/

variable (digit : ℕ → α) (b : ℕ)

/-- The last `k` digits of a number. -/
def fixed : ℕ → ℕ → List α
  | 0, _ => []
  | k + 1, n => fixed k (n / b) ++ [digit (n % b)]

/-- The digits of a number, without leading zeros. -/
def numeral (n : ℕ) : List α := fixed digit b (Nat.log b n + 1) n

variable {digit b}

@[simp] theorem fixed_length (k n : ℕ) : (fixed digit b k n).length = k := by
  induction k generalizing n with
  | zero => rfl
  | succ k ih => rw [fixed, List.length_append, ih]; rfl

@[simp] theorem numeral_length (n : ℕ) : (numeral digit b n).length = Nat.log b n + 1 :=
  fixed_length _ n

theorem numeral_ne_nil (n : ℕ) : numeral digit b n ≠ [] :=
  List.ne_nil_of_length_pos (by simp)

theorem numeral_of_lt {n : ℕ} (h : n < b) : numeral digit b n = [digit n] := by
  rw [numeral, Nat.log_of_lt h]
  simp [fixed, Nat.mod_eq_of_lt h]

theorem numeral_of_le {n : ℕ} (hb : 1 < b) (h : b ≤ n) :
    numeral digit b n = numeral digit b (n / b) ++ [digit (n % b)] := by
  rw [numeral, Nat.log_of_one_lt_of_le hb h]
  rfl

/-- The first digits are those of the quotient. -/
theorem fixed_add (j k n : ℕ) :
    fixed digit b (j + k) n = fixed digit b j (n / b ^ k) ++ fixed digit b k n := by
  induction k generalizing n with
  | zero => simp [fixed]
  | succ k ih =>
    have hdiv : n / b / b ^ k = n / b ^ (k + 1) := by rw [Nat.div_div_eq_div_mul, pow_succ']
    rw [← Nat.add_assoc, fixed, ih, hdiv, fixed, List.append_assoc]

/-- A number with fewer digits is filled with zeros. -/
theorem fixed_eq_numeral {k n : ℕ} (h : Nat.log b n < k) (hb : 1 < b) :
    fixed digit b k n = List.replicate (k - (Nat.log b n + 1)) (digit 0) ++ numeral digit b n := by
  have hzero : ∀ j, fixed digit b j 0 = List.replicate j (digit 0) := by
    intro j
    induction j with
    | zero => rfl
    | succ j ih => rw [fixed, Nat.zero_div, Nat.zero_mod, ih, List.replicate_succ']
  obtain ⟨j, rfl⟩ := Nat.exists_eq_add_of_lt h
  rw [show Nat.log b n + j + 1 = j + (Nat.log b n + 1) by omega, fixed_add,
    Nat.div_eq_of_lt (Nat.lt_pow_succ_log_self hb n), hzero, Nat.add_sub_cancel]
  rfl

/-- All the digits are among the characters `digit d`. -/
theorem mem_fixed (hb : 0 < b) {k n : ℕ} {x : α} (h : x ∈ fixed digit b k n) :
    ∃ d < b, x = digit d := by
  induction k generalizing n with
  | zero => simp [fixed] at h
  | succ k ih =>
    rcases List.mem_append.1 h with h | h
    · exact ih h
    · exact ⟨n % b, Nat.mod_lt n hb, List.mem_singleton.1 h⟩

theorem mem_numeral (hb : 0 < b) {n : ℕ} {x : α} (h : x ∈ numeral digit b n) :
    ∃ d < b, x = digit d :=
  mem_fixed hb h

theorem fixed_map {β : Type*} (f : α → β) (k n : ℕ) :
    (fixed digit b k n).map f = fixed (fun d => f (digit d)) b k n := by
  induction k generalizing n with
  | zero => rfl
  | succ k ih => rw [fixed, List.map_append, ih]; rfl

/-- The text of a number from its digits as numbers. -/
theorem numeral_map (n : ℕ) : (numeral id b n).map digit = numeral digit b n :=
  fixed_map digit _ n

/-- The digits denote the number. -/
theorem ofDigits_numeral (hb : 1 < b) (n : ℕ) : Nat.ofDigits b (numeral id b n).reverse = n := by
  induction n using Nat.strong_induction_on with
  | _ n ih =>
    rcases Nat.lt_or_ge n b with hlt | hge
    · rw [numeral_of_lt hlt, List.reverse_singleton, Nat.ofDigits_singleton]
      rfl
    · rw [numeral_of_le hb hge, List.reverse_append, List.reverse_singleton, List.singleton_append,
        Nat.ofDigits_cons, ih (n / b) (Nat.div_lt_self (by omega) hb)]
      exact Nat.mod_add_div n b

/-- Only zero is written with a leading zero. -/
theorem numeral_head {n : ℕ} (hb : 1 < b) (h : 0 < n) :
    ∃ d, 0 < d ∧ d < b ∧ (numeral digit b n).head? = some (digit d) := by
  induction n using Nat.strong_induction_on with
  | _ n ih =>
    rcases Nat.lt_or_ge n b with hlt | hge
    · exact ⟨n, h, hlt, by rw [numeral_of_lt hlt]; rfl⟩
    · obtain ⟨d, h0, hd, hhead⟩ := ih (n / b) (Nat.div_lt_self h hb) (Nat.div_pos hge (by omega))
      refine ⟨d, h0, hd, ?_⟩
      rw [numeral_of_le hb hge, List.head?_append, hhead]
      rfl

/-! ## Digits in the order of an alphabet -/

section Order

variable [LT α]

variable (digit b) in
/-- The characters of the digits are in the order of the digits. -/
structure Alphabet : Prop where
  base : 1 < b
  lt_iff : ∀ d < b, ∀ e < b, digit d < digit e ↔ d < e

theorem Alphabet.inj (A : Alphabet digit b) {d e : ℕ} (hd : d < b) (he : e < b)
    (h : digit d = digit e) : d = e := by
  rcases Nat.lt_trichotomy d e with hlt | heq | hlt
  · have := (A.lt_iff d hd e he).2 hlt
    rw [h, A.lt_iff e he e he] at this
    omega
  · exact heq
  · have := (A.lt_iff e he d hd).2 hlt
    rw [h, A.lt_iff e he e he] at this
    omega

theorem fixed_inj (A : Alphabet digit b) {k m n : ℕ} (hm : m < b ^ k) (hn : n < b ^ k)
    (h : fixed digit b k m = fixed digit b k n) : m = n := by
  have hb : 0 < b := by have := A.base; omega
  induction k generalizing m n with
  | zero => simp at hm hn; omega
  | succ k ih =>
    obtain ⟨hdiv, hmod⟩ := List.append_inj h (by simp)
    have hq := ih (Nat.div_lt_of_lt_mul (by rwa [← pow_succ']))
      (Nat.div_lt_of_lt_mul (by rwa [← pow_succ'])) hdiv
    have hr := A.inj (Nat.mod_lt m hb) (Nat.mod_lt n hb) (List.singleton_inj.1 hmod)
    rw [← Nat.div_add_mod m b, ← Nat.div_add_mod n b, hq, hr]

/-- The order of two numbers, digit by digit. -/
theorem lt_iff_div_mod (m n : ℕ) :
    m < n ↔ m / b < n / b ∨ m / b = n / b ∧ m % b < n % b := by
  have hm := Nat.div_add_mod m b
  have hn := Nat.div_add_mod n b
  constructor
  · intro h
    rcases Nat.lt_or_ge (m / b) (n / b) with hlt | hge
    · exact .inl hlt
    · have heq : m / b = n / b := le_antisymm (Nat.div_le_div_right h.le) hge
      refine .inr ⟨heq, ?_⟩
      rw [heq] at hm
      omega
  · rintro (hlt | ⟨heq, hlt⟩)
    · by_contra h
      have := Nat.div_le_div_right (c := b) (Nat.le_of_not_lt h)
      omega
    · rw [heq] at hm
      omega

/-- **Padded texts are in the order of their numbers.** -/
theorem fixed_lt_iff (A : Alphabet digit b) {k m n : ℕ} (hm : m < b ^ k) (hn : n < b ^ k) :
    (fixed digit b k m < fixed digit b k n) ↔ m < n := by
  have hb : 0 < b := by have := A.base; omega
  induction k generalizing m n with
  | zero =>
    simp at hm hn
    simp [fixed, hm, hn]
  | succ k ih =>
    have hm' : m / b < b ^ k := Nat.div_lt_of_lt_mul (by rwa [← pow_succ'])
    have hn' : n / b < b ^ k := Nat.div_lt_of_lt_mul (by rwa [← pow_succ'])
    have heq : fixed digit b k (m / b) = fixed digit b k (n / b) ↔ m / b = n / b :=
      ⟨fixed_inj A hm' hn', fun h => by rw [h]⟩
    have hlt : fixed digit b k (m / b) < fixed digit b k (n / b) ↔ m / b < n / b := ih hm' hn'
    have hlast : [digit (m % b)] < [digit (n % b)] ↔ m % b < n % b := by
      rw [List.cons_lt_cons_iff, A.lt_iff _ (Nat.mod_lt m hb) _ (Nat.mod_lt n hb)]
      simp
    rw [fixed, fixed, append_lt_append_iff (by simp), hlt, heq, hlast,
      ← lt_iff_div_mod]

/-- Fields of a width, and what follows them. -/
theorem fixed_append_lt_iff (A : Alphabet digit b) {k m n : ℕ} (hm : m < b ^ k) (hn : n < b ^ k)
    (u v : List α) : fixed digit b k m ++ u < fixed digit b k n ++ v ↔ m < n ∨ m = n ∧ u < v := by
  rw [append_lt_append_iff (by simp), fixed_lt_iff A hm hn]
  constructor
  · rintro (h | ⟨h, huv⟩)
    · exact .inl h
    · exact .inr ⟨fixed_inj A hm hn h, huv⟩
  · rintro (h | ⟨h, huv⟩)
    · exact .inl h
    · exact .inr ⟨by rw [h], huv⟩

/-- **Texts without padding.** Two numbers in order, each with a character behind it that is
smaller than every digit: the shorter text is compared with the head of the longer one. -/
theorem numeral_lt_iff (A : Alphabet digit b) {sep : α} (hsep : ∀ d < b, sep < digit d)
    {m n : ℕ} (h : m < n) (u v : List α) :
    numeral digit b m ++ sep :: u < numeral digit b n ++ sep :: v ↔
      m ≤ n / b ^ (Nat.log b n - Nat.log b m) := by
  have hb : 0 < b := by have := A.base; omega
  obtain ⟨k, hk⟩ := Nat.exists_eq_add_of_le (Nat.log_mono_right (b := b) h.le)
  have hcut : numeral digit b n =
      fixed digit b (Nat.log b m + 1) (n / b ^ k) ++ fixed digit b k n := by
    rw [numeral, show Nat.log b n + 1 = Nat.log b m + 1 + k by omega, fixed_add]
  have hm : m < b ^ (Nat.log b m + 1) := Nat.lt_pow_succ_log_self A.base m
  have hn : n / b ^ k < b ^ (Nat.log b m + 1) := by
    refine Nat.div_lt_of_lt_mul ?_
    rw [← pow_add, show k + (Nat.log b m + 1) = Nat.log b n + 1 by omega]
    exact Nat.lt_pow_succ_log_self A.base n
  rw [hcut, List.append_assoc, numeral, append_lt_append_iff (by simp), fixed_lt_iff A hm hn,
    show Nat.log b n - Nat.log b m = k by omega]
  -- behind equal heads the separator meets the next digit, if there is one
  cases k with
  | zero =>
    have hne : ¬ m = n / b ^ 0 := by simp; omega
    have hle : m < n / b ^ 0 ↔ m ≤ n / b ^ 0 := by omega
    rw [← hle, or_iff_left]
    rintro ⟨heq, -⟩
    exact hne (fixed_inj A hm hn heq)
  | succ k =>
    obtain ⟨x, rest, hx⟩ : ∃ x rest, fixed digit b (k + 1) n = x :: rest :=
      List.exists_cons_of_ne_nil (List.ne_nil_of_length_pos (by simp))
    obtain ⟨d, hd, rfl⟩ : ∃ d < b, x = digit d := mem_fixed hb (by rw [hx]; exact List.mem_cons_self)
    have hnext : sep :: u < fixed digit b (k + 1) n ++ sep :: v := by
      rw [hx, List.cons_append, List.cons_lt_cons_iff]
      exact .inl (hsep d hd)
    constructor
    · rintro (hlt | ⟨heq, -⟩)
      · exact hlt.le
      · exact (fixed_inj A hm hn heq).le
    · intro hle
      rcases Nat.lt_or_eq_of_le hle with hlt | heq
      · exact .inl hlt
      · exact .inr ⟨by rw [← heq], hnext⟩

end Order

/-! ## Decimal text -/

/-- The ASCII character of a digit. -/
def charDigit (d : ℕ) : UInt8 := UInt8.ofNat (48 + d)

theorem charDigit_toNat {d : ℕ} (h : d < 10) : (charDigit d).toNat = 48 + d := by
  rw [charDigit, UInt8.toNat_ofNat', Nat.mod_eq_of_lt (by omega)]

theorem charDigit_alphabet : Alphabet charDigit 10 where
  base := by decide
  lt_iff := by
    intro d hd e he
    rw [UInt8.lt_iff_toNat_lt, charDigit_toNat hd, charDigit_toNat he]
    omega

/-- An integer in decimal. -/
def decimal (z : ℤ) : List UInt8 :=
  (if z < 0 then [45] else []) ++ numeral charDigit 10 z.natAbs

/-- `text` is the canonical decimal text of `z`: a minus sign exactly for a negative number, and
behind it the digits of the number, with a leading zero only for zero itself. -/
def IsDecimal (text : List UInt8) (z : ℤ) : Prop :=
  ∃ ds : List ℕ, text = (if z < 0 then [45] else []) ++ ds.map charDigit ∧ ds ≠ [] ∧
    (∀ d ∈ ds, d < 10) ∧ (ds.head? = some 0 → ds = [0]) ∧ Nat.ofDigits 10 ds.reverse = z.natAbs

theorem decimal_isDecimal (z : ℤ) : IsDecimal (decimal z) z := by
  refine ⟨numeral id 10 z.natAbs, ?_, numeral_ne_nil _, ?_, ?_, ofDigits_numeral (by decide) _⟩
  · rw [decimal, ← numeral_map]
  · intro d hd
    obtain ⟨e, he, hde⟩ := mem_numeral (by decide) hd
    rw [hde]
    exact he
  · intro h0
    rcases Nat.eq_zero_or_pos z.natAbs with hz | hz
    · rw [hz, numeral_of_lt (by decide)]
      rfl
    · obtain ⟨d, hpos, -, hhead⟩ : ∃ d, 0 < d ∧ d < 10 ∧ (numeral id 10 z.natAbs).head? = some (id d) :=
        numeral_head (by decide) hz
      rw [hhead, Option.some_inj] at h0
      exact absurd h0 (Nat.ne_of_gt hpos)

/-! ## Blocks in a row -/

/-- The block of position `r`, counted from the start of block `i`, and the position in it;
at most `fuel` blocks are passed. -/
def locate (size : ℕ → ℕ) : (fuel i r : ℕ) → ℕ × ℕ
  | 0, i, r => (i, r)
  | fuel + 1, i, r => if r < size i then (i, r) else locate size fuel (i + 1) (r - size i)

variable {size : ℕ → ℕ}

theorem le_locate (fuel i r : ℕ) : i ≤ (locate size fuel i r).1 := by
  induction fuel generalizing i r with
  | zero => exact le_rfl
  | succ fuel ih =>
    rw [locate]
    split
    · exact le_rfl
    · exact (Nat.le_succ i).trans (ih (i + 1) (r - size i))

/-- The position is behind all the blocks before its own. -/
theorem locate_sum (fuel i r : ℕ) :
    ∑ k ∈ Finset.Ico i (locate size fuel i r).1, size k + (locate size fuel i r).2 = r := by
  induction fuel generalizing i r with
  | zero => simp [locate]
  | succ fuel ih =>
    rw [locate]
    split
    · simp
    · have hle : i + 1 ≤ (locate size fuel (i + 1) (r - size i)).1 := le_locate _ _ _
      rw [Finset.sum_eq_sum_Ico_succ_bot (by omega), Nat.add_assoc, ih]
      omega

/-- With blocks that are not empty, as much fuel as the position is enough. -/
theorem locate_inside (hsize : ∀ i, 0 < size i) {fuel i r : ℕ} (h : r < fuel) :
    (locate size fuel i r).2 < size (locate size fuel i r).1 := by
  induction fuel generalizing i r with
  | zero => omega
  | succ fuel ih =>
    rw [locate]
    split
    · assumption
    · have := hsize i
      exact ih (by omega)

/-- **A later position is in a later block, or further on in the same one.** -/
theorem locate_lt (hsize : ∀ i, 0 < size i) {f g i r s : ℕ} (hr : r < f) (hs : s < g) (h : r < s) :
    (locate size f i r).1 < (locate size g i s).1 ∨
      (locate size f i r).1 = (locate size g i s).1 ∧ (locate size f i r).2 < (locate size g i s).2 := by
  induction f generalizing g i r s with
  | zero => omega
  | succ f ih =>
    obtain ⟨g, rfl⟩ : ∃ g', g = g' + 1 := ⟨g - 1, by omega⟩
    have hpos := hsize i
    by_cases hri : r < size i
    · by_cases hsi : s < size i
      · rw [locate, locate, if_pos hri, if_pos hsi]
        exact .inr ⟨rfl, h⟩
      · rw [locate, locate, if_pos hri, if_neg hsi]
        exact .inl (le_locate g (i + 1) (s - size i))
    · have hsi : ¬ s < size i := by omega
      rw [locate, locate, if_neg hri, if_neg hsi]
      exact ih (by omega) (by omega) (by omega)

end MyMuduo.Lib
