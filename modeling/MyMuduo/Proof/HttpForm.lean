import MyMuduo.Proof.HttpParser

/-!
# Forms

* `searchPair_append`: over a form the search finds the first pair.
* `searchPair_count`: a round of the loop takes one `=` off the body, and there is a round as
  long as there is one.
* `parsePost_form`: **decoding undoes encoding, and the loop always ends.**
-/

namespace MyMuduo

open Lib

namespace HttpRequest

/-- A byte that is not a separator of the pattern. -/
abbrev plain (c : UInt8) : Bool := !(decide (c = 61) || decide (c = 38))

theorem plain_of_valid {l : Bytes} (h : ∀ b ∈ l, b ∉ postSeparators) : ∀ b ∈ l, plain b = true := by
  intro b hb
  have := h b hb
  simp only [postSeparators, List.mem_cons, not_or] at this
  simp [plain, this.1, this.2.1]

/-- The greedy groups end at the separators. -/
theorem group_append {l s : Bytes} (hl : ∀ b ∈ l, plain b = true)
    (hs : s = [] ∨ ∃ c t, s = c :: t ∧ plain c = false) :
    (l ++ s).takeWhile plain = l ∧ (l ++ s).dropWhile plain = s := by
  rw [List.takeWhile_append_of_pos hl, List.dropWhile_append_of_pos hl]
  rcases hs with hs | ⟨c, t, hs, hc⟩
  · subst hs
    simp
  · subst hs
    rw [List.takeWhile_cons_of_neg (by simp [hc]), List.dropWhile_cons_of_neg (by simp [hc])]
    simp

/-- **The first pair of a form.** -/
theorem searchPair_append (x : PostPair) {rest : Bytes} (hrest : rest = [] ∨ ∃ s, rest = 38 :: s) :
    searchPair (x.text ++ rest) = some (x.key, x.value, rest) := by
  have htext : x.text ++ rest = x.key ++ 61 :: (x.value ++ rest) := by simp [PostPair.text]
  obtain ⟨hk, -⟩ := group_append (s := 61 :: (x.value ++ rest)) (plain_of_valid x.key_valid)
    (.inr ⟨61, _, rfl, by decide⟩)
  obtain ⟨hv, hd⟩ : (x.value ++ rest).takeWhile plain = x.value ∧
      (x.value ++ rest).dropWhile plain = rest := by
    refine group_append (plain_of_valid x.value_valid) ?_
    rcases hrest with h | ⟨s, h⟩
    · exact .inl h
    · exact .inr ⟨38, s, h, by decide⟩
  have hat : (x.key ++ 61 :: (x.value ++ rest))[x.key.length]? = some 61 := by simp
  have hdrop : (x.key ++ 61 :: (x.value ++ rest)).drop (x.key.length + 1) = x.value ++ rest := by
    rw [show x.key ++ 61 :: (x.value ++ rest) = (x.key ++ [61]) ++ (x.value ++ rest) by simp]
    exact List.drop_left' (by simp)
  rw [htext]
  obtain ⟨b, s, hbs⟩ := List.exists_cons_of_ne_nil (show x.key ++ 61 :: (x.value ++ rest) ≠ [] by simp)
  rw [hbs] at hk hat hdrop ⊢
  unfold searchPair
  dsimp only
  rw [hk, if_pos hat, hdrop, hv, hd]

/-- A match, with the `=` between its groups. -/
theorem count_match {body : Bytes} (hclean : ∀ l : Bytes, 61 ∉ l.takeWhile plain)
    (hat : body[(body.takeWhile plain).length]? = some 61) :
    body.count 61 =
      ((body.drop ((body.takeWhile plain).length + 1)).dropWhile plain).count 61 + 1 := by
  have hsplit : body = body.takeWhile plain ++ body.dropWhile plain :=
    List.takeWhile_append_dropWhile.symm
  have hkey := hclean body
  generalize body.takeWhile plain = key at hat hsplit hkey ⊢
  generalize body.dropWhile plain = rest at hsplit
  subst hsplit
  rw [List.getElem?_append_right le_rfl, Nat.sub_self] at hat
  cases rest with
  | nil => cases hat
  | cons c rest =>
    obtain rfl : c = 61 := Option.some_inj.1 hat
    have hdrop : (key ++ 61 :: rest).drop (key.length + 1) = rest := by
      rw [show key ++ 61 :: rest = (key ++ [61]) ++ rest by simp]
      exact List.drop_left' (by simp)
    have hrest : rest.count 61 = (rest.dropWhile plain).count 61 := by
      conv_lhs => rw [← List.takeWhile_append_dropWhile (p := plain) (l := rest)]
      rw [List.count_append, List.count_eq_zero.2 (hclean rest), Nat.zero_add]
    rw [hdrop, ← hrest, List.count_append, List.count_eq_zero.2 hkey, List.count_cons_self,
      Nat.zero_add]

/-- **A round takes one `=` off the body.** -/
theorem searchPair_count (body : Bytes) :
    (61 ∉ body ∧ searchPair body = none) ∨
      ∃ key value suffix, searchPair body = some (key, value, suffix) ∧
        body.count 61 = suffix.count 61 + 1 := by
  induction body with
  | nil => exact .inl ⟨List.not_mem_nil, rfl⟩
  | cons b s ih =>
    have hclean : ∀ l : Bytes, 61 ∉ l.takeWhile plain := by
      intro l h
      have := List.mem_takeWhile_imp h
      simp [plain] at this
    rw [searchPair]
    dsimp only
    split
    · rename_i hat
      refine .inr ⟨_, _, _, rfl, ?_⟩
      exact count_match hclean hat
    · rename_i hat
      -- the first byte is no `=`: it would be a match with an empty key
      have hb : b ≠ 61 := by
        intro h
        subst h
        exact hat (by simp)
      rcases ih with ⟨hnone, hs⟩ | ⟨key, value, suffix, hs, hcount⟩
      · exact .inl ⟨by simp [hb.symm, hnone], hs⟩
      · refine .inr ⟨key, value, suffix, hs, ?_⟩
        rw [List.count_cons_of_ne hb, hcount]

/-! ## The loop -/

/-- The body after `n` rounds of the loop, `none` if it was done before. -/
def bodyAfter : ℕ → Bytes → Option Bytes
  | 0, body => some body
  | n + 1, body => (searchPair body).bind fun m => bodyAfter n m.2.2

/-- **The loop ends** after as many rounds as the body has bytes `=`. -/
theorem loop_ends (body : Bytes) :
    ∃ rest, bodyAfter (body.count 61) body = some rest ∧ searchPair rest = none := by
  generalize hn : body.count 61 = n
  induction n generalizing body with
  | zero =>
    rcases searchPair_count body with ⟨-, hnone⟩ | ⟨key, value, suffix, -, hcount⟩
    · exact ⟨body, rfl, hnone⟩
    · omega
  | succ n ih =>
    rcases searchPair_count body with ⟨hmem, -⟩ | ⟨key, value, suffix, hs, hcount⟩
    · rw [List.count_eq_zero.2 hmem] at hn
      omega
    · obtain ⟨rest, hrest, hstop⟩ := ih suffix (by omega)
      refine ⟨rest, ?_, hstop⟩
      rw [bodyAfter, hs]
      exact hrest

/-- Behind its last round the loop changes nothing. -/
theorem parsePostLoop_stop {n m : ℕ} {body rest : Bytes} (h : bodyAfter n body = some rest)
    (hstop : searchPair rest = none) (hnm : n ≤ m) (post : Bytes → Option Bytes) :
    parsePostLoop m post body = parsePostLoop n post body := by
  induction n generalizing m body post with
  | zero =>
    cases h
    cases m with
    | zero => rfl
    | succ m =>
      change parsePostLoop (m + 1) post rest = post
      rw [parsePostLoop, hstop]
  | succ n ih =>
    obtain ⟨m, rfl⟩ : ∃ k, m = k + 1 := ⟨m - 1, by omega⟩
    obtain ⟨⟨key, value, suffix⟩, hs, hrest⟩ := Option.bind_eq_some_iff.1 h
    rw [parsePostLoop, parsePostLoop, hs]
    exact ih hrest (by omega) _

/-- **The loop enters the pairs of a form one after the other.** -/
theorem parsePostLoop_pairs (xs : List PostPair) {n : ℕ} (hn : xs.length ≤ n)
    (post : Bytes → Option Bytes) :
    parsePostLoop n post (PostPair.form xs) =
      xs.foldl (fun (m : Bytes → Option Bytes) (x : PostPair) =>
        Function.update m x.key (some x.value)) post := by
  -- the separator in front of the next pair is skipped by the search
  have hskip : ∀ s, searchPair (38 :: s) = searchPair s := fun s => rfl
  suffices key : ∀ s, searchPair s = searchPair (PostPair.form xs) →
      parsePostLoop n post s = xs.foldl (fun (m : Bytes → Option Bytes) (x : PostPair) =>
        Function.update m x.key (some x.value)) post from key _ rfl
  induction n generalizing xs post with
  | zero =>
    intro s _
    obtain rfl : xs = [] := List.length_eq_zero_iff.1 (by omega)
    rfl
  | succ n ih =>
    intro s hs
    rw [parsePostLoop, hs]
    cases xs with
    | nil => rfl
    | cons x xs =>
      rw [List.length_cons] at hn
      cases xs with
      | nil =>
        have hpair : searchPair (x.text ++ []) = some (x.key, x.value, []) :=
          searchPair_append x (.inl rfl)
        rw [List.append_nil] at hpair
        rw [PostPair.form, hpair]
        exact ih [] (by simp) _ _ rfl
      | cons y ys =>
        rw [PostPair.form, searchPair_append x (.inr ⟨_, rfl⟩)]
        exact ih (y :: ys) (by omega) _ _ (hskip _)

theorem length_le_postForm (xs : List PostPair) : xs.length ≤ (PostPair.form xs).length := by
  induction xs with
  | nil => exact Nat.zero_le _
  | cons x xs ih =>
    cases xs with
    | nil =>
      simp only [PostPair.form, PostPair.text, List.length_append, List.length_cons, List.length_nil]
      omega
    | cons y ys =>
      simp only [PostPair.form, List.length_append, List.length_cons] at ih ⊢
      omega

/-- The last value of a key counts. -/
theorem parsePostLoop_lastValue (xs : List PostPair) :
    parsePostLoop (PostPair.form xs).length (fun _ => none) (PostPair.form xs) =
      PostPair.lastValue xs := by
  rw [parsePostLoop_pairs xs (length_le_postForm xs)]
  funext k
  rw [update_fold PostPair.key PostPair.value]
  simp [PostPair.lastValue]

/-- **Form decoding undoes form encoding.** For every list of pairs without separators, `parsePost`
of their form, on an empty `m_post`, leaves every key with the last value given for it, and no other
key. For every body the loop is done after a number of rounds that its bytes `=` bound, and the
model's bound on the rounds is never reached. -/
theorem parsePost_form :
    (∀ (r : HttpRequest) (xs : List PostPair),
      { r with m_post := fun _ => none }.parsePost (PostPair.form xs) =
        (true, { r with m_post := PostPair.lastValue xs })) ∧
    ∀ body : Bytes, ∃ n rest, n ≤ body.count 61 ∧ n ≤ body.length ∧
      bodyAfter n body = some rest ∧ searchPair rest = none ∧
      ∀ m, n ≤ m → ∀ post, parsePostLoop m post body = parsePostLoop n post body := by
  constructor
  · intro r xs
    rw [parsePost]
    simp only [parsePostLoop_lastValue]
  · intro body
    obtain ⟨rest, hrest, hstop⟩ := loop_ends body
    exact ⟨body.count 61, rest, le_rfl, List.count_le_length, hrest, hstop,
      fun m hm post => parsePostLoop_stop hrest hstop hm post⟩

end HttpRequest

end MyMuduo
