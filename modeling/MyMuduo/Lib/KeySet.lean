import Mathlib.Tactic

/-!
# Ordered sets by key

A `std::set` whose order compares a key, as the list of its elements in order. An element
whose key is already there is not inserted: the set keeps the one it has.

* `insert_of_lt`, `insert_cons`: an element below all others becomes the first; any other
  leaves the first one in place.
* `insert_perm`, `insert_of_mem`: an element is inserted exactly if its key is new.
* `insert_sorted`: the order is kept.
* `splitBelow_eq`: the elements before `lower_bound` are those with a smaller key.
-/

namespace MyMuduo.Lib.KeySet

variable {α κ : Type*} [LinearOrder κ] (key : α → κ)

/-- `insert(a)`. -/
def insert (a : α) : List α → List α
  | [] => [a]
  | b :: l =>
    if key a < key b then a :: b :: l
    else if key b < key a then b :: insert a l
    else b :: l

/-- The elements before `lower_bound(k)`, and those from it on. -/
def splitBelow (k : κ) (l : List α) : List α × List α := l.span fun a => key a < k

theorem insert_of_lt {a : α} {l : List α} (h : ∀ b ∈ l.head?, key a < key b) :
    insert key a l = a :: l := by
  cases l with
  | nil => rfl
  | cons b l => rw [insert, if_pos (h b rfl)]

theorem insert_cons {a b : α} {l : List α} (h : key b ≤ key a) :
    ∃ l', insert key a (b :: l) = b :: l' := by
  rw [insert, if_neg (not_lt.2 h)]
  by_cases hlt : key b < key a
  · exact ⟨_, if_pos hlt⟩
  · exact ⟨_, if_neg hlt⟩

/-- An element with a new key is inserted. -/
theorem insert_perm {a : α} {l : List α} (h : ∀ b ∈ l, key b ≠ key a) :
    List.Perm (insert key a l) (a :: l) := by
  induction l with
  | nil => exact List.Perm.refl _
  | cons b l ih =>
    have hb : key b ≠ key a := h b List.mem_cons_self
    have hl := ih fun c hc => h c (List.mem_cons_of_mem _ hc)
    rw [insert]
    rcases lt_or_gt_of_ne hb with hlt | hlt
    · rw [if_neg (not_lt.2 hlt.le), if_pos hlt]
      exact (hl.cons b).trans (List.Perm.swap a b l)
    · rw [if_pos hlt]

/-- The order of the set: strictly by key. -/
abbrev Sorted (l : List α) : Prop := l.Pairwise fun a b => key a < key b

/-- An element whose key is there already is not inserted. -/
theorem insert_of_mem {a : α} {l : List α} (hl : Sorted key l) (h : ∃ b ∈ l, key b = key a) :
    insert key a l = l := by
  induction l with
  | nil =>
    obtain ⟨b, hb, -⟩ := h
    cases hb
  | cons b l ih =>
    obtain ⟨hb, hl⟩ := List.pairwise_cons.1 hl
    obtain ⟨c, hc, hkey⟩ := h
    rw [insert]
    rcases List.mem_cons.1 hc with rfl | hc
    · rw [if_neg (by rw [hkey]; exact lt_irrefl _), if_neg (by rw [hkey]; exact lt_irrefl _)]
    · have hlt : key b < key a := hkey ▸ hb c hc
      rw [if_neg (not_lt.2 hlt.le), if_pos hlt, ih hl ⟨c, hc, hkey⟩]

/-- At most the new element is new. -/
theorem insert_subperm {a : α} {l : List α} (hl : Sorted key l) :
    List.Subperm (insert key a l) (a :: l) := by
  by_cases h : ∃ b ∈ l, key b = key a
  · rw [insert_of_mem key hl h]
    exact (List.sublist_cons_self a l).subperm
  · push Not at h
    exact (insert_perm key h).subperm

theorem insert_subset {a x : α} {l : List α} (h : x ∈ insert key a l) : x = a ∨ x ∈ l := by
  induction l with
  | nil => exact Or.inl (List.mem_singleton.1 h)
  | cons b l ih =>
    rw [insert] at h
    split_ifs at h
    · exact List.mem_cons.1 h
    · rcases List.mem_cons.1 h with rfl | h
      · exact Or.inr List.mem_cons_self
      · exact (ih h).imp_right (List.mem_cons_of_mem _)
    · exact Or.inr h

theorem insert_sorted {a : α} {l : List α} (hl : Sorted key l) : Sorted key (insert key a l) := by
  induction l with
  | nil => exact List.pairwise_singleton _ _
  | cons b l ih =>
    obtain ⟨hb, hl'⟩ := List.pairwise_cons.1 hl
    rw [insert]
    split_ifs with h1 h2
    · refine List.pairwise_cons.2 ⟨fun c hc => ?_, hl⟩
      rcases List.mem_cons.1 hc with rfl | hc
      · exact h1
      · exact h1.trans (hb c hc)
    · refine List.pairwise_cons.2 ⟨fun c hc => ?_, ih hl'⟩
      rcases insert_subset key hc with rfl | hc
      · exact h2
      · exact hb c hc
    · exact hl

/-- The cut at `lower_bound(k)`. -/
theorem splitBelow_eq {k : κ} {l : List α} (hl : Sorted key l) :
    splitBelow key k l = (l.filter fun a => key a < k, l.filter fun a => !decide (key a < k)) := by
  rw [splitBelow, List.span_eq_takeWhile_dropWhile]
  induction l with
  | nil => rfl
  | cons b l ih =>
    obtain ⟨hb, hl⟩ := List.pairwise_cons.1 hl
    by_cases hk : key b < k
    · have h := Prod.mk.inj (ih hl)
      simp [hk, h.1, h.2]
    · -- nothing behind `b` is smaller than `b`
      have hrest : ∀ c ∈ l, ¬key c < k := fun c hc h => hk ((hb c hc).trans h)
      have h1 : l.filter (fun a => key a < k) = [] := by simpa using hrest
      have h2 : l.filter (fun a => !decide (key a < k)) = l := by simpa using hrest
      have h3 : (b :: l).filter (fun a => !decide (key a < k)) = b :: l := by
        rw [List.filter_cons_of_pos (by simpa using hk), h2]
      rw [h3]
      simp [hk, h1]

end MyMuduo.Lib.KeySet
