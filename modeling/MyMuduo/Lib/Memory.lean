import Mathlib.Tactic

/-!
# Memory as a function

A memory gives a cell to every address. `write` puts a list of cells at an address, `slice`
reads a number of cells from one.

* `slice_write`: what was written is read back.
* `slice_write_before`: what lies in front of a write is not changed by it.
* `write_append`, `write_over`: two writes, one behind the other or over it, are one.
-/

namespace MyMuduo.Lib.Memory

variable {α : Type*}

/-- The cells `xs` from address `i` on. -/
def write (m : ℕ → α) (i : ℕ) (xs : List α) : ℕ → α := fun k =>
  if k < i then m k else xs[k - i]?.getD (m k)

/-- The `n` cells from address `i` on. -/
def slice (m : ℕ → α) (i n : ℕ) : List α := (List.range n).map fun k => m (i + k)

variable {m m' : ℕ → α} {i n : ℕ} {xs ys zs : List α}

@[simp] theorem slice_length : (slice m i n).length = n := by simp [slice]

theorem slice_getElem {k : ℕ} (h : k < (slice m i n).length) : (slice m i n)[k] = m (i + k) := by
  simp [slice]

theorem slice_congr (h : ∀ k, i ≤ k → k < i + n → m k = m' k) : slice m i n = slice m' i n := by
  refine List.map_congr_left fun k hk => h _ (by omega) ?_
  have := List.mem_range.1 hk
  omega

theorem slice_add (m : ℕ → α) (i n k : ℕ) : slice m i (n + k) = slice m i n ++ slice m (i + n) k := by
  rw [slice, List.range_add, List.map_append, List.map_map]
  congr 1
  exact List.map_congr_left fun j _ => by rw [Function.comp_apply, Nat.add_assoc]

/-- A cell outside of the write. -/
theorem write_of_outside {k : ℕ} (h : k < i ∨ i + xs.length ≤ k) : write m i xs k = m k := by
  rw [write]
  split
  · rfl
  · rw [List.getElem?_eq_none (by omega), Option.getD_none]

/-- A cell inside of the write. -/
theorem write_of_inside {k : ℕ} (h : k < xs.length) : write m i xs (i + k) = xs[k] := by
  rw [write, if_neg (by omega), Nat.add_sub_cancel_left, List.getElem?_eq_getElem h, Option.getD_some]

@[simp] theorem write_nil : write m i [] = m := by
  funext k
  exact write_of_outside (by simp; omega)

theorem slice_write (m : ℕ → α) (i : ℕ) (xs : List α) : slice (write m i xs) i xs.length = xs := by
  refine List.ext_getElem (by simp) fun k hk hk' => ?_
  rw [slice_getElem, write_of_inside hk']

theorem slice_write_before {j : ℕ} (h : j + n ≤ i) : slice (write m i xs) j n = slice m j n :=
  slice_congr fun k _ hk => write_of_outside (.inl (by omega))

/-- A write behind another one. -/
theorem write_append : write (write m i xs) (i + xs.length) ys = write m i (xs ++ ys) := by
  funext k
  simp only [write]
  by_cases hi : k < i
  · rw [if_pos (by omega), if_pos hi, if_pos hi]
  by_cases hk : k < i + xs.length
  · rw [if_pos hk, if_neg hi, if_neg hi, List.getElem?_append_left (by omega)]
  · rw [if_neg hk, if_neg hi, if_neg hi, List.getElem?_append_right (by omega),
      List.getElem?_eq_none (l := xs) (by omega), Option.getD_none, Nat.sub_sub]

/-- A write over the first part of another one. -/
theorem write_over (h : zs.length = xs.length) :
    write (write m i (xs ++ ys)) i zs = write m i (zs ++ ys) := by
  funext k
  simp only [write]
  by_cases hi : k < i
  · rw [if_pos hi, if_pos hi, if_pos hi]
  rw [if_neg hi, if_neg hi, if_neg hi]
  by_cases hk : k - i < zs.length
  · rw [List.getElem?_append_left hk, List.getElem?_eq_getElem hk, Option.getD_some, Option.getD_some]
  · rw [List.getElem?_eq_none (l := zs) (by omega), Option.getD_none,
      List.getElem?_append_right (by omega), List.getElem?_append_right (by omega), h]

end MyMuduo.Lib.Memory
