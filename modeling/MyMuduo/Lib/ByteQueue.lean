import Mathlib.Tactic

/-!
# Byte queues

The interface a byte buffer offers to its users, as a class: the unread bytes
(`readable`), `append` at the end, `retrieve` from the front, `retrieveAll`, and
`fill`, which takes bytes straight from a descriptor. `LawfulByteQueue` says that
these are the operations of a first-in first-out queue; the list of unread bytes is
the queue itself. Where bytes are only taken from it, `Drains` is enough.

`overwrite` is a copy into the middle of a block of memory, and `slice` what stands
between two indices.
-/

namespace MyMuduo.Lib

/-- Byte strings. -/
abbrev Bytes := List UInt8

/-- The operations of a byte buffer. -/
class ByteQueue (Q : Type) where
  /-- the unread bytes, oldest first -/
  readable : Q → Bytes
  append : Q → Bytes → Q
  retrieve : Q → ℕ → Q
  retrieveAll : Q → Q
  /-- take bytes that a descriptor delivered -/
  fill : Q → Bytes → Q

/-- The operations are those of a first-in first-out queue. -/
class LawfulByteQueue (Q : Type) [ByteQueue Q] : Prop where
  readable_append : ∀ (q : Q) (d : Bytes),
    ByteQueue.readable (ByteQueue.append q d) = ByteQueue.readable q ++ d
  readable_retrieve : ∀ (q : Q) (n : ℕ), n ≤ (ByteQueue.readable q).length →
    ByteQueue.readable (ByteQueue.retrieve q n) = (ByteQueue.readable q).drop n
  readable_retrieveAll : ∀ q : Q, ByteQueue.readable (ByteQueue.retrieveAll q) = []
  readable_fill : ∀ (q : Q) (d : Bytes),
    ByteQueue.readable (ByteQueue.fill q d) = ByteQueue.readable q ++ d

attribute [simp] LawfulByteQueue.readable_append LawfulByteQueue.readable_retrieveAll
  LawfulByteQueue.readable_fill

/-- A queue gives up its unread bytes from the front as long as `I` holds of it. -/
structure Drains {Q : Type} [ByteQueue Q] (I : Q → Prop) : Prop where
  keep : ∀ q n, I q → I (ByteQueue.retrieve q n)
  retrieve : ∀ q n, I q → n ≤ (ByteQueue.readable q).length →
    ByteQueue.readable (ByteQueue.retrieve q n) = (ByteQueue.readable q).drop n

theorem drains_of_lawful {Q : Type} [ByteQueue Q] [LawfulByteQueue Q] : Drains fun _ : Q => True where
  keep _ _ h := h
  retrieve q n _ hn := LawfulByteQueue.readable_retrieve q n hn

/-- The list of unread bytes, as a queue. -/
instance : ByteQueue Bytes where
  readable q := q
  append q d := q ++ d
  retrieve q n := q.drop n
  retrieveAll _ := []
  fill q d := q ++ d

instance : LawfulByteQueue Bytes where
  readable_append _ _ := rfl
  readable_retrieve _ _ _ := rfl
  readable_retrieveAll _ := rfl
  readable_fill _ _ := rfl

/-! ## Blocks of memory -/

variable {α : Type*}

/-- Copy `d` over the elements of `l` from index `i` on. -/
def overwrite (l : List α) (i : ℕ) (d : List α) : List α :=
  l.take i ++ d ++ l.drop (i + d.length)

/-- The elements of `l` from index `i` up to, not including, index `j`. -/
def slice (l : List α) (i j : ℕ) : List α := (l.drop i).take (j - i)

theorem length_overwrite {l : List α} {i : ℕ} {d : List α} (h : i + d.length ≤ l.length) :
    (overwrite l i d).length = l.length := by
  simp only [overwrite, List.length_append, List.length_take, List.length_drop]; omega

theorem length_slice {l : List α} {i j : ℕ} (h : j ≤ l.length) : (slice l i j).length = j - i := by
  simp only [slice, List.length_take, List.length_drop]; omega

@[simp] theorem slice_self (l : List α) (i : ℕ) : slice l i i = [] := by simp [slice]

theorem slice_drop (l : List α) (i j n : ℕ) : (slice l i j).drop n = slice l (i + n) j := by
  simp only [slice, List.drop_take, List.drop_drop, Nat.sub_add_eq]

theorem slice_append_left {l : List α} (r : List α) {i j : ℕ} (hj : j ≤ l.length) (hij : i ≤ j) :
    slice (l ++ r) i j = slice l i j := by
  simp only [slice]
  rw [List.drop_append_of_le_length (by omega), List.take_append_of_le_length]
  simp only [List.length_drop]; omega

/-- What stands between `i` and the end of a copy made at `j` is what stood between
`i` and `j`, followed by the copy. -/
theorem slice_overwrite {l d : List α} {i j : ℕ} (hij : i ≤ j) (hj : j + d.length ≤ l.length) :
    slice (overwrite l j d) i (j + d.length) = slice l i j ++ d := by
  have hi : i ≤ (l.take j).length := by simp only [List.length_take]; omega
  have hi' : i ≤ (l.take j ++ d).length := by rw [List.length_append]; omega
  simp only [slice, overwrite]
  rw [List.drop_append_of_le_length hi', List.drop_append_of_le_length hi, List.drop_take]
  apply List.take_left'
  simp only [List.length_append, List.length_take, List.length_drop]; omega

/-- What stands outside of a copy is not changed by it. -/
theorem slice_overwrite_disjoint {l d : List α} {i j k : ℕ} (hk : k + d.length ≤ l.length)
    (hd : j ≤ k ∨ k + d.length ≤ i) : slice (overwrite l k d) i j = slice l i j := by
  have hlen : (l.take k).length = k := by rw [List.length_take]; omega
  rcases hd with hd | hd
  · -- the copy comes behind
    have hcut : ∀ r : List α, slice (l.take k ++ r) i j = (l.take j).drop i := by
      intro r
      rw [slice, ← List.drop_take, List.take_append_of_le_length (by omega), List.take_take,
        Nat.min_eq_left hd]
    rw [overwrite, List.append_assoc, hcut, slice, List.drop_take]
  · -- the copy comes in front
    have hdrop : (overwrite l k d).drop i = l.drop i := by
      have hlen' : (l.take k ++ d).length = k + d.length := by rw [List.length_append, hlen]
      rw [overwrite, List.drop_append, List.drop_of_length_le (by omega), hlen', List.nil_append,
        List.drop_drop]
      congr 1
      omega
    rw [slice, slice, hdrop]

end MyMuduo.Lib
