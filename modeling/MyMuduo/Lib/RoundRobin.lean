import Mathlib.Tactic

/-!
# Going around a list

`around l i n` are the `n` elements of `l` from index `i` on, with its first element again
behind its last one.

* `around_window`: any `l.length` of them in a row are the elements of `l`, each once.
-/

namespace MyMuduo.Lib

variable {α : Type*}

/-- The `n` elements from index `i` on, around the list; nothing from an empty list. -/
def around (l : List α) (i n : ℕ) : List α :=
  (List.range n).filterMap fun k => l[(i + k) % l.length]?

variable {l : List α} {i : ℕ}

theorem around_eq_map (h : 0 < l.length) (i n : ℕ) :
    around l i n = (List.range n).map fun k => l.get ⟨(i + k) % l.length, Nat.mod_lt _ h⟩ := by
  rw [around, ← List.filterMap_eq_map]
  congr 1
  funext k
  exact List.getElem?_eq_getElem (Nat.mod_lt _ h)

theorem around_length (h : 0 < l.length) (n : ℕ) : (around l i n).length = n := by
  rw [around_eq_map h, List.length_map, List.length_range]

/-- One step further. -/
theorem around_succ {x : α} {n : ℕ} (h : l[(i + n) % l.length]? = some x) :
    around l i (n + 1) = around l i n ++ [x] := by
  rw [around, List.range_succ, List.filterMap_append, List.filterMap_cons, h]
  rfl

/-- **Any round takes every element once.** -/
theorem around_window {j n : ℕ} (h : j + l.length ≤ n) :
    (((around l i n).drop j).take l.length).Perm l := by
  rcases Nat.eq_zero_or_pos l.length with h0 | hpos
  · rw [List.eq_nil_of_length_eq_zero h0]
    exact List.Perm.refl _
  · have hwindow : ((around l i n).drop j).take l.length = l.rotate (i + j) := by
      refine List.ext_getElem ?_ fun k hk hk' => ?_
      · rw [List.length_take, List.length_drop, around_length hpos, List.length_rotate]
        omega
      · rw [List.getElem_take, List.getElem_drop, List.getElem_rotate]
        simp only [around_eq_map hpos, List.getElem_map, List.getElem_range, List.get_eq_getElem]
        congr 2
        omega
    rw [hwindow]
    exact List.rotate_perm l (i + j)

end MyMuduo.Lib
