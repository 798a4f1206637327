import Mathlib.Tactic

/-!
# Blocks of whole messages

Messages on their way are kept in blocks, one block after the other. `Whole blocks messages` says
that every block is some messages, whole and in order, and that all blocks are all messages.

* `Whole.push`, `Whole.extend`: a message goes into a block of its own, or to the end of the last.
* `Whole.merge`, `Whole.insert`: two neighbours become one block, an empty block is put in.
* `Whole.split`: what is in some blocks is whole.
-/

namespace MyMuduo.Lib

variable {α : Type*} {b c m : List (List α)} {x y d : List α}

/-- The blocks are the messages, and no message is in two blocks. -/
def Whole (blocks messages : List (List α)) : Prop :=
  ∃ groups : List (List (List α)), groups.map List.flatten = blocks ∧ groups.flatten = messages

theorem Whole.nil : Whole ([] : List (List α)) [] := ⟨[], rfl, rfl⟩

theorem Whole.singleton (m : List (List α)) : Whole [m.flatten] m := ⟨[m], rfl, by simp⟩

theorem Whole.append {m' : List (List α)} (h : Whole b m) (h' : Whole c m') : Whole (b ++ c) (m ++ m') := by
  obtain ⟨g, rfl, rfl⟩ := h
  obtain ⟨g', rfl, rfl⟩ := h'
  exact ⟨g ++ g', List.map_append, List.flatten_append⟩

theorem Whole.split (h : Whole (b ++ c) m) : ∃ m₁ m₂, m = m₁ ++ m₂ ∧ Whole b m₁ ∧ Whole c m₂ := by
  obtain ⟨g, hg, rfl⟩ := h
  obtain ⟨g₁, g₂, rfl, rfl, rfl⟩ := List.map_eq_append_iff.1 hg
  exact ⟨g₁.flatten, g₂.flatten, List.flatten_append, ⟨g₁, rfl, rfl⟩, ⟨g₂, rfl, rfl⟩⟩

theorem Whole.head (h : Whole (x :: c) m) : ∃ m₁ m₂, m = m₁ ++ m₂ ∧ m₁.flatten = x ∧ Whole c m₂ := by
  obtain ⟨g, hg, rfl⟩ := h
  obtain ⟨m₁, g₂, rfl, rfl, rfl⟩ := List.map_eq_cons_iff.1 hg
  exact ⟨m₁, g₂.flatten, List.flatten_cons, rfl, ⟨g₂, rfl, rfl⟩⟩

theorem Whole.cons (m' : List (List α)) (h : Whole c m) : Whole (m'.flatten :: c) (m' ++ m) :=
  (Whole.singleton m').append h

/-- Two neighbours become one block. -/
theorem Whole.merge (h : Whole (b ++ x :: y :: c) m) : Whole (b ++ (x ++ y) :: c) m := by
  obtain ⟨m₁, m₂, rfl, hb, hxy⟩ := h.split
  obtain ⟨mx, m₃, rfl, rfl, hy⟩ := hxy.head
  obtain ⟨my, m₄, rfl, rfl, hc⟩ := hy.head
  rw [← List.flatten_append, ← List.append_assoc mx]
  exact hb.append (hc.cons (mx ++ my))

/-- An empty block is put in. -/
theorem Whole.insert (h : Whole (b ++ c) m) : Whole (b ++ [] :: c) m := by
  obtain ⟨m₁, m₂, rfl, hb, hc⟩ := h.split
  exact hb.append (hc.cons [])

/-- A message goes into a block of its own. -/
theorem Whole.push (h : Whole b m) (d : List α) : Whole (b ++ [d]) (m ++ [d]) := by
  have hd := Whole.singleton [d]
  rw [List.flatten_singleton] at hd
  exact h.append hd

/-- A message goes to the end of the last block. -/
theorem Whole.extend (h : Whole (b ++ [x]) m) (d : List α) : Whole (b ++ [x ++ d]) (m ++ [d]) := by
  have h := h.push d
  rw [List.append_assoc, List.singleton_append] at h
  exact h.merge

end MyMuduo.Lib
