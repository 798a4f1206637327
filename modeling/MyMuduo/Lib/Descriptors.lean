import Mathlib.Tactic

/-!
# Descriptor tables

The descriptors of a process: a number below the limit stands for an object, or is free. A system call
that makes a new descriptor takes the lowest free number, and fails if there is none.

* `get_alloc`, `get_close`: what a new descriptor and a close change, and that they change nothing else.
* `alloc_iff_room`, `room_close`: there is a new descriptor exactly if a number is free, as behind a close.
* `alloc_close_full`: with all others in use, the number that was closed comes back.
-/

namespace MyMuduo.Lib

/-- The object at each number below the limit. -/
abbrev Descriptors (α : Type*) := List (Option α)

namespace Descriptors

variable {α : Type*} (t : Descriptors α)

/-- The object that the number stands for. -/
def get (fd : ℕ) : Option α := t[fd]?.join

/-- A new descriptor, at the lowest free number; `none` is `EMFILE`. -/
def alloc (a : α) : Option (ℕ × Descriptors α) :=
  (t.findIdx? Option.isNone).map fun fd => (fd, t.set fd (some a))

/-- `close(fd)`; a number that is free, or none at all, is left as it is. -/
def close (fd : ℕ) : Descriptors α := t.set fd none

variable {t} {t' : Descriptors α} {a : α} {fd n : ℕ}

theorem get_set {o : Option α} (h : n < t.length) : get (t.set n o) fd = if fd = n then o else t.get fd := by
  rw [get, List.getElem?_set]
  by_cases hn : n = fd
  · subst hn
    rw [if_pos rfl, if_pos h, if_pos rfl, Option.join_some]
  · rw [if_neg hn, if_neg (Ne.symm hn), get]

theorem lt_of_get (h : t.get fd = some a) : fd < t.length := by
  by_contra hge
  rw [get, List.getElem?_eq_none (by omega)] at h
  simp at h

theorem get_close : (t.close n).get fd = if fd = n then none else t.get fd := by
  rcases Nat.lt_or_ge n t.length with h | h
  · exact get_set h
  · rw [close, List.set_eq_of_length_le h]
    split
    · rename_i hfd
      rw [hfd, get, List.getElem?_eq_none h, Option.join_none]
    · rfl

theorem alloc_eq_some : t.alloc a = some (n, t') ↔
    t.findIdx? Option.isNone = some n ∧ t' = t.set n (some a) := by
  rw [alloc, Option.map_eq_some_iff]
  constructor
  · rintro ⟨n', h, heq⟩
    obtain ⟨rfl, rfl⟩ := Prod.mk.inj heq
    exact ⟨h, rfl⟩
  · rintro ⟨h, rfl⟩
    exact ⟨n, h, rfl⟩

/-- A new descriptor has a free number. -/
theorem free_of_alloc (h : t.alloc a = some (n, t')) : n < t.length ∧ t.get n = none := by
  obtain ⟨h, -⟩ := alloc_eq_some.1 h
  obtain ⟨hlt, hnone, -⟩ := List.findIdx?_eq_some_iff_getElem.1 h
  refine ⟨hlt, ?_⟩
  rw [get, List.getElem?_eq_getElem hlt, Option.isNone_iff_eq_none.1 hnone, Option.join_some]

/-- **A new descriptor changes its own number only.** -/
theorem get_alloc (h : t.alloc a = some (n, t')) : t'.get fd = if fd = n then some a else t.get fd := by
  rw [(alloc_eq_some.1 h).2]
  exact get_set (free_of_alloc h).1

@[simp] theorem length_close : (t.close n).length = t.length := List.length_set

/-- There is a free number. -/
def Room (t : Descriptors α) : Prop := ∃ fd, fd < t.length ∧ t.get fd = none

theorem alloc_iff_room : (t.alloc a).isSome ↔ t.Room := by
  rw [alloc, Option.isSome_map, List.findIdx?_isSome, List.any_eq_true]
  constructor
  · rintro ⟨o, ho, hnone⟩
    obtain ⟨fd, hlt, rfl⟩ := List.mem_iff_getElem.1 ho
    refine ⟨fd, hlt, ?_⟩
    rw [get, List.getElem?_eq_getElem hlt, Option.isNone_iff_eq_none.1 hnone, Option.join_some]
  · rintro ⟨fd, hlt, hnone⟩
    rw [get, List.getElem?_eq_getElem hlt, Option.join_some] at hnone
    exact ⟨t[fd], List.getElem_mem hlt, by rw [hnone]; rfl⟩

/-- **A close makes room.** -/
theorem room_close (h : n < t.length) : (t.close n).Room :=
  ⟨n, by simpa using h, by rw [get_close, if_pos rfl]⟩

/-- **With all others in use, the number that was closed comes back.** -/
theorem alloc_close_full (hfull : ¬ t.Room) (h : n < t.length) :
    (t.close n).alloc a = some (n, t.set n (some a)) := by
  refine alloc_eq_some.2 ⟨?_, by rw [close, List.set_set]⟩
  refine List.findIdx?_eq_some_iff_getElem.2 ⟨by simpa using h, by simp [close], ?_⟩
  intro j hj
  have hlt : j < t.length := hj.trans h
  have hused : t[j] ≠ none := by
    intro hnone
    exact hfull ⟨j, hlt, by rw [get, List.getElem?_eq_getElem hlt, hnone, Option.join_some]⟩
  simp only [close, List.getElem_set, if_neg hj.ne', Option.isNone_iff_eq_none]
  exact hused

theorem room_close_of_room (h : t.Room) (n : ℕ) : (t.close n).Room := by
  obtain ⟨fd, hlt, hfree⟩ := h
  refine ⟨fd, by simpa using hlt, ?_⟩
  rw [get_close]
  split
  · rfl
  · exact hfree

theorem set_of_get (h : t.get n = some a) : t.set n (some a) = t := by
  have hlt := lt_of_get h
  rw [get, List.getElem?_eq_getElem hlt, Option.join_some] at h
  rw [← h, List.set_getElem_self]

end Descriptors

end MyMuduo.Lib
