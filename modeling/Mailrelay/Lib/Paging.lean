/-
  Pages of a sorted list.

  The place of an element in a list that an order sorts is the number of the
  elements before it.  While the list grows, the place only gets larger.

  * `idxOf_eq_countP`: the place of an element;
  * `countP_le_of_subset`: places in a list that grows;
  * `mem_page_iff`: the elements of a page.
-/
import Mathlib.Data.List.Nodup
import Mathlib.Data.List.Perm.Subperm

namespace Lib

variable {α : Type}

section
variable [DecidableEq α] {r : α → α → Prop} [DecidableRel r] {l l' : List α} {x : α}

/-- **The place of an element** is the number of the elements before it. -/
theorem idxOf_eq_countP (hr : l.Pairwise fun a b => r a b ∧ ¬ r b a) (hrefl : r x x) (hx : x ∈ l) :
    l.idxOf x = l.countP fun y => !decide (r x y) := by
  induction l with
  | nil => cases hx
  | cons a l ih =>
    obtain ⟨ha, hl⟩ := List.pairwise_cons.1 hr
    by_cases hax : a = x
    · subst hax
      have hnone : l.countP (fun y => !decide (r a y)) = 0 := by
        refine List.countP_eq_zero.2 fun y hy => ?_
        simp [(ha y hy).1]
      simp [hrefl, hnone]
    · have hxl : x ∈ l := (List.mem_cons.1 hx).resolve_left (Ne.symm hax)
      rw [List.idxOf_cons_ne _ hax, ih hl hxl, List.countP_cons_of_pos (by simp [(ha x hxl).2])]

omit [DecidableEq α] in
/-- The more elements, the later the place. -/
theorem countP_le_of_subset (hl : l.Nodup) (h : l ⊆ l') (p : α → Bool) : l.countP p ≤ l'.countP p :=
  (hl.subperm h).countP_le p

/-- A page of `n` elements, after the first `o`. -/
theorem mem_page_iff (hl : l.Nodup) (o n : ℕ) :
    x ∈ (l.drop o).take n ↔ x ∈ l ∧ o ≤ l.idxOf x ∧ l.idxOf x < o + n := by
  constructor
  · intro h
    obtain ⟨i, hi, rfl⟩ := List.getElem_of_mem h
    rw [List.getElem_take, List.getElem_drop]
    rw [List.length_take, List.length_drop] at hi
    have hlt : o + i < l.length := by omega
    rw [hl.idxOf_getElem _ hlt]
    exact ⟨List.getElem_mem hlt, by omega, by omega⟩
  · rintro ⟨hx, ho, hn⟩
    have hlt := List.idxOf_lt_length_of_mem hx
    rw [List.mem_iff_getElem]
    refine ⟨l.idxOf x - o, by simp only [List.length_take, List.length_drop]; omega, ?_⟩
    rw [List.getElem_take, List.getElem_drop]
    simp only [show o + (l.idxOf x - o) = l.idxOf x by omega, List.getElem_idxOf]

end

end Lib
