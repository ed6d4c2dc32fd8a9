/-
  The order of a stable sort.

  In a list without duplicates, `[a, b] <+ l` says that `a` comes before `b`.
  A stable sort is determined by the relation that its result has pairwise:
  `a` comes before `b` if it is less, or equal and first in the input.

  * `pair_sublist_asymm`, `pair_sublist_or`: a list orders its elements;
  * `pair_sublist_of_zipIdx`: the order of the indices;
  * `pairwise_stable`: the order of `insertionSort`.
-/
import Mathlib.Data.List.Sort

namespace Lib

variable {α : Type} {l : List α} {a b : α}

theorem pair_sublist_cons {c : α} :
    List.Sublist [a, b] (c :: l) ↔ List.Sublist [a, b] l ∨ (a = c ∧ b ∈ l) := by
  constructor
  · intro h
    cases h with
    | cons _ h => exact .inl h
    | cons_cons _ h => exact .inr ⟨rfl, List.singleton_sublist.1 h⟩
  · rintro (h | ⟨rfl, h⟩)
    · exact h.cons _
    · exact (List.singleton_sublist.2 h).cons_cons _

theorem pair_sublist_asymm (hl : l.Nodup) (h : List.Sublist [a, b] l) : ¬ List.Sublist [b, a] l := by
  induction l with
  | nil => cases h
  | cons c l ih =>
    obtain ⟨hc, hl⟩ := List.nodup_cons.1 hl
    rw [pair_sublist_cons]
    rcases pair_sublist_cons.1 h with hab | ⟨rfl, hb⟩
    · rintro (h' | ⟨rfl, ha⟩)
      · exact ih hl hab h'
      · exact hc (hab.subset (by simp))
    · rintro (h' | ⟨rfl, ha⟩)
      · exact hc (h'.subset (show a ∈ [b, a] by simp))
      · exact hc ha

theorem pair_sublist_or (ha : a ∈ l) (hb : b ∈ l) (hne : a ≠ b) :
    List.Sublist [a, b] l ∨ List.Sublist [b, a] l := by
  induction l with
  | nil => cases ha
  | cons c l ih =>
    rw [pair_sublist_cons, pair_sublist_cons]
    rcases List.mem_cons.1 ha with rfl | ha'
    · rcases List.mem_cons.1 hb with rfl | hb'
      · exact absurd rfl hne
      · exact .inl (.inr ⟨rfl, hb'⟩)
    · rcases List.mem_cons.1 hb with rfl | hb'
      · exact .inr (.inr ⟨rfl, ha'⟩)
      · exact (ih ha' hb').imp .inl .inl

theorem eq_of_map_eq {β : Type} {f : α → β} {l l' : List α} (hf : ∀ a ∈ l, ∀ b ∈ l', f a = f b → a = b)
    (h : l.map f = l'.map f) : l = l' := by
  induction l generalizing l' with
  | nil => simpa using h.symm
  | cons a l ih =>
    cases l' with
    | nil => simp at h
    | cons b l' =>
      obtain ⟨hab, h⟩ := List.cons.inj h
      rw [hf a List.mem_cons_self b List.mem_cons_self hab,
        ih (fun x hx y hy => hf x (List.mem_cons_of_mem _ hx) y (List.mem_cons_of_mem _ hy)) h]

/-- Elements in the order of their indices. -/
theorem pair_sublist_of_zipIdx {p q : α × ℕ} (hp : p ∈ l.zipIdx) (hq : q ∈ l.zipIdx) (h : p.2 < q.2) :
    List.Sublist [p.1, q.1] l := by
  have hne : p ≠ q := by
    rintro rfl
    omega
  rcases pair_sublist_or hp hq hne with hpq | hqp
  · simpa using hpq.map Prod.fst
  · have hlt := hqp.map Prod.snd
    rw [List.zipIdx_map_snd] at hlt
    have := List.pairwise_iff_forall_sublist.1 List.pairwise_lt_range' hlt
    omega

variable (r : α → α → Prop) [DecidableRel r] [Std.Total r] [IsTrans α r]

/-- **The order of a stable sort.** -/
theorem pairwise_stable (hl : l.Nodup) :
    (l.insertionSort r).Pairwise fun a b => r a b ∧ (r b a → List.Sublist [a, b] l) := by
  have hsorted := l.pairwise_insertionSort r
  have hperm := l.perm_insertionSort r
  rw [List.pairwise_iff_forall_sublist] at hsorted ⊢
  intro a b hab
  refine ⟨hsorted hab, fun hba => ?_⟩
  have hne : a ≠ b := by
    rintro rfl
    exact pair_sublist_asymm (hperm.nodup_iff.2 hl) hab hab
  have hmem : ∀ c ∈ [a, b], c ∈ l := fun c hc => hperm.subset (hab.subset hc)
  refine (pair_sublist_or (hmem a (by simp)) (hmem b (by simp)) hne).resolve_right fun hrev => ?_
  exact pair_sublist_asymm (hperm.nodup_iff.2 hl) hab (List.pair_sublist_insertionSort hba hrev)

end Lib
