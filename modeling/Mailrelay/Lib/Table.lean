/-
  Keyed tables: the rows of a relational table with a primary key.

  A `Table` is a list of rows (in rowid order) whose keys are pairwise
  distinct.  `insert?` is an `INSERT` (refused on a duplicate key), `update`
  an `UPDATE … SET f WHERE p` that leaves the key alone, `delete` a
  `DELETE … WHERE p`, and `get?` the row with a given key.  The `get?_*`
  lemmas say what each statement does to the row with key `k`; proofs about
  tables use these and never the list of rows.
-/
import Mathlib.Data.List.Nodup

namespace Lib

/-- Where `k` identifies the elements, the first one with a value is the only
    one. -/
theorem find?_key_eq_some {α κ : Type} [DecidableEq κ] {l : List α} {k : α → κ}
    (hl : ∀ a ∈ l, ∀ b ∈ l, k a = k b → a = b) {v : κ} {a : α} :
    l.find? (fun b => decide (k b = v)) = some a ↔ a ∈ l ∧ k a = v := by
  induction l with
  | nil => simp
  | cons b l ih =>
    have ih' := ih fun a ha c hc => hl a (List.mem_cons_of_mem _ ha) c (List.mem_cons_of_mem _ hc)
    by_cases hb : k b = v
    · simp only [List.find?_cons, hb, decide_true, Option.some.injEq]
      constructor
      · rintro rfl
        exact ⟨List.mem_cons_self, hb⟩
      · rintro ⟨ha, hk⟩
        exact hl b List.mem_cons_self a ha (hb.trans hk.symm)
    · simp only [List.find?_cons, hb, decide_false, ih', List.mem_cons]
      constructor
      · rintro ⟨ha, hk⟩
        exact ⟨.inr ha, hk⟩
      · rintro ⟨rfl | ha, hk⟩
        · exact absurd hk hb
        · exact ⟨ha, hk⟩

/-- Rows with a primary key. -/
class Keyed (α : Type) (κ : outParam Type) where
  key : α → κ

open Keyed

/-- A table with a primary key. -/
structure Table (α : Type) {κ : Type} [Keyed α κ] where
  rows : List α
  nodup : (rows.map key).Nodup

namespace Table

variable {α κ : Type} [Keyed α κ]

@[ext] theorem ext {t t' : Table α} (h : t.rows = t'.rows) : t = t' := by
  cases t; cases t'; simp_all

instance [DecidableEq α] : DecidableEq (Table α) := fun t t' =>
  decidable_of_iff (t.rows = t'.rows) ⟨ext, fun h => h ▸ rfl⟩

/-- The empty table. -/
def empty : Table α := ⟨[], List.nodup_nil⟩

section
variable [DecidableEq κ]

/-- The row with key `k`. -/
def get? (t : Table α) (k : κ) : Option α := t.rows.find? fun a => decide (key a = k)

/-- `INSERT`: append a row, unless its key is taken. -/
def insert? (t : Table α) (a : α) : Option (Table α) :=
  if h : key a ∈ t.rows.map key then none
  else some ⟨t.rows ++ [a], by
    rw [List.map_append, List.map_singleton]
    exact List.nodup_append.2 ⟨t.nodup, List.nodup_singleton _, fun x hx y hy hxy => by
      rw [List.mem_singleton] at hy; exact h (hy ▸ hxy ▸ hx)⟩⟩

end

/-- `UPDATE … SET f WHERE p`. -/
def update (t : Table α) (p : α → Bool) (f : α → α) (hf : ∀ a, key (f a) = key a) : Table α :=
  ⟨t.rows.map fun a => if p a then f a else a, by
    have h : (t.rows.map fun a => if p a then f a else a).map key = t.rows.map key := by
      rw [List.map_map]
      refine List.map_congr_left fun a _ => ?_
      by_cases hp : p a <;> simp [hp, hf]
    rw [h]; exact t.nodup⟩

/-- `DELETE … WHERE p`. -/
def delete (t : Table α) (p : α → Bool) : Table α :=
  ⟨t.rows.filter fun a => !p a, (List.filter_sublist.map key).nodup t.nodup⟩

/-- An `UPDATE` whose condition no row meets changes nothing. -/
theorem map_rows_of_not {t : Table α} {p : α → Bool} {f : α → α}
    (h : ∀ a ∈ t.rows, p a = false) : (t.rows.map fun a => if p a then f a else a) = t.rows := by
  rw [List.map_congr_left fun a ha => by rw [h a ha, if_neg Bool.false_ne_true], List.map_id']

/-- A `DELETE` whose condition no row meets changes nothing. -/
theorem delete_of_not {t : Table α} {p : α → Bool} (h : ∀ a ∈ t.rows, p a = false) :
    t.delete p = t :=
  ext (List.filter_eq_self.2 fun a ha => by rw [h a ha]; rfl)

variable [DecidableEq κ] {t t' : Table α} {a b : α} {k : κ}

theorem get?_key (h : t.get? k = some a) : key a = k := by
  simpa using List.find?_some h

theorem mem_of_get? (h : t.get? k = some a) : a ∈ t.rows := List.mem_of_find?_eq_some h

/-- Keys identify rows. -/
theorem get?_eq_some : t.get? k = some a ↔ a ∈ t.rows ∧ key a = k :=
  find?_key_eq_some fun _ ha _ hb => List.inj_on_of_nodup_map t.nodup ha hb

theorem get?_of_mem (h : a ∈ t.rows) : t.get? (key a) = some a := get?_eq_some.2 ⟨h, rfl⟩

theorem get?_eq_none : t.get? k = none ↔ ∀ a ∈ t.rows, key a ≠ k := by
  simp [get?]

/-! ## Statements, seen at one key -/

theorem insert?_eq_some (h : t.insert? a = some t') :
    t'.rows = t.rows ++ [a] ∧ t.get? (key a) = none := by
  unfold insert? at h
  split_ifs at h with hk
  cases h
  refine ⟨rfl, get?_eq_none.2 fun b hb he => hk ?_⟩
  exact List.mem_map.2 ⟨b, hb, he⟩

theorem insert?_of_get? (h : t.get? (key a) = none) : ∃ t', t.insert? a = some t' := by
  have hk : key a ∉ t.rows.map key := fun hm => by
    obtain ⟨b, hb, he⟩ := List.mem_map.1 hm
    exact get?_eq_none.1 h b hb he
  exact ⟨_, dif_neg hk⟩

theorem get?_insert (h : t.insert? a = some t') :
    t'.get? k = if key a = k then some a else t.get? k := by
  obtain ⟨hr, hn⟩ := insert?_eq_some h
  simp only [get?, hr, List.find?_append, List.find?_cons, List.find?_nil]
  split_ifs with hk
  · subst hk; simp only [get?] at hn; simp [hn]
  · simp [hk]

@[simp] theorem get?_update {p : α → Bool} {f : α → α} {hf : ∀ a, key (f a) = key a} :
    (t.update p f hf).get? k = (t.get? k).map fun a => if p a then f a else a := by
  have h : ((fun a : α => decide (key a = k)) ∘ fun a => if p a then f a else a) =
      fun a => decide (key a = k) := by
    funext a; by_cases hp : p a <;> simp [hp, hf]
  simp only [get?, update, List.find?_map, h]

/-- An `UPDATE` leaves the rows of other keys alone. -/
theorem map_get?_of_ne {p : α → Bool} {f : α → α} (h : ∀ a, p a → key a ≠ k) :
    ((t.get? k).map fun a => if p a then f a else a) = t.get? k := by
  rcases ha : t.get? k with _ | a
  · rfl
  · have hp : ¬p a := fun hp => h a hp (get?_key ha)
    rw [Option.map_some, if_neg hp]

@[simp] theorem get?_delete {p : α → Bool} :
    (t.delete p).get? k = (t.get? k).filter fun a => !p a := by
  rcases h : t.get? k with _ | a
  · refine get?_eq_none.2 fun b hb => get?_eq_none.1 h b (List.mem_of_mem_filter hb)
  · obtain ⟨hm, hk⟩ := get?_eq_some.1 h
    by_cases hp : p a
    · rw [Option.filter_some, if_neg (by simp [hp])]
      refine get?_eq_none.2 fun b hb he => ?_
      obtain ⟨hb, hpb⟩ := List.mem_filter.1 hb
      have : b = a := by
        have := get?_of_mem hb; rw [he, h] at this; exact (Option.some.inj this).symm
      subst this; simp [hp] at hpb
    · rw [Option.filter_some, if_pos (by simp [hp])]
      exact get?_eq_some.2 ⟨List.mem_filter.2 ⟨hm, by simp [hp]⟩, hk⟩

/-- Appending rows: a key is old or new, never both. -/
theorem get?_append {l : List α} (h : t'.rows = t.rows ++ l) :
    t'.get? k = (t.get? k).or (l.find? fun a => decide (key a = k)) := by
  simp only [get?, h, List.find?_append]

theorem get?_append_new {l : List α} (h : t'.rows = t.rows ++ l) (ha : a ∈ l) :
    t.get? (key a) = none ∧ t'.get? (key a) = some a := by
  refine ⟨get?_eq_none.2 fun b hb he => ?_, get?_of_mem (by rw [h]; exact List.mem_append_right _ ha)⟩
  have hn := t'.nodup
  rw [h, List.map_append, List.nodup_append] at hn
  exact hn.2.2 _ (List.mem_map_of_mem hb) _ (List.mem_map_of_mem ha) he

theorem get?_append_old {l : List α} (h : t'.rows = t.rows ++ l) (hk : ∀ a ∈ l, key a ≠ k) :
    t'.get? k = t.get? k := by
  have : l.find? (fun a => decide (key a = k)) = none := by simpa using hk
  rw [get?_append h, this, Option.or_none]

end Table

end Lib
