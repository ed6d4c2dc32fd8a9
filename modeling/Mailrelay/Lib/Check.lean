/-
  Sequences of checks, each of which may fail with a message.

  A validator is a `do` block in `Except`.  `check` is one test of it, and the
  lemmas say when a block as a whole succeeds.

  * `bind_ok`, `check_ok`, `forM_ok`: what a success of a part means.
-/
import Mathlib.Data.List.Basic

namespace Lib

variable {ε α β : Type}

/-- Fail with `e` if `bad`. -/
def check (bad : Prop) [Decidable bad] (e : ε) : Except ε Unit := if bad then .error e else .ok ()

theorem bind_ok {x : Except ε α} {f : α → Except ε β} {b : β} :
    (x >>= f) = .ok b ↔ ∃ a, x = .ok a ∧ f a = .ok b := by
  cases x with
  | error e => simp [bind, Except.bind]
  | ok a => simp [bind, Except.bind]

@[simp] theorem check_ok {bad : Prop} [Decidable bad] {e : ε} {u : Unit} :
    check bad e = .ok u ↔ ¬ bad := by
  unfold check
  split_ifs with h <;> simp [h]

/-- A block that starts with a check. -/
theorem check_bind_ok {bad : Prop} [Decidable bad] {e : ε} {f : Unit → Except ε β} {b : β} :
    (check bad e >>= f) = .ok b ↔ ¬ bad ∧ f () = .ok b := by
  unfold check
  split_ifs with h <;> simp [h, bind, Except.bind]

/-- A loop of checks succeeds iff each one does. -/
theorem forM_ok {f : α → Except ε Unit} : ∀ {l : List α}, l.forM f = .ok () ↔ ∀ a ∈ l, f a = .ok ()
  | [] => by simp [pure, Except.pure]
  | a :: l => by
    rw [List.forall_mem_cons, ← forM_ok (l := l)]
    cases ha : f a with
    | error e => simp [List.forM, ha, bind, Except.bind]
    | ok u => simp [List.forM, ha, bind, Except.bind]

/-- A list is read back iff each element is. -/
theorem mapM_ok {γ : Type} {dec : γ → Except ε β} {enc : α → γ} {g : β → α} {l : List α} :
    (∃ l', (l.map enc).mapM dec = .ok l' ∧ l'.map g = l) ↔
      ∀ a ∈ l, ∃ b, dec (enc a) = .ok b ∧ g b = a := by
  induction l with
  | nil => simp [pure, Except.pure]
  | cons a l ih =>
    rw [List.map_cons, List.mapM_cons, List.forall_mem_cons, ← ih]
    constructor
    · rintro ⟨l', h, hl'⟩
      obtain ⟨b, hb, h⟩ := bind_ok.1 h
      obtain ⟨bs, hbs, h⟩ := bind_ok.1 h
      cases h
      obtain ⟨hab, hbs'⟩ := List.cons.inj hl'
      exact ⟨⟨b, hb, hab⟩, bs, hbs, hbs'⟩
    · rintro ⟨⟨b, hb, rfl⟩, bs, hbs, rfl⟩
      exact ⟨b :: bs, bind_ok.2 ⟨b, hb, bind_ok.2 ⟨bs, hbs, rfl⟩⟩, rfl⟩

theorem mapM_of_ok {γ : Type} {dec : γ → Except ε α} {enc : α → γ} (h : ∀ a, dec (enc a) = .ok a)
    (l : List α) : (l.map enc).mapM dec = .ok l := by
  obtain ⟨l', hl', heq⟩ := mapM_ok.2 fun a (_ : a ∈ l) => ⟨a, h a, (rfl : id a = a)⟩
  rw [List.map_id] at heq
  rwa [heq] at hl'

theorem exists_of_mapM {f : α → Except ε β} {l : List α} {l' : List β} (h : l.mapM f = .ok l') {b : β}
    (hb : b ∈ l') : ∃ a ∈ l, f a = .ok b := by
  induction l generalizing l' with
  | nil =>
    cases h
    cases hb
  | cons a l ih =>
    rw [List.mapM_cons] at h
    obtain ⟨b', hb', h⟩ := bind_ok.1 h
    obtain ⟨bs, hbs, h⟩ := bind_ok.1 h
    cases h
    rcases List.mem_cons.1 hb with rfl | hb
    · exact ⟨a, List.mem_cons_self, hb'⟩
    · obtain ⟨a', ha', h'⟩ := ih hbs hb
      exact ⟨a', List.mem_cons_of_mem _ ha', h'⟩

end Lib
