/-
  Globs, as in Go's `path.Match`.

      pattern:  { term }
      term:     '*'                                 any text without slashes
                '?'                                 any character but a slash
                '[' [ '^' ] { character-range } ']'
                c                                   the character c (not * ? [ or backslash)
                backslash c                         the character c
      range:    c | backslash c | lo '-' hi

  `Glob.parse` reads a pattern, or reports a bad one, and `Glob.matches` runs
  it, with backtracking at the stars; the whole name has to match.  `Denotes` is
  the meaning of a pattern.

  * `matches_iff`: the matcher decides the meaning;
  * `terms_literal`: characters without a meaning of their own;
  * `terms_map`: a map that keeps the syntax, such as to lower case, gives the
    mapped terms.
-/
import Mathlib.Data.List.Basic

namespace Lib

namespace Glob

inductive Term where
  | star
  | any
  | lit (c : Char)
  | range (negated : Bool) (ranges : List (Char × Char))
  deriving DecidableEq, Repr

/-- A term other than a star accepts one character. -/
def Term.accepts : Term → Char → Bool
  | star, _ => false
  | any, c => c != '/'
  | lit d, c => c == d
  | range negated ranges, c => (ranges.any fun r => r.1 ≤ c && c ≤ r.2) != negated

/-! ## Reading a pattern -/

/-- `getEsc`: a character of a range, maybe escaped; the range has to go on. -/
def getEsc : List Char → Option (Char × List Char)
  | '-' :: _ | ']' :: _ => none
  | '\\' :: c :: c' :: cs => some (c, c' :: cs)
  | '\\' :: _ => none
  | c :: c' :: cs => some (c, c' :: cs)
  | _ => none

/-- The ranges up to `]`, at least one; `fuel` bounds their number. -/
def ranges : ℕ → List Char → Option (List (Char × Char) × List Char)
  | 0, _ => none
  | fuel + 1, cs => do
    let (lo, cs) ← getEsc cs
    let (hi, cs) ← match cs with
      | '-' :: cs => getEsc cs
      | cs => some (lo, cs)
    match cs with
    | ']' :: cs => some ([(lo, hi)], cs)
    | cs => do
      let (rs, cs) ← ranges fuel cs
      some ((lo, hi) :: rs, cs)

/-- The terms of a pattern; `none` for `ErrBadPattern`.  Every term takes a
    character, so the length of the pattern is enough fuel. -/
def terms : ℕ → List Char → Option (List Term)
  | _, [] => some []
  | 0, _ => none
  | fuel + 1, c :: cs =>
    match c, cs with
    | '*', cs => (terms fuel cs).map (.star :: ·)
    | '?', cs => (terms fuel cs).map (.any :: ·)
    | '\\', c :: cs => (terms fuel cs).map (.lit c :: ·)
    | '\\', [] => none
    | '[', '^' :: cs => do
      let (rs, cs) ← ranges cs.length cs
      (terms fuel cs).map (.range true rs :: ·)
    | '[', cs => do
      let (rs, cs) ← ranges cs.length cs
      (terms fuel cs).map (.range false rs :: ·)
    | c, cs => (terms fuel cs).map (.lit c :: ·)

def parse (pattern : String) : Option (List Term) := terms pattern.toList.length pattern.toList

/-! ## Matching -/

/-- A star before the rest of a pattern. -/
def starMatch (rest : List Char → Bool) : List Char → Bool
  | [] => rest []
  | c :: cs => rest (c :: cs) || (c != '/' && starMatch rest cs)

/-- A term other than a star before the rest of a pattern. -/
def oneMatch (t : Term) (rest : List Char → Bool) : List Char → Bool
  | [] => false
  | c :: cs => t.accepts c && rest cs

def «matches» : List Term → List Char → Bool
  | [] => List.isEmpty
  | .star :: ts => starMatch («matches» ts)
  | t :: ts => oneMatch t («matches» ts)

end Glob

/-- `path.Match`; `none` for a bad pattern. -/
def pathMatch (pattern name : String) : Option Bool :=
  (Glob.parse pattern).map fun ts => Glob.matches ts name.toList

namespace Glob

/-! ## Meaning -/

/-- The names that a pattern stands for. -/
inductive Denotes : List Term → List Char → Prop
  | nil : Denotes [] []
  | star {ts : List Term} {cs ds : List Char} : '/' ∉ cs → Denotes ts ds → Denotes (.star :: ts) (cs ++ ds)
  | one {t : Term} {ts : List Term} {c : Char} {cs : List Char} : t.accepts c → Denotes ts cs →
      Denotes (t :: ts) (c :: cs)

theorem starMatch_iff {rest : List Char → Bool} {cs : List Char} :
    starMatch rest cs ↔ ∃ a b, cs = a ++ b ∧ '/' ∉ a ∧ rest b := by
  induction cs with
  | nil =>
    constructor
    · intro h
      exact ⟨[], [], rfl, by simp, h⟩
    · rintro ⟨a, b, h, -, hb⟩
      obtain ⟨rfl, rfl⟩ := List.append_eq_nil_iff.1 h.symm
      exact hb
  | cons c cs ih =>
    simp only [starMatch, Bool.or_eq_true, Bool.and_eq_true, bne_iff_ne, ih]
    constructor
    · rintro (h | ⟨hc, a, b, rfl, ha, hb⟩)
      · exact ⟨[], c :: cs, rfl, by simp, h⟩
      · refine ⟨c :: a, b, rfl, ?_, hb⟩
        rw [List.mem_cons, not_or]
        exact ⟨hc.symm, ha⟩
    · rintro ⟨_ | ⟨d, a⟩, b, h, ha, hb⟩
      · exact .inl (by rw [h]; exact hb)
      · obtain ⟨rfl, rfl⟩ := List.cons.inj h
        rw [List.mem_cons, not_or] at ha
        exact .inr ⟨Ne.symm ha.1, a, b, rfl, ha.2, hb⟩

/-- **The matcher decides the meaning.** -/
theorem matches_iff {ts : List Term} {cs : List Char} : «matches» ts cs ↔ Denotes ts cs := by
  induction ts generalizing cs with
  | nil =>
    cases cs with
    | nil => exact ⟨fun _ => .nil, fun _ => rfl⟩
    | cons c cs => exact ⟨nofun, nofun⟩
  | cons t ts ih =>
    have hone (t : Term) (ht : t ≠ .star) : oneMatch t («matches» ts) cs ↔ Denotes (t :: ts) cs := by
      cases cs with
      | nil =>
        refine ⟨nofun, fun h => ?_⟩
        generalize hd : ([] : List Char) = ds at h
        cases h with
        | star => exact absurd rfl ht
        | one => cases hd
      | cons c cs =>
        rw [oneMatch, Bool.and_eq_true, ih]
        constructor
        · rintro ⟨hc, h⟩; exact .one hc h
        · intro h
          generalize hd : c :: cs = ds at h
          cases h with
          | star => exact absurd rfl ht
          | one hc h => cases hd; exact ⟨hc, h⟩
    cases t with
    | star =>
      rw [«matches», starMatch_iff]
      simp only [ih]
      constructor
      · rintro ⟨a, b, rfl, ha, hb⟩; exact .star ha hb
      · intro h
        cases h with
        | star ha hb => exact ⟨_, _, rfl, ha, hb⟩
        | one hc => cases hc
    | any => exact hone .any nofun
    | lit c => exact hone (.lit c) nofun
    | range n rs => exact hone (.range n rs) nofun

/-! ## Literal text -/

/-- The characters with a meaning of their own outside a range. -/
def special (c : Char) : Bool := c = '*' || c = '?' || c = '[' || c = '\\'

theorem terms_lit {c : Char} (hc : special c = false) (fuel : ℕ) (cs : List Char) :
    terms (fuel + 1) (c :: cs) = (terms fuel cs).map (.lit c :: ·) := by
  simp only [special, Bool.or_eq_false_iff, decide_eq_false_iff_not] at hc
  obtain ⟨⟨⟨h₁, h₂⟩, h₃⟩, h₄⟩ := hc
  rw [terms] <;> intros <;> simp_all

/-- Other characters stand for themselves. -/
theorem terms_literal {cs : List Char} (hcs : ∀ c ∈ cs, special c = false) (fuel : ℕ)
    (ds : List Char) :
    terms (cs.length + fuel) (cs ++ ds) = (terms fuel ds).map (cs.map .lit ++ ·) := by
  induction cs with
  | nil =>
    rw [List.length_nil, Nat.zero_add, List.nil_append]
    cases terms fuel ds <;> rfl
  | cons c cs ih =>
    rw [List.length_cons, Nat.add_right_comm, List.cons_append,
      terms_lit (hcs c List.mem_cons_self), ih fun c' hc' => hcs c' (List.mem_cons_of_mem _ hc'),
      Option.map_map]
    rfl

theorem denotes_literal {cs : List Char} {ts : List Term} {ds : List Char} :
    Denotes (cs.map .lit ++ ts) ds ↔ ∃ b, ds = cs ++ b ∧ Denotes ts b := by
  induction cs generalizing ds with
  | nil => simp
  | cons c cs ih =>
    constructor
    · intro h
      cases h with
      | one hc h =>
        obtain ⟨b, rfl, hb⟩ := ih.1 h
        rw [eq_of_beq hc]
        exact ⟨b, rfl, hb⟩
    · rintro ⟨b, rfl, hb⟩
      exact .one (beq_self_eq_true c) (ih.2 ⟨b, rfl, hb⟩)

/-- **A literal between two stars** matches where it stands without slashes on
    either side. -/
theorem pathMatch_starred {s : List Char} (hs : ∀ c ∈ s, special c = false) (name : String) :
    ∃ hit, pathMatch (String.ofList ('*' :: s ++ ['*'])) name = some hit ∧
      (hit ↔ ∃ a b, name.toList = a ++ s ++ b ∧ '/' ∉ a ∧ '/' ∉ b) := by
  have hp : parse (String.ofList ('*' :: s ++ ['*'])) = some (.star :: (s.map .lit ++ [.star])) := by
    have ht : terms (s.length + 1) (s ++ ['*']) = some (s.map .lit ++ [.star]) := by
      rw [terms_literal hs 1]
      rfl
    simp only [parse, String.toList_ofList, List.cons_append, List.length_cons, List.length_append,
      List.length_nil, Nat.zero_add, terms, ht, Option.map_some]
  refine ⟨_, by rw [pathMatch, hp]; rfl, ?_⟩
  rw [matches_iff]
  constructor
  · intro h
    generalize hd : name.toList = ds at h
    cases h with
    | star ha h =>
      obtain ⟨b, rfl, hb⟩ := denotes_literal.1 h
      generalize hb' : b = bs at hb
      cases hb with
      | star hb hn =>
        cases hn
        exact ⟨_, b, by rw [hb', List.append_assoc], ha, by simpa [hb'] using hb⟩
      | one hc => cases hc
    | one hc => cases hc
  · rintro ⟨a, b, h, ha, hb⟩
    rw [h, List.append_assoc]
    refine .star ha (denotes_literal.2 ⟨b, rfl, ?_⟩)
    have := Denotes.star hb .nil
    rwa [List.append_nil] at this

/-! ## Maps of characters -/

/-- A map that keeps the characters with a meaning, and gives them for nothing
    else. -/
def KeepsSyntax (f : Char → Char) : Prop :=
  ∀ s ∈ ['*', '?', '[', '\\', '^', ']', '-', '/'], ∀ c, f c = s ↔ c = s

def Term.map (f : Char → Char) : Term → Term
  | star => star
  | any => any
  | lit c => lit (f c)
  | range negated ranges => range negated (ranges.map (Prod.map f f))

theorem getEsc_of_ne {c : Char} (h₁ : c ≠ '-') (h₂ : c ≠ ']') (h₃ : c ≠ '\\') (cs : List Char) :
    getEsc (c :: cs) = cs.head?.map fun _ => (c, cs) := by
  cases cs with
  | nil => rw [getEsc] <;> simp_all
  | cons c' cs =>
    rw [getEsc]
    · rfl
    all_goals simp_all

/-- The second character of a range, if there is one. -/
def rangeEnd (lo : Char) (cs : List Char) : Option (Char × List Char) :=
  match cs with
  | '-' :: cs => getEsc cs
  | cs => some (lo, cs)

theorem rangeEnd_of_ne {lo c : Char} (h : c ≠ '-') (cs : List Char) :
    rangeEnd lo (c :: cs) = some (lo, c :: cs) := by
  rw [rangeEnd]
  intro cs' heq
  exact h (List.cons.inj heq).1

/-- What follows a range. -/
def rangesAfter (fuel : ℕ) (r : Char × Char) (cs : List Char) : Option (List (Char × Char) × List Char) :=
  match cs with
  | ']' :: cs => some ([r], cs)
  | cs => (ranges fuel cs).map fun p => (r :: p.1, p.2)

theorem rangesAfter_of_ne {c : Char} (h : c ≠ ']') (fuel : ℕ) (r : Char × Char) (cs : List Char) :
    rangesAfter fuel r (c :: cs) = (ranges fuel (c :: cs)).map fun p => (r :: p.1, p.2) := by
  rw [rangesAfter]
  intro cs' heq
  exact h (List.cons.inj heq).1

theorem ranges_succ (fuel : ℕ) (cs : List Char) :
    ranges (fuel + 1) cs = (getEsc cs).bind fun p =>
      (rangeEnd p.1 p.2).bind fun q => rangesAfter fuel (p.1, q.1) q.2 := by
  have hafter (r : Char × Char) (cs : List Char) :
      (match cs with
        | ']' :: cs => some ([r], cs)
        | cs => (ranges fuel cs).bind fun p => some (r :: p.1, p.2)) = rangesAfter fuel r cs := by
    unfold rangesAfter
    split
    · rfl
    · cases ranges fuel _ with
      | none => rfl
      | some p => rfl
  rw [ranges]
  cases getEsc cs with
  | none => rfl
  | some p =>
    obtain ⟨lo, cs⟩ := p
    simp only [Option.bind_eq_bind, Option.bind_some]
    split
    next cs => exact congrArg (Option.bind (getEsc cs)) (funext fun q => hafter (lo, q.1) q.2)
    next hno =>
      have hend : rangeEnd lo cs = some (lo, cs) := by
        rw [rangeEnd]
        exact hno
      rw [hend]
      exact hafter (lo, lo) cs

section
variable {f : Char → Char}

theorem KeepsSyntax.self (hf : KeepsSyntax f) {s : Char}
    (hs : s ∈ ['*', '?', '[', '\\', '^', ']', '-', '/']) : f s = s :=
  (hf s hs s).2 rfl

theorem KeepsSyntax.ne (hf : KeepsSyntax f) {s c : Char}
    (hs : s ∈ ['*', '?', '[', '\\', '^', ']', '-', '/']) (h : c ≠ s) : f c ≠ s :=
  fun heq => h ((hf s hs c).1 heq)

theorem getEsc_map (hf : KeepsSyntax f) (cs : List Char) :
    getEsc (cs.map f) = (getEsc cs).map (Prod.map f (List.map f)) := by
  cases cs with
  | nil => rfl
  | cons c cs =>
    rw [List.map_cons]
    by_cases h₁ : c = '-'
    · rw [h₁, hf.self (by simp)]
      rfl
    by_cases h₂ : c = ']'
    · rw [h₂, hf.self (by simp)]
      rfl
    by_cases h₃ : c = '\\'
    · rw [h₃, hf.self (by simp)]
      rcases cs with _ | ⟨c₁, _ | ⟨c₂, cs⟩⟩
      · rfl
      · rfl
      · rfl
    · rw [getEsc_of_ne (hf.ne (by simp) h₁) (hf.ne (by simp) h₂) (hf.ne (by simp) h₃),
        getEsc_of_ne h₁ h₂ h₃]
      cases cs with
      | nil => rfl
      | cons c' cs => rfl

theorem rangeEnd_map (hf : KeepsSyntax f) (lo : Char) (cs : List Char) :
    rangeEnd (f lo) (cs.map f) = (rangeEnd lo cs).map (Prod.map f (List.map f)) := by
  cases cs with
  | nil => rfl
  | cons c cs =>
    rw [List.map_cons]
    by_cases h : c = '-'
    · have hdash : f '-' = '-' := hf.self (by simp)
      rw [h, hdash]
      exact getEsc_map hf cs
    · rw [rangeEnd_of_ne (hf.ne (by simp) h), rangeEnd_of_ne h]
      rfl

theorem ranges_map (hf : KeepsSyntax f) (fuel : ℕ) (cs : List Char) :
    ranges fuel (cs.map f) = (ranges fuel cs).map (Prod.map (List.map (Prod.map f f)) (List.map f)) := by
  induction fuel generalizing cs with
  | zero => rfl
  | succ fuel ih =>
    have hafter (r : Char × Char) (cs : List Char) : rangesAfter fuel (Prod.map f f r) (cs.map f) =
        (rangesAfter fuel r cs).map (Prod.map (List.map (Prod.map f f)) (List.map f)) := by
      have hrec : ((ranges fuel (cs.map f)).map fun p => (Prod.map f f r :: p.1, p.2)) =
          ((ranges fuel cs).map fun p => (r :: p.1, p.2)).map
            (Prod.map (List.map (Prod.map f f)) (List.map f)) := by
        rw [ih, Option.map_map, Option.map_map]
        rfl
      cases cs with
      | nil => exact hrec
      | cons c cs =>
        rw [List.map_cons] at hrec ⊢
        by_cases h : c = ']'
        · rw [h, hf.self (by simp)]
          rfl
        · rw [rangesAfter_of_ne (hf.ne (by simp) h), rangesAfter_of_ne h]
          exact hrec
    rw [ranges_succ, ranges_succ, getEsc_map hf]
    cases getEsc cs with
    | none => rfl
    | some p =>
      simp only [Option.map_some, Option.bind_some, Prod.map_fst, Prod.map_snd, rangeEnd_map hf]
      cases rangeEnd p.1 p.2 with
      | none => rfl
      | some q =>
        simp only [Option.map_some, Option.bind_some, Prod.map_fst, Prod.map_snd]
        exact hafter (p.1, q.1) q.2

/-- **A mapped pattern has the mapped terms.** -/
theorem terms_map (hf : KeepsSyntax f) (fuel : ℕ) (cs : List Char) :
    terms fuel (cs.map f) = (terms fuel cs).map (List.map (Term.map f)) := by
  induction fuel generalizing cs with
  | zero =>
    cases cs with
    | nil => rfl
    | cons c cs => rfl
  | succ fuel ih =>
    have hcons (t : Term) (cs : List Char) : (terms fuel (cs.map f)).map (Term.map f t :: ·) =
        ((terms fuel cs).map (t :: ·)).map (List.map (Term.map f)) := by
      rw [ih, Option.map_map, Option.map_map]
      rfl
    have hrange (negated : Bool) (cs : List Char) :
        ((ranges (cs.map f).length (cs.map f)).bind fun p =>
          (terms fuel p.2).map (.range negated p.1 :: ·)) =
        ((ranges cs.length cs).bind fun p =>
          (terms fuel p.2).map (.range negated p.1 :: ·)).map (List.map (Term.map f)) := by
      rw [List.length_map, ranges_map hf]
      cases ranges cs.length cs with
      | none => rfl
      | some p => exact hcons (.range negated p.1) p.2
    cases cs with
    | nil => rfl
    | cons c cs =>
      rw [List.map_cons]
      by_cases h₁ : c = '*'
      · rw [h₁, hf.self (by simp)]
        exact hcons .star cs
      by_cases h₂ : c = '?'
      · rw [h₂, hf.self (by simp)]
        exact hcons .any cs
      by_cases h₃ : c = '\\'
      · rw [h₃, hf.self (by simp)]
        cases cs with
        | nil => rfl
        | cons c cs => exact hcons (.lit c) cs
      by_cases h₄ : c = '['
      · rw [h₄, hf.self (by simp)]
        cases cs with
        | nil => rfl
        | cons c cs =>
          rw [List.map_cons]
          by_cases h : c = '^'
          · rw [h, hf.self (by simp)]
            exact hrange true cs
          · have hne := hf.ne (by simp) h
            have hplain {c : Char} (h : c ≠ '^') (cs : List Char) : terms (fuel + 1) ('[' :: c :: cs) =
                (ranges (c :: cs).length (c :: cs)).bind fun p =>
                  (terms fuel p.2).map (.range false p.1 :: ·) := by
              rw [terms]
              · rfl
              · intro cs' heq
                exact h (List.cons.inj heq).1
            rw [hplain hne, hplain h, ← List.map_cons]
            exact hrange false (c :: cs)
      · have hspecial {c : Char} (h₁ : c ≠ '*') (h₂ : c ≠ '?') (h₃ : c ≠ '\\') (h₄ : c ≠ '[') :
            special c = false := by
          simp [special, h₁, h₂, h₃, h₄]
        rw [terms_lit (hspecial h₁ h₂ h₃ h₄), terms_lit (hspecial (hf.ne (by simp) h₁) (hf.ne (by simp) h₂)
          (hf.ne (by simp) h₃) (hf.ne (by simp) h₄))]
        exact hcons (.lit c) cs

/-- Without ranges, a mapped name is one of a mapped pattern. -/
theorem Denotes.map (hf : KeepsSyntax f) {ts : List Term} {cs : List Char}
    (hts : ∀ negated rs, Term.range negated rs ∉ ts) (h : Denotes ts cs) :
    Denotes (ts.map (Term.map f)) (cs.map f) := by
  induction h with
  | nil => exact .nil
  | @star ts cs ds hcs _ ih =>
    have hslash : '/' ∉ cs.map f := by
      intro hmem
      obtain ⟨c, hc, heq⟩ := List.mem_map.1 hmem
      rw [(hf '/' (by simp) c).1 heq] at hc
      exact hcs hc
    rw [List.map_append]
    exact .star hslash (ih fun negated rs hr => hts negated rs (List.mem_cons_of_mem _ hr))
  | @one t ts c cs hc _ ih =>
    refine .one ?_ (ih fun negated rs hr => hts negated rs (List.mem_cons_of_mem _ hr))
    cases t with
    | star => cases hc
    | any => exact bne_iff_ne.2 (hf.ne (by simp) (bne_iff_ne.1 hc))
    | lit d =>
      rw [eq_of_beq hc]
      exact beq_self_eq_true (f d)
    | range negated rs => exact absurd List.mem_cons_self (hts negated rs)

end

end Glob

end Lib
