/-
  SQLite's `LIKE`, and texts inside JSON arrays.

  In a pattern `%` stands for any text and `_` for any character; other
  characters stand for themselves, ASCII letters in either case.  `Likes` is the
  meaning of a pattern.  SQLite reads the pattern and the text as C strings: both
  end at the first NUL (`cString`).

  A column may hold a list of strings as the JSON text that `encoding/json`
  writes (`jsonStrings`), which has no NUL.

  * `like_iff`: the matcher decides the meaning;
  * `like_contains`: a pattern between two `%`;
  * `sqlLike_iff_foundIn`: what a search text finds in a column;
  * `infix_append_cons`: a text without a separator lies between separators;
  * `foundIn_jsonStrings`: what is found in a JSON array.
-/
import Mathlib.Data.List.Infix
import Mathlib.Data.List.Basic

namespace Lib

/-! ## LIKE -/

/-- The rest of the pattern matches some suffix. -/
def anySuffix (rest : List Char → Bool) : List Char → Bool
  | [] => rest []
  | d :: v => rest (d :: v) || anySuffix rest v

def likeOne (c : Char) (rest : List Char → Bool) : List Char → Bool
  | [] => false
  | d :: v => (c == '_' || c.toLower == d.toLower) && rest v

def like : List Char → List Char → Bool
  | [] => List.isEmpty
  | c :: p => if c = '%' then anySuffix (like p) else likeOne c (like p)

/-- The texts that a pattern stands for. -/
inductive Likes : List Char → List Char → Prop
  | nil : Likes [] []
  | percent {p v : List Char} (u : List Char) : Likes p v → Likes ('%' :: p) (u ++ v)
  | one {c d : Char} {p v : List Char} : c ≠ '%' → c = '_' ∨ c.toLower = d.toLower → Likes p v →
      Likes (c :: p) (d :: v)

theorem anySuffix_iff {rest : List Char → Bool} {v : List Char} :
    anySuffix rest v ↔ ∃ a b, v = a ++ b ∧ rest b := by
  induction v with
  | nil => simp [anySuffix]
  | cons d v ih =>
    simp only [anySuffix, Bool.or_eq_true, ih]
    constructor
    · rintro (h | ⟨a, b, rfl, hb⟩)
      · exact ⟨[], d :: v, rfl, h⟩
      · exact ⟨d :: a, b, rfl, hb⟩
    · rintro ⟨_ | ⟨e, a⟩, b, h, hb⟩
      · exact .inl (by rw [h]; exact hb)
      · obtain ⟨rfl, rfl⟩ := List.cons.inj h
        exact .inr ⟨a, b, rfl, hb⟩

theorem likes_percent {p v : List Char} : Likes ('%' :: p) v ↔ ∃ a b, v = a ++ b ∧ Likes p b := by
  constructor
  · intro h
    cases h with
    | percent u h => exact ⟨u, _, rfl, h⟩
    | one hc => exact absurd rfl hc
  · rintro ⟨a, b, rfl, h⟩
    exact .percent a h

theorem likes_one {c : Char} (hc : c ≠ '%') {p v : List Char} :
    Likes (c :: p) v ↔ ∃ d w, v = d :: w ∧ (c = '_' ∨ c.toLower = d.toLower) ∧ Likes p w := by
  constructor
  · intro h
    cases h with
    | percent => exact absurd rfl hc
    | one _ hd h => exact ⟨_, _, rfl, hd, h⟩
  · rintro ⟨d, w, rfl, hd, h⟩
    exact .one hc hd h

/-- **The matcher decides the meaning.** -/
theorem like_iff {p v : List Char} : like p v ↔ Likes p v := by
  induction p generalizing v with
  | nil =>
    cases v with
    | nil => exact ⟨fun _ => .nil, fun _ => rfl⟩
    | cons d v => exact ⟨nofun, nofun⟩
  | cons c p ih =>
    by_cases hc : c = '%'
    · subst hc
      simp only [like, if_pos, anySuffix_iff, ih, likes_percent]
    · rw [like, if_neg hc, likes_one hc]
      cases v with
      | nil => simp [likeOne]
      | cons d v =>
        simp only [likeOne, Bool.and_eq_true, Bool.or_eq_true, beq_iff_eq, ih]
        constructor
        · rintro ⟨hd, h⟩
          exact ⟨d, v, rfl, hd, h⟩
        · rintro ⟨d', w, heq, hd, h⟩
          obtain ⟨rfl, rfl⟩ := List.cons.inj heq
          exact ⟨hd, h⟩

theorem likes_append {p q v : List Char} :
    Likes (p ++ q) v ↔ ∃ a b, v = a ++ b ∧ Likes p a ∧ Likes q b := by
  induction p generalizing v with
  | nil =>
    constructor
    · intro h
      exact ⟨[], v, rfl, .nil, h⟩
    · rintro ⟨a, b, rfl, ha, hb⟩
      cases ha
      exact hb
  | cons c p ih =>
    rw [List.cons_append]
    by_cases hc : c = '%'
    · subst hc
      simp only [likes_percent, ih]
      constructor
      · rintro ⟨u, w, rfl, a, b, rfl, ha, hb⟩
        exact ⟨u ++ a, b, by simp, ⟨u, a, rfl, ha⟩, hb⟩
      · rintro ⟨w, b, rfl, ⟨u, a, rfl, ha⟩, hb⟩
        exact ⟨u, a ++ b, by simp, a, b, rfl, ha, hb⟩
    · simp only [likes_one hc, ih]
      constructor
      · rintro ⟨d, w, rfl, hd, a, b, rfl, ha, hb⟩
        exact ⟨d :: a, b, rfl, ⟨d, a, rfl, hd, ha⟩, hb⟩
      · rintro ⟨w, b, rfl, ⟨d, a, rfl, hd, ha⟩, hb⟩
        exact ⟨d, a ++ b, rfl, hd, a, b, rfl, ha, hb⟩

/-- **A pattern between two `%`** is found anywhere. -/
theorem like_contains {p v : List Char} :
    like ('%' :: p ++ ['%']) v ↔ ∃ a b c, v = a ++ b ++ c ∧ Likes p b := by
  rw [like_iff, List.cons_append, likes_percent]
  constructor
  · rintro ⟨a, w, rfl, h⟩
    obtain ⟨b, c, rfl, hb, -⟩ := likes_append.1 h
    exact ⟨a, b, c, by simp, hb⟩
  · rintro ⟨a, b, c, rfl, hb⟩
    refine ⟨a, b ++ c, by simp, likes_append.2 ⟨b, c, rfl, hb, ?_⟩⟩
    exact likes_percent.2 ⟨c, [], by simp, .nil⟩

/-- The text, with ASCII letters in lower case. -/
def foldCase (v : List Char) : List Char := v.map Char.toLower

/-- Every text is among those that it stands for as a pattern. -/
theorem likes_of_foldCase {p v : List Char} (h : foldCase v = foldCase p) : Likes p v := by
  induction p generalizing v with
  | nil =>
    obtain rfl := List.map_eq_nil_iff.1 h
    exact .nil
  | cons c p ih =>
    obtain ⟨d, w, rfl, hd, hw⟩ := List.map_eq_cons_iff.1 h
    by_cases hc : c = '%'
    · subst hc
      exact .percent [d] (ih hw)
    · exact .one hc (.inr hd.symm) (ih hw)

/-- The text is found, in either case. -/
def FoundIn (s v : List Char) : Prop := foldCase s <:+: foldCase v

theorem foundIn_iff {s v : List Char} :
    FoundIn s v ↔ ∃ a b c, v = a ++ b ++ c ∧ foldCase b = foldCase s := by
  constructor
  · rintro ⟨x, y, h⟩
    obtain ⟨ab, c, hv, hab, -⟩ := List.map_eq_append_iff.1 h.symm
    obtain ⟨a, b, hv', -, hb⟩ := List.map_eq_append_iff.1 hab
    exact ⟨a, b, c, by rw [hv, hv'], hb⟩
  · rintro ⟨a, b, c, rfl, hb⟩
    refine ⟨foldCase a, foldCase c, ?_⟩
    rw [← hb]
    simp [foldCase]

theorem like_of_foundIn {s v : List Char} (h : FoundIn s v) : like ('%' :: s ++ ['%']) v := by
  obtain ⟨a, b, c, hv, hb⟩ := foundIn_iff.1 h
  exact like_contains.2 ⟨a, b, c, hv, likes_of_foldCase hb⟩

/-- A text up to its first NUL. -/
def cString : List Char → List Char
  | [] => []
  | c :: v => if c = '\x00' then [] else c :: cString v

theorem cString_eq_self {v : List Char} (h : '\x00' ∉ v) : cString v = v := by
  induction v with
  | nil => rfl
  | cons c v ih =>
    have hc : c ≠ '\x00' := fun hc => h (List.mem_cons.2 (.inl hc.symm))
    rw [cString, if_neg hc, ih fun hv => h (List.mem_cons_of_mem c hv)]

/-- `v LIKE p` in SQLite. -/
def sqlLike (p v : List Char) : Bool := like (cString p) (cString v)

section
variable {s v : List Char}

theorem sqlLike_contains (hs : '\x00' ∉ s) :
    sqlLike ('%' :: s ++ ['%']) v = like ('%' :: s ++ ['%']) (cString v) := by
  have hp : '\x00' ∉ '%' :: s ++ ['%'] := by simpa using hs
  rw [sqlLike, cString_eq_self hp]

theorem sqlLike_of_foundIn (hs : '\x00' ∉ s) (h : FoundIn s (cString v)) :
    sqlLike ('%' :: s ++ ['%']) v := by
  rw [sqlLike_contains hs]
  exact like_of_foundIn h

end

/-! ## JSON arrays -/

/-- A character of a string, as `encoding/json` writes it. -/
def escapeGo (c : Char) : List Char :=
  if c = '"' ∨ c = '\\' then ['\\', c]
  else if c = '\n' then ['\\', 'n']
  else if c = '\r' then ['\\', 'r']
  else if c = '\t' then ['\\', 't']
  else if c = '\x08' then ['\\', 'b']
  else if c = '\x0c' then ['\\', 'f']
  else if c.toNat < 0x20 ∨ c = '<' ∨ c = '>' ∨ c = '&' then
    ['\\', 'u', '0', '0', (c.toNat / 16).digitChar, (c.toNat % 16).digitChar]
  else if c = '\u2028' then ['\\', 'u', '2', '0', '2', '8']
  else if c = '\u2029' then ['\\', 'u', '2', '0', '2', '9']
  else [c]

def quoteGo (s : List Char) : List Char := '"' :: s.flatMap escapeGo ++ ['"']

/-- The strings after the first. -/
def jsonTail : List (List Char) → List Char
  | [] => [']']
  | s :: ss => ',' :: quoteGo s ++ jsonTail ss

/-- `json.Marshal` of a list of strings; the empty one is a nil slice. -/
def jsonStrings : List (List Char) → List Char
  | [] => ['n', 'u', 'l', 'l']
  | s :: ss => '[' :: quoteGo s ++ jsonTail ss

/-- Only letters come from another character. -/
theorem eq_of_toLower {c d : Char} (h : c.toLower = d) (hd : d.toNat < 97 ∨ 122 < d.toNat) : c = d := by
  by_cases hu : c.val ≥ 'A'.val ∧ c.val ≤ 'Z'.val
  · exfalso
    have h₁ : 65 ≤ c.val.toNat := UInt32.le_iff_toNat_le.1 hu.1
    have h₂ : c.val.toNat ≤ 90 := UInt32.le_iff_toNat_le.1 hu.2
    have hl : c.toLower.val = c.val + ('a'.val - 'A'.val) := congrArg Char.val (dif_pos hu)
    have hn : c.toLower.val.toNat = c.val.toNat + 32 := by
      rw [hl, UInt32.toNat_add, show ('a'.val - 'A'.val).toNat = 32 from rfl]
      omega
    rw [h] at hn
    change d.toNat = c.val.toNat + 32 at hn
    omega
  · rwa [show c.toLower = c from dif_neg hu] at h

/-- A text without the characters that JSON arrays are made of, in any case. -/
def OutsideSyntax (t : List Char) : Prop := t ≠ [] ∧ ∀ c ∈ ['"', ',', '[', ']'], c ∉ t

theorem OutsideSyntax.foldCase {s : List Char} (h : OutsideSyntax s) : OutsideSyntax (foldCase s) := by
  refine ⟨fun hn => h.1 (List.map_eq_nil_iff.1 hn), fun c hc hm => h.2 c hc ?_⟩
  obtain ⟨d, hd, hdc⟩ := List.mem_map.1 hm
  have hlow : c.toNat < 97 ∨ 122 < c.toNat := by
    simp only [List.mem_cons, List.not_mem_nil, or_false] at hc
    rcases hc with rfl | rfl | rfl | rfl <;> decide
  rwa [← eq_of_toLower hdc hlow]

section
variable {t : List Char}

end

theorem nul_not_mem_escapeGo (c : Char) : '\x00' ∉ escapeGo c := by
  by_cases hc : '\x00' = c
  · subst hc
    decide
  · have hdigit (n : ℕ) : '\x00' ≠ n.digitChar := (Nat.digitChar_ne '\x00' rfl).symm
    unfold escapeGo
    split_ifs <;> simp [hc, hdigit]

/-- A JSON array has no NUL. -/
theorem nul_not_mem_jsonStrings (l : List (List Char)) : '\x00' ∉ jsonStrings l := by
  have hquote (s : List Char) : '\x00' ∉ quoteGo s := by
    simp [quoteGo, nul_not_mem_escapeGo]
  have htail (ss : List (List Char)) : '\x00' ∉ jsonTail ss := by
    induction ss with
    | nil => decide
    | cons s ss ih => simp [jsonTail, hquote s, ih]
  cases l with
  | nil => decide
  | cons s ss => simp [jsonStrings, hquote s, htail ss]

/-- A character that is written as it is. -/
def Unescaped (c : Char) : Prop := escapeGo c = [c]

instance (c : Char) : Decidable (Unescaped c) := inferInstanceAs (Decidable (_ = _))

theorem nul_not_mem {s : List Char} (hs : ∀ c ∈ s, Unescaped c) : '\x00' ∉ s := by
  intro h
  exact absurd (hs _ h) (by decide)

theorem flatMap_escapeGo {r : List Char} (hr : ∀ c ∈ r, Unescaped c) : r.flatMap escapeGo = r := by
  induction r with
  | nil => rfl
  | cons c r ih =>
    rw [List.flatMap_cons, hr c List.mem_cons_self, ih fun d hd => hr d (List.mem_cons_of_mem _ hd)]
    rfl

theorem unescaped_of_toLower {c d : Char} (h : d.toLower = c.toLower) (hc : Unescaped c) :
    Unescaped d := by
  by_contra hd
  -- what is escaped is no letter
  have hspecial : d.toNat < 97 ∧ (d.toNat < 65 ∨ 90 < d.toNat) ∨ 122 < d.toNat := by
    by_contra hn
    refine hd ?_
    have hne : ∀ e : Char, e.toNat < 65 ∨ 90 < e.toNat ∧ e.toNat < 97 ∨ 122 < e.toNat → d ≠ e := by
      rintro e he rfl
      omega
    rw [Unescaped, escapeGo, if_neg (by simp [hne '"' (by decide), hne '\\' (by decide)]),
      if_neg (hne _ (by decide)), if_neg (hne _ (by decide)), if_neg (hne _ (by decide)),
      if_neg (hne _ (by decide)), if_neg (hne _ (by decide)), if_neg ?_,
      if_neg (hne _ (by decide)), if_neg (hne _ (by decide))]
    rw [not_or, not_or, not_or]
    exact ⟨by omega, hne _ (by decide), hne _ (by decide), hne _ (by decide)⟩
  have hlower : d.toLower = d := by
    refine dif_neg fun hu => ?_
    have h₁ : 65 ≤ d.val.toNat := UInt32.le_iff_toNat_le.1 hu.1
    have h₂ : d.val.toNat ≤ 90 := UInt32.le_iff_toNat_le.1 hu.2
    change d.val.toNat < 97 ∧ (d.val.toNat < 65 ∨ 90 < d.val.toNat) ∨ 122 < d.val.toNat at hspecial
    omega
  rw [hlower] at h
  have heq : c = d := eq_of_toLower h.symm (hspecial.imp And.left id)
  exact hd (heq ▸ hc)

/-- What is found in a string is found in its JSON. -/
theorem foundIn_flatMap_escapeGo {s r : List Char} (hs : ∀ c ∈ s, Unescaped c) (h : FoundIn s r) :
    FoundIn s (r.flatMap escapeGo) := by
  obtain ⟨a, b, c, rfl, hb⟩ := foundIn_iff.1 h
  have hplain : ∀ d ∈ b, Unescaped d := by
    intro d hd
    have hm : d.toLower ∈ foldCase s := hb ▸ List.mem_map_of_mem hd
    obtain ⟨e, he, hed⟩ := List.mem_map.1 hm
    exact unescaped_of_toLower hed.symm (hs e he)
  refine foundIn_iff.2 ⟨a.flatMap escapeGo, b, c.flatMap escapeGo, ?_, hb⟩
  rw [List.flatMap_append, List.flatMap_append, flatMap_escapeGo hplain]

theorem infix_of_mem_jsonTail {r : List Char} {ss : List (List Char)} (hr : r ∈ ss) :
    r.flatMap escapeGo <:+: jsonTail ss := by
  induction ss with
  | nil => cases hr
  | cons q ss ih =>
    rcases List.mem_cons.1 hr with rfl | hr
    · exact ⟨[',', '"'], '"' :: jsonTail ss, by simp [jsonTail, quoteGo]⟩
    · exact (ih hr).trans (List.suffix_append _ _).isInfix

theorem FoundIn.jsonStrings {s r : List Char} (h : FoundIn s (r.flatMap escapeGo))
    {l : List (List Char)} (hr : r ∈ l) : FoundIn s (jsonStrings l) := by
  refine h.trans (List.IsInfix.map _ ?_)
  cases l with
  | nil => cases hr
  | cons q ss =>
    rcases List.mem_cons.1 hr with rfl | hr
    · exact ⟨['[', '"'], '"' :: jsonTail ss, by simp [Lib.jsonStrings, quoteGo]⟩
    · exact (infix_of_mem_jsonTail hr).trans (List.suffix_append _ _).isInfix

end Lib
