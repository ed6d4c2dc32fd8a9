/-
  Paths of URLs: lexical cleaning and percent escapes.

  * `resolve` keeps the segments of a rooted path that `.` and `..` leave over,
    `cleanRooted` joins them again;
  * `escapeNonASCII` writes every byte outside ASCII as an escape, and
    `unescape` reads the escapes of a path: `unescape_escapeNonASCII`.
-/
import Mathlib.Data.List.Basic
import Mathlib.Data.List.TakeWhile

namespace Lib

/-! ## Dot segments -/

/-- One segment of a rooted path on the segments kept so far, the last first. -/
def resolveStep (kept : List (List Char)) (seg : List Char) : List (List Char) :=
  if seg = [] ∨ seg = ['.'] then kept
  else if seg = ['.', '.'] then kept.tail
  else seg :: kept

/-- The segments that are left of a rooted path, in order. -/
def resolve (path : List Char) : List (List Char) :=
  ((path.splitOn '/').foldl resolveStep []).reverse

/-- `path.Clean` of a path that begins with `/`. -/
def cleanRooted (path : List Char) : List Char :=
  match resolve path with
  | [] => ['/']
  | seg :: segs => (seg :: segs).flatMap ('/' :: ·)

theorem mem_of_mem_splitOn {sep : Char} {cs seg : List Char} (h : seg ∈ cs.splitOn sep) :
    ∀ c ∈ seg, c ∈ cs ∧ c ≠ sep := by
  induction cs generalizing seg with
  | nil =>
    rw [List.splitOn_nil, List.mem_singleton] at h
    simp [h]
  | cons d cs ih =>
    obtain ⟨first, rest, hsplit⟩ := List.exists_cons_of_ne_nil (List.splitOn_ne_nil sep cs)
    rw [List.splitOn_cons_eq_if_modifyHead, hsplit] at h
    rw [hsplit] at ih
    intro c hc
    split at h
    next =>
      rcases List.mem_cons.1 h with rfl | h
      · cases hc
      · exact ⟨.tail _ (ih h c hc).1, (ih h c hc).2⟩
    next hd =>
      rw [List.modifyHead_cons] at h
      rcases List.mem_cons.1 h with rfl | h
      · rcases List.mem_cons.1 hc with rfl | hc
        · exact ⟨.head _, by simpa using hd⟩
        · exact ⟨.tail _ (ih (.head _) c hc).1, (ih (.head _) c hc).2⟩
      · exact ⟨.tail _ (ih (.tail _ h) c hc).1, (ih (.tail _ h) c hc).2⟩

theorem resolveStep_keeps {kept : List (List Char)} {seg s : List Char}
    (h : s ∈ resolveStep kept seg) : s ∈ kept ∨ s = seg ∧ s ≠ [] := by
  unfold resolveStep at h
  split at h
  next => exact .inl h
  next hseg =>
    split at h
    next => exact .inl (List.mem_of_mem_tail h)
    next =>
      rcases List.mem_cons.1 h with rfl | h
      · exact .inr ⟨rfl, fun h => hseg (.inl h)⟩
      · exact .inl h

theorem foldl_resolveStep_keeps {segs kept : List (List Char)} {s : List Char}
    (h : s ∈ segs.foldl resolveStep kept) : s ∈ kept ∨ s ∈ segs ∧ s ≠ [] := by
  induction segs generalizing kept with
  | nil => exact .inl h
  | cons seg segs ih =>
    rcases ih h with h | ⟨h, hne⟩
    · exact (resolveStep_keeps h).imp_right fun ⟨heq, hne⟩ => ⟨heq ▸ .head _, hne⟩
    · exact .inr ⟨.tail _ h, hne⟩

/-- A kept segment is a segment of the path, and not the empty one. -/
theorem mem_resolve {path seg : List Char} (h : seg ∈ resolve path) :
    seg ≠ [] ∧ ∀ c ∈ seg, c ∈ path ∧ c ≠ '/' := by
  rw [resolve, List.mem_reverse] at h
  rcases foldl_resolveStep_keeps h with h | ⟨h, hne⟩
  · cases h
  · exact ⟨hne, mem_of_mem_splitOn h⟩

theorem mem_cleanRooted {path : List Char} {c : Char} (h : c ∈ cleanRooted path) :
    c = '/' ∨ c ∈ path := by
  unfold cleanRooted at h
  split at h
  next => exact .inl (List.mem_singleton.1 h)
  next hres =>
    obtain ⟨s, hs, hc⟩ := List.mem_flatMap.1 h
    refine (List.mem_cons.1 hc).imp_right fun hc => ((mem_resolve ?_).2 c hc).1
    rw [hres]
    exact hs

/-- A cleaned path ends with `/` if nothing is left of it only. -/
theorem cleanRooted_getLast? (path : List Char) :
    (cleanRooted path).getLast? = some '/' ↔ resolve path = [] := by
  rw [cleanRooted]
  rcases hres : resolve path with _ | ⟨seg, segs⟩
  · simp
  · obtain ⟨init, last, hlast⟩ : ∃ init last, seg :: segs = init ++ [last] :=
      ⟨_, _, (List.dropLast_append_getLast (List.cons_ne_nil seg segs)).symm⟩
    have hmem : last ∈ resolve path := by rw [hres, hlast]; simp
    obtain ⟨hne, hchars⟩ := mem_resolve hmem
    obtain ⟨front, c, rfl⟩ : ∃ front c, last = front ++ [c] :=
      ⟨_, _, (List.dropLast_append_getLast hne).symm⟩
    have hc : c ≠ '/' := (hchars c (by simp)).2
    simp only [hlast, List.flatMap_append, List.flatMap_cons, List.flatMap_nil, List.append_nil,
      ← List.cons_append, ← List.append_assoc, List.getLast?_append, List.getLast?_singleton]
    simp [hc]

/-! ## Escapes -/

/-- The value of a hexadecimal digit of either case. -/
def hexValue? (c : Char) : Option ℕ :=
  if '0' ≤ c ∧ c ≤ '9' then some (c.toNat - 48)
  else if 'a' ≤ c ∧ c ≤ 'f' then some (c.toNat - 87)
  else if 'A' ≤ c ∧ c ≤ 'F' then some (c.toNat - 55)
  else none

/-- The bytes of a path with its escapes read, as `url.Parse` reads them; what
    is not an escape stands for itself. -/
def unescape : List Char → List UInt8
  | [] => []
  | '%' :: a :: b :: cs =>
    match hexValue? a, hexValue? b with
    | some x, some y => UInt8.ofNat (16 * x + y) :: unescape cs
    | _, _ => 37 :: unescape (a :: b :: cs)
  | c :: cs => String.utf8EncodeChar c ++ unescape cs

/-- A byte as an escape, in lower case. -/
def escapeByte (b : UInt8) : List Char := ['%', (b.toNat / 16).digitChar, (b.toNat % 16).digitChar]

/-- `hexEscapeNonASCII` of `net/http` on one character. -/
def escapeChar (c : Char) : List Char :=
  if c.toNat < 128 then [c] else (String.utf8EncodeChar c).flatMap escapeByte

/-- `hexEscapeNonASCII` of `net/http` -/
def escapeNonASCII (cs : List Char) : List Char := cs.flatMap escapeChar

@[simp] theorem escapeNonASCII_cons (c : Char) (cs : List Char) :
    escapeNonASCII (c :: cs) = escapeChar c ++ escapeNonASCII cs := List.flatMap_cons

theorem escapeChar_ascii {c : Char} (h : c.toNat < 128) : escapeChar c = [c] := if_pos h

theorem hexValue?_ascii {c : Char} {x : ℕ} (h : hexValue? c = some x) : c.toNat < 128 := by
  unfold hexValue? at h
  split_ifs at h with h₁ h₂ h₃
  · have : c.toNat ≤ 57 := h₁.2
    omega
  · have : c.toNat ≤ 102 := h₂.2
    omega
  · have : c.toNat ≤ 70 := h₃.2
    omega

theorem hexValue?_digitChar {n : ℕ} (h : n < 16) : hexValue? n.digitChar = some n := by
  have hall : ∀ n < 16, hexValue? (Nat.digitChar n) = some n := by decide
  exact hall n h

/-- What a character outside ASCII becomes begins with `%`. -/
theorem escapeChar_nonASCII {c : Char} (h : ¬c.toNat < 128) :
    ∃ cs, escapeChar c = '%' :: cs := by
  obtain ⟨b, bs, hb⟩ := List.exists_cons_of_ne_nil (String.utf8EncodeChar_ne_nil (c := c))
  rw [escapeChar, if_neg h, hb, List.flatMap_cons]
  exact ⟨_, rfl⟩

theorem unescape_escapeByte (b : UInt8) (cs : List Char) :
    unescape (escapeByte b ++ cs) = b :: unescape cs := by
  have hb : b.toNat < 256 := b.toNat_lt
  have hbyte : UInt8.ofNat (16 * (b.toNat / 16) + b.toNat % 16) = b := by
    rw [Nat.div_add_mod, UInt8.ofNat_toNat]
  rw [escapeByte, List.cons_append, List.cons_append, List.cons_append, List.nil_append, unescape,
    hexValue?_digitChar (by omega), hexValue?_digitChar (by omega)]
  exact congrArg (· :: _) hbyte

theorem unescape_escapeBytes (bs : List UInt8) (cs : List Char) :
    unescape (bs.flatMap escapeByte ++ cs) = bs ++ unescape cs := by
  induction bs with
  | nil => rfl
  | cons b bs ih => rw [List.flatMap_cons, List.append_assoc, unescape_escapeByte, ih]; rfl

/-- The text begins with the two digits of an escape. -/
def hexPair : List Char → Bool
  | a :: b :: _ => (hexValue? a).isSome && (hexValue? b).isSome
  | _ => false

theorem hexPair_eq_false {a b : Char} {cs : List Char}
    (h : ∀ x y : ℕ, hexValue? a = some x → hexValue? b = some y → False) :
    hexPair (a :: b :: cs) = false := by
  rcases ha : hexValue? a with _ | x
  · simp [hexPair, ha]
  · rcases hb : hexValue? b with _ | y
    · simp [hexPair, hb]
    · exact (h x y ha hb).elim

theorem hexPair_eq_false_of_short {c : Char} {cs : List Char}
    (h : ∀ (a b : Char) (ds : List Char), c = '%' → cs = a :: b :: ds → False) (hc : c = '%') :
    hexPair cs = false := by
  rcases cs with _ | ⟨a, _ | ⟨b, ds⟩⟩
  · rfl
  · rfl
  · exact (h a b ds hc rfl).elim

theorem unescape_cons {c : Char} {cs : List Char} (h : c = '%' → hexPair cs = false) :
    unescape (c :: cs) = String.utf8EncodeChar c ++ unescape cs := by
  by_cases hc : c = '%'
  · subst hc
    have hpair := h rfl
    rcases cs with _ | ⟨a, _ | ⟨b, cs⟩⟩
    · rfl
    · rfl
    · rw [unescape]
      split
      next ha hb => simp [hexPair, ha, hb] at hpair
      next => rfl
  · rw [unescape]
    intro _ _ _ hc'
    exact absurd hc' hc

/-- A slash ends an escape. -/
theorem hexPair_append_slash {cs : List Char} (h : hexPair cs = false) (ds : List Char) :
    hexPair (cs ++ '/' :: ds) = false := by
  rcases cs with _ | ⟨a, _ | ⟨b, cs⟩⟩
  · cases ds <;> rfl
  · exact Bool.and_false _
  · exact h

theorem unescape_append_slash (cs ds : List Char) :
    unescape (cs ++ '/' :: ds) = unescape cs ++ 47 :: unescape ds := by
  fun_induction unescape cs with
  | case1 => exact unescape_cons nofun
  | case2 a b cs x y hx hy ih => simp only [List.cons_append, unescape, hx, hy, ih]
  | case3 a b cs hno ih =>
    have hpair : hexPair (a :: b :: cs) = false := hexPair_eq_false hno
    rw [List.cons_append, unescape_cons fun _ => hexPair_append_slash hpair ds, ih]
    rfl
  | case4 c cs hno ih =>
    have hpair : c = '%' → hexPair cs = false := hexPair_eq_false_of_short hno
    rw [List.cons_append, unescape_cons fun hc => hexPair_append_slash (hpair hc) ds, ih,
      List.append_assoc]

/-- Escaping makes no escape where there was none. -/
theorem hexPair_escapeNonASCII {cs : List Char} (h : hexPair cs = false) :
    hexPair (escapeNonASCII cs) = false := by
  have hhead (ds : List Char) : hexPair ('%' :: ds) = false := by
    cases ds <;> rfl
  rcases cs with _ | ⟨a, cs⟩
  · rfl
  · by_cases ha : a.toNat < 128
    · rw [escapeNonASCII_cons, escapeChar_ascii ha]
      rcases cs with _ | ⟨b, cs⟩
      · rfl
      · by_cases hb : b.toNat < 128
        · rw [escapeNonASCII_cons, escapeChar_ascii hb]
          exact h
        · obtain ⟨ds, hds⟩ := escapeChar_nonASCII hb
          rw [escapeNonASCII_cons, hds]
          simp [hexPair, hexValue?]
    · obtain ⟨ds, hds⟩ := escapeChar_nonASCII ha
      rw [escapeNonASCII_cons, hds]
      exact hhead _

theorem unescape_escapeNonASCII (cs : List Char) : unescape (escapeNonASCII cs) = unescape cs := by
  fun_induction unescape cs with
  | case1 => rfl
  | case2 a b cs x y hx hy ih =>
    have ha := escapeChar_ascii (hexValue?_ascii hx)
    have hb := escapeChar_ascii (hexValue?_ascii hy)
    have hp : escapeChar '%' = ['%'] := rfl
    rw [escapeNonASCII_cons, escapeNonASCII_cons, escapeNonASCII_cons, hp, ha, hb]
    simp only [List.cons_append, List.nil_append, unescape, hx, hy, ih]
  | case3 a b cs hno ih =>
    have hpair : hexPair (a :: b :: cs) = false := hexPair_eq_false hno
    have hp : escapeChar '%' = ['%'] := rfl
    rw [escapeNonASCII_cons, hp, List.singleton_append,
      unescape_cons fun _ => hexPair_escapeNonASCII hpair, ih]
    rfl
  | case4 c cs hno ih =>
    rw [escapeNonASCII_cons]
    by_cases hc : c.toNat < 128
    · have hpair : c = '%' → hexPair cs = false := hexPair_eq_false_of_short hno
      rw [escapeChar_ascii hc, List.singleton_append,
        unescape_cons fun h => hexPair_escapeNonASCII (hpair h), ih]
    · rw [escapeChar, if_neg hc, unescape_escapeBytes, ih]

theorem mem_escapeNonASCII {cs : List Char} {c : Char} (h : c ∈ escapeNonASCII cs) :
    c ∈ cs ∨ c = '%' ∨ (hexValue? c).isSome := by
  obtain ⟨d, hd, hc⟩ := List.mem_flatMap.1 h
  unfold escapeChar at hc
  split at hc
  next => exact .inl (List.mem_singleton.1 hc ▸ hd)
  next =>
    obtain ⟨b, -, hb⟩ := List.mem_flatMap.1 hc
    have hlt : b.toNat < 256 := b.toNat_lt
    have hdigit {n : ℕ} (hn : n < 16) : (hexValue? n.digitChar).isSome := by
      rw [hexValue?_digitChar hn]
      rfl
    simp only [escapeByte, List.mem_cons, List.not_mem_nil, or_false] at hb
    rcases hb with rfl | rfl | rfl
    · exact .inr (.inl rfl)
    · exact .inr (.inr (hdigit (by omega)))
    · exact .inr (.inr (hdigit (by omega)))

/-- A cut at ASCII characters other than those of escapes is one of the text
    before it was escaped. -/
theorem takeWhile_escapeNonASCII {p : Char → Bool} (hp : p '%' = true)
    (hhex : ∀ c, (hexValue? c).isSome → p c = true) (hwide : ∀ c, ¬c.toNat < 128 → p c = true)
    (cs : List Char) : (escapeNonASCII cs).takeWhile p = escapeNonASCII (cs.takeWhile p) := by
  induction cs with
  | nil => rfl
  | cons c cs ih =>
    rw [escapeNonASCII_cons, List.takeWhile_cons]
    by_cases hc : c.toNat < 128
    · rw [escapeChar_ascii hc, List.singleton_append, List.takeWhile_cons, ih]
      cases p c
      · rfl
      · rw [if_pos rfl, if_pos rfl, escapeNonASCII_cons, escapeChar_ascii hc]
        rfl
    · have hall : ∀ d ∈ escapeChar c, p d = true := by
        intro d hd
        have hmem : d ∈ escapeNonASCII [c] := by simpa [escapeNonASCII] using hd
        rcases mem_escapeNonASCII hmem with h | rfl | h
        · exact List.mem_singleton.1 h ▸ hwide c hc
        · exact hp
        · exact hhex d h
      rw [List.takeWhile_append_of_pos hall, ih, if_pos (hwide c hc), escapeNonASCII_cons]

end Lib
