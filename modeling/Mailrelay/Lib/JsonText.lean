/-
  JSON texts, with holes at the places of values.

  A text is a list of symbols, characters or holes.  `Text space cs v` says that
  `cs` is a JSON text of the value `v`, where `space` are the characters that
  may stand between tokens: `isJsonSpace` for all texts, none for compact ones.
  A hole is a leaf of its value, beside the numbers.

  * `Text.fill`: JSON texts in the holes of a JSON text make a JSON text;
  * `trimSpace_text`: what is left of a text when blanks are trimmed, and
    `isEmptyText_iff`: which values are written in one of four ways then.
-/
import Mailrelay.Lib.Json
import Mailrelay.Lib.Text
import Mailrelay.Lib.Url

namespace Lib

/-! ## Values with holes -/

namespace Json

variable {ν μ : Type}

mutual

/-- A document in the place of each number. -/
def bind (f : ν → Json μ) : Json ν → Json μ
  | null => null
  | bool b => bool b
  | num n => f n
  | str s => str s
  | arr l => arr (bindList f l)
  | obj l => obj (bindEntries f l)

def bindList (f : ν → Json μ) : List (Json ν) → List (Json μ)
  | [] => []
  | v :: l => bind f v :: bindList f l

def bindEntries (f : ν → Json μ) : List (String × Json ν) → List (String × Json μ)
  | [] => []
  | (key, v) :: l => (key, bind f v) :: bindEntries f l

end

end Json

/-- Values whose numbers are texts, with holes. -/
abbrev HoleJson (H : Type) := Json (String ⊕ H)

/-- The values without holes. -/
abbrev JsonValue := HoleJson Empty

def hole {H : Type} (h : H) : HoleJson H := .num (.inr h)

/-- What stands at a leaf when the holes have values. -/
def holeValue {H G : Type} (val : H → HoleJson G) : String ⊕ H → HoleJson G
  | .inl n => .num (.inl n)
  | .inr h => val h

/-- The values of the holes in their places. -/
def HoleJson.fill {H G : Type} (val : H → HoleJson G) (v : HoleJson H) : HoleJson G :=
  Json.bind (holeValue val) v

/-! ## Tokens -/

def isJsonSpace (c : Char) : Prop := c = ' ' ∨ c = '\t' ∨ c = '\n' ∨ c = '\r'

def IsDigits (cs : List Char) : Prop := cs ≠ [] ∧ ∀ c ∈ cs, c.isDigit

inductive IsNumber : List Char → Prop
  | mk {sign int frac exp : List Char} (hsign : sign = [] ∨ sign = ['-'])
      (hint : int = ['0'] ∨ IsDigits int ∧ int.head? ≠ some '0')
      (hfrac : frac = [] ∨ ∃ ds, frac = '.' :: ds ∧ IsDigits ds)
      (hexp : exp = [] ∨ ∃ e sign ds, exp = e :: (sign ++ ds) ∧ (e = 'e' ∨ e = 'E') ∧
        (sign = [] ∨ sign = ['+'] ∨ sign = ['-']) ∧ IsDigits ds) :
      IsNumber (sign ++ int ++ frac ++ exp)

/-- The code unit of an escape with four digits, and what follows it. -/
def codeUnit? : List Char → Option (ℕ × List Char)
  | '\\' :: 'u' :: a :: b :: c :: d :: cs => do
    let x ← hexValue? a
    let y ← hexValue? b
    let z ← hexValue? c
    let w ← hexValue? d
    some (4096 * x + 256 * y + 16 * z + w, cs)
  | _ => none

def isHigh (n : ℕ) : Prop := 0xD800 ≤ n ∧ n ≤ 0xDBFF

def isLow (n : ℕ) : Prop := 0xDC00 ≤ n ∧ n ≤ 0xDFFF

/-- The escapes of two characters. -/
def shortEscapes : List (Char × Char) :=
  [('"', '"'), ('\\', '\\'), ('/', '/'), ('b', '\x08'), ('f', '\x0c'), ('n', '\n'), ('r', '\r'),
    ('t', '\t')]

/-- What stands between the quotes of a string, and the characters it means.  A
    surrogate without a partner means `U+FFFD`, as `encoding/json` reads it. -/
inductive StringBody : List Char → List Char → Prop
  | nil : StringBody [] []
  | char {c : Char} {cs s : List Char} (h : 0x20 ≤ c.toNat ∧ c ≠ '"' ∧ c ≠ '\\')
      (rest : StringBody cs s) : StringBody (c :: cs) (c :: s)
  | short {e c : Char} {cs s : List Char} (h : (e, c) ∈ shortEscapes) (rest : StringBody cs s) :
      StringBody ('\\' :: e :: cs) (c :: s)
  | unit {n : ℕ} {cs ds s : List Char} (h : codeUnit? cs = some (n, ds)) (hn : ¬isHigh n ∧ ¬isLow n)
      (rest : StringBody ds s) : StringBody cs (Char.ofNat n :: s)
  | pair {m n : ℕ} {cs ds es s : List Char} (hm : codeUnit? cs = some (m, ds)) (hhigh : isHigh m)
      (hn : codeUnit? ds = some (n, es)) (hlow : isLow n) (rest : StringBody es s) :
      StringBody cs (Char.ofNat (0x10000 + 0x400 * (m - 0xD800) + (n - 0xDC00)) :: s)
  | lone {n : ℕ} {cs ds s : List Char} (h : codeUnit? cs = some (n, ds)) (hn : isHigh n ∨ isLow n)
      (hlone : isHigh n → ∀ m es, codeUnit? ds = some (m, es) → ¬isLow m)
      (rest : StringBody ds s) : StringBody cs ('\uFFFD' :: s)

/-! ## Texts -/

section
variable {H : Type}

/-- Characters as symbols. -/
def chars (cs : List Char) : List (Char ⊕ H) := cs.map .inl

/-- A string with its quotes. -/
def quoted (body : List Char) : List (Char ⊕ H) := chars ('"' :: body ++ ['"'])

def Spaces (space : Char → Prop) (cs : List (Char ⊕ H)) : Prop :=
  ∃ s, cs = chars s ∧ ∀ c ∈ s, space c

variable (space : Char → Prop)

mutual

/-- A value with what may stand around it. -/
inductive Text : List (Char ⊕ H) → HoleJson H → Prop
  | mk {before cs after : List (Char ⊕ H)} {v : HoleJson H} (hbefore : Spaces space before)
      (bare : Bare cs v) (hafter : Spaces space after) : Text (before ++ cs ++ after) v

inductive Bare : List (Char ⊕ H) → HoleJson H → Prop
  | null : Bare (chars "null".toList) .null
  | true : Bare (chars "true".toList) (.bool true)
  | false : Bare (chars "false".toList) (.bool false)
  | num {cs : List Char} (h : IsNumber cs) : Bare (chars cs) (.num (.inl (String.ofList cs)))
  | str {body s : List Char} (h : StringBody body s) : Bare (quoted body) (.str (String.ofList s))
  | emptyArr {cs : List (Char ⊕ H)} (h : Spaces space cs) : Bare (.inl '[' :: cs ++ [.inl ']']) (.arr [])
  | arr {cs : List (Char ⊕ H)} {vs : List (HoleJson H)} (items : Items cs vs) :
      Bare (.inl '[' :: cs ++ [.inl ']']) (.arr vs)
  | emptyObj {cs : List (Char ⊕ H)} (h : Spaces space cs) : Bare (.inl '{' :: cs ++ [.inl '}']) (.obj [])
  | obj {cs : List (Char ⊕ H)} {ms : List (String × HoleJson H)} (members : Members cs ms) :
      Bare (.inl '{' :: cs ++ [.inl '}']) (.obj ms)
  | hole (h : H) : Bare [.inr h] (hole h)

inductive Items : List (Char ⊕ H) → List (HoleJson H) → Prop
  | one {cs : List (Char ⊕ H)} {v : HoleJson H} (text : Text cs v) : Items cs [v]
  | cons {cs ds : List (Char ⊕ H)} {v : HoleJson H} {vs : List (HoleJson H)} (text : Text cs v)
      (items : Items ds vs) : Items (cs ++ .inl ',' :: ds) (v :: vs)

inductive Members : List (Char ⊕ H) → List (String × HoleJson H) → Prop
  | one {cs : List (Char ⊕ H)} {m : String × HoleJson H} (member : Member cs m) : Members cs [m]
  | cons {cs ds : List (Char ⊕ H)} {m : String × HoleJson H} {ms : List (String × HoleJson H)}
      (member : Member cs m) (members : Members ds ms) : Members (cs ++ .inl ',' :: ds) (m :: ms)

inductive Member : List (Char ⊕ H) → String × HoleJson H → Prop
  | mk {before after cs : List (Char ⊕ H)} {body s : List Char} {v : HoleJson H}
      (hbefore : Spaces space before) (key : StringBody body s) (hafter : Spaces space after)
      (text : Text cs v) :
      Member (before ++ quoted body ++ after ++ .inl ':' :: cs) (String.ofList s, v)

end

end

/-- A text without holes. -/
def JsonText (space : Char → Prop) (s : String) (v : JsonValue) : Prop := Text space (chars s.toList) v

/-! ## Filling holes -/

section
variable {H G : Type}

/-- Texts in the places of the holes. -/
def fillText (txt : H → List (Char ⊕ G)) (cs : List (Char ⊕ H)) : List (Char ⊕ G) :=
  cs.flatMap (Sum.elim (fun c => [.inl c]) txt)

variable {txt : H → List (Char ⊕ G)}

@[simp] theorem fillText_append (cs ds : List (Char ⊕ H)) :
    fillText txt (cs ++ ds) = fillText txt cs ++ fillText txt ds := List.flatMap_append

@[simp] theorem fillText_cons_char (c : Char) (cs : List (Char ⊕ H)) :
    fillText txt (.inl c :: cs) = .inl c :: fillText txt cs := rfl

@[simp] theorem fillText_hole (h : H) : fillText txt [.inr h] = txt h := List.append_nil _

@[simp] theorem fillText_chars (cs : List Char) : fillText txt (chars cs) = chars cs := by
  induction cs with
  | nil => rfl
  | cons c cs ih => exact congrArg (Sum.inl c :: ·) ih

@[simp] theorem fillText_quoted (body : List Char) : fillText txt (quoted body) = quoted body :=
  fillText_chars _

theorem Spaces.fillText {space : Char → Prop} {cs : List (Char ⊕ H)} (h : Spaces space cs) :
    Spaces space (fillText txt cs) := by
  obtain ⟨s, rfl, hs⟩ := h
  exact ⟨s, fillText_chars s, hs⟩

theorem Spaces.append {space : Char → Prop} {cs ds : List (Char ⊕ H)} (h : Spaces space cs)
    (h' : Spaces space ds) : Spaces space (cs ++ ds) := by
  obtain ⟨s, rfl, hs⟩ := h
  obtain ⟨t, rfl, ht⟩ := h'
  refine ⟨s ++ t, List.map_append.symm, fun c hc => ?_⟩
  rcases List.mem_append.1 hc with hc | hc
  · exact hs c hc
  · exact ht c hc

theorem Spaces.nil {space : Char → Prop} : Spaces space ([] : List (Char ⊕ H)) := ⟨[], rfl, nofun⟩

theorem Text.of_bare {space : Char → Prop} {cs : List (Char ⊕ H)} {v : HoleJson H}
    (h : Bare space cs v) : Text space cs v := by
  have := Text.mk Spaces.nil h Spaces.nil
  rwa [List.nil_append, List.append_nil] at this

/-- More space around a text. -/
theorem Text.pad {space : Char → Prop} {before cs after : List (Char ⊕ H)} {v : HoleJson H}
    (hbefore : Spaces space before) (h : Text space cs v) (hafter : Spaces space after) :
    Text space (before ++ cs ++ after) v := by
  obtain ⟨hb, bare, ha⟩ := h
  have := Text.mk (hbefore.append hb) bare (ha.append hafter)
  simpa only [List.append_assoc] using this

variable {space : Char → Prop} {val : H → HoleJson G}

mutual

/-- JSON texts in the holes of a JSON text: a text of the value with the values
    of the holes. -/
theorem Text.fill (htxt : ∀ h, Text space (txt h) (val h)) :
    ∀ {cs : List (Char ⊕ H)} {v : HoleJson H}, Text space cs v →
      Text space (fillText txt cs) (v.fill val)
  | _, _, .mk hbefore bare hafter => by
    rw [fillText_append, fillText_append]
    exact Text.pad hbefore.fillText (Bare.fill htxt bare) hafter.fillText

theorem Bare.fill (htxt : ∀ h, Text space (txt h) (val h)) :
    ∀ {cs : List (Char ⊕ H)} {v : HoleJson H}, Bare space cs v →
      Text space (fillText txt cs) (v.fill val)
  | _, _, .null => by
    rw [fillText_chars, HoleJson.fill, Json.bind]
    exact .of_bare .null
  | _, _, .true => by
    rw [fillText_chars, HoleJson.fill, Json.bind]
    exact .of_bare .true
  | _, _, .false => by
    rw [fillText_chars, HoleJson.fill, Json.bind]
    exact .of_bare .false
  | _, _, .num h => by
    rw [fillText_chars, HoleJson.fill, Json.bind]
    exact .of_bare (.num h)
  | _, _, .str h => by
    rw [fillText_quoted, HoleJson.fill, Json.bind]
    exact .of_bare (.str h)
  | _, _, .emptyArr h => by
    rw [fillText_append, fillText_cons_char, fillText_cons_char, HoleJson.fill, Json.bind]
    exact .of_bare (.emptyArr h.fillText)
  | _, _, .arr items => by
    rw [fillText_append, fillText_cons_char, fillText_cons_char, HoleJson.fill, Json.bind]
    exact .of_bare (.arr (Items.fill htxt items))
  | _, _, .emptyObj h => by
    rw [fillText_append, fillText_cons_char, fillText_cons_char, HoleJson.fill, Json.bind]
    exact .of_bare (.emptyObj h.fillText)
  | _, _, .obj members => by
    rw [fillText_append, fillText_cons_char, fillText_cons_char, HoleJson.fill, Json.bind]
    exact .of_bare (.obj (Members.fill htxt members))
  | _, _, .hole h => by
    rw [fillText_hole, HoleJson.fill, hole, Json.bind]
    exact htxt h

theorem Items.fill (htxt : ∀ h, Text space (txt h) (val h)) :
    ∀ {cs : List (Char ⊕ H)} {vs : List (HoleJson H)}, Items space cs vs →
      Items space (fillText txt cs) (Json.bindList (holeValue val) vs)
  | _, _, .one text => .one (Text.fill htxt text)
  | _, _, .cons text items => by
    rw [fillText_append, fillText_cons_char]
    exact .cons (Text.fill htxt text) (Items.fill htxt items)

theorem Members.fill (htxt : ∀ h, Text space (txt h) (val h)) :
    ∀ {cs : List (Char ⊕ H)} {ms : List (String × HoleJson H)}, Members space cs ms →
      Members space (fillText txt cs) (Json.bindEntries (holeValue val) ms)
  | _, _, .one member => .one (Member.fill htxt member)
  | _, _, .cons member members => by
    rw [fillText_append, fillText_cons_char]
    exact .cons (Member.fill htxt member) (Members.fill htxt members)

theorem Member.fill (htxt : ∀ h, Text space (txt h) (val h)) :
    ∀ {cs : List (Char ⊕ H)} {m : String × HoleJson H}, Member space cs m →
      Member space (fillText txt cs) (m.1, m.2.fill val)
  | _, _, .mk hbefore key hafter text => by
    rw [fillText_append, fillText_append, fillText_append, fillText_cons_char, fillText_quoted]
    exact .mk hbefore.fillText key hafter.fillText (Text.fill htxt text)

end

end

/-! ## Trimmed texts -/

/-- The characters of a text without holes. -/
def unchars (cs : List (Char ⊕ Empty)) : List Char := cs.map (Sum.elim id nofun)

@[simp] theorem unchars_chars (cs : List Char) : unchars (chars cs) = cs := by
  rw [unchars, chars, List.map_map]
  exact List.map_id cs

@[simp] theorem unchars_nil : unchars [] = [] := rfl

@[simp] theorem unchars_append (cs ds : List (Char ⊕ Empty)) :
    unchars (cs ++ ds) = unchars cs ++ unchars ds := List.map_append

@[simp] theorem unchars_cons (c : Char) (cs : List (Char ⊕ Empty)) :
    unchars (.inl c :: cs) = c :: unchars cs := rfl

/-- A text without blanks at its ends. -/
def Solid (cs : List Char) : Prop :=
  (∃ c ds, cs = c :: ds ∧ isSpace c = false) ∧ ∃ ds c, cs = ds ++ [c] ∧ isSpace c = false

theorem Solid.of_ends {c d : Char} (hc : isSpace c = false) (hd : isSpace d = false)
    (cs : List Char) : Solid (c :: cs ++ [d]) := ⟨⟨c, cs ++ [d], rfl, hc⟩, c :: cs, d, rfl, hd⟩

theorem trimSpace_solid {before cs after : List Char} (hbefore : ∀ c ∈ before, isSpace c)
    (hcs : Solid cs) (hafter : ∀ c ∈ after, isSpace c) :
    trimSpace (String.ofList (before ++ cs ++ after)) = String.ofList cs := by
  obtain ⟨⟨c, ds, hfirst, hc⟩, es, d, hlast, hd⟩ := hcs
  have hleft : (before ++ cs ++ after).dropWhile isSpace = cs ++ after := by
    rw [List.append_assoc, List.dropWhile_append_of_pos hbefore, hfirst, List.cons_append,
      List.dropWhile_cons_of_neg (by simp [hc])]
  have hright : (cs ++ after).reverse.dropWhile isSpace = cs.reverse := by
    rw [List.reverse_append, List.dropWhile_append_of_pos fun x hx => hafter x (List.mem_reverse.1 hx),
      hlast, List.reverse_append, List.reverse_singleton, List.singleton_append,
      List.dropWhile_cons_of_neg (by simp [hd])]
  rw [trimSpace, String.toList_ofList, hleft, trimRight, hright, List.reverse_reverse]

def isNumberChar (c : Char) : Prop := c.isDigit = true ∨ c = '-' ∨ c = '+' ∨ c = '.' ∨ c = 'e' ∨ c = 'E'

theorem IsDigits.chars {cs : List Char} (h : IsDigits cs) : ∀ c ∈ cs, isNumberChar c :=
  fun c hc => .inl (h.2 c hc)

theorem IsNumber.chars {cs : List Char} (h : IsNumber cs) : cs ≠ [] ∧ ∀ c ∈ cs, isNumberChar c := by
  obtain ⟨hsign, hint, hfrac, hexp⟩ := h
  rename_i sign int frac exp
  have hne : int ≠ [] := by
    rcases hint with rfl | ⟨hint, -⟩
    · exact List.cons_ne_nil _ _
    · exact hint.1
  have h₁ : ∀ c ∈ sign, isNumberChar c := by
    rcases hsign with rfl | rfl <;> simp [isNumberChar]
  have h₂ : ∀ c ∈ int, isNumberChar c := by
    rcases hint with rfl | ⟨hint, -⟩
    · simp [isNumberChar]
    · exact hint.chars
  have h₃ : ∀ c ∈ frac, isNumberChar c := by
    rcases hfrac with rfl | ⟨ds, rfl, hds⟩
    · nofun
    · exact List.forall_mem_cons.2 ⟨by simp [isNumberChar], hds.chars⟩
  have h₄ : ∀ c ∈ exp, isNumberChar c := by
    rcases hexp with rfl | ⟨e, sg, ds, rfl, he, hsg, hds⟩
    · nofun
    · refine List.forall_mem_cons.2 ⟨?_, List.forall_mem_append.2 ⟨?_, hds.chars⟩⟩
      · rcases he with rfl | rfl <;> simp [isNumberChar]
      · rcases hsg with rfl | rfl | rfl <;> simp [isNumberChar]
  refine ⟨by simp [hne], ?_⟩
  exact List.forall_mem_append.2 ⟨List.forall_mem_append.2 ⟨List.forall_mem_append.2 ⟨h₁, h₂⟩, h₃⟩, h₄⟩

/-- A number starts with a character of numbers. -/
theorem IsNumber.head {cs : List Char} (h : IsNumber cs) : ∃ c ds, cs = c :: ds ∧ isNumberChar c := by
  obtain ⟨hne, hchars⟩ := h.chars
  obtain ⟨c, ds, rfl⟩ := List.exists_cons_of_ne_nil hne
  exact ⟨c, ds, rfl, hchars c (.head _)⟩

theorem isNumberChar.isSpace {c : Char} (h : isNumberChar c) : isSpace c = false := by
  rcases h with h | rfl | rfl | rfl | rfl | rfl
  · have hrange : 48 ≤ c.toNat ∧ c.toNat ≤ 57 := by
      simpa [Char.isDigit, UInt32.le_iff_toNat_le] using h
    simp only [Lib.isSpace]
    rw [Bool.eq_false_iff]
    simp
    omega
  all_goals rfl

variable {space : Char → Prop}

theorem Text.ne_nil {H : Type} {cs : List (Char ⊕ H)} {v : HoleJson H} (h : Text space cs v) :
    cs ≠ [] := by
  cases h with
  | mk hbefore bare hafter =>
    cases bare with
    | num h => simp [Lib.chars, h.chars.1]
    | str h => simp [quoted, Lib.chars]
    | null | true | false | emptyArr h | arr items | emptyObj h | obj members | hole h =>
      simp [Lib.chars]

theorem Bare.solid {cs : List (Char ⊕ Empty)} {v : JsonValue} (h : Bare space cs v) :
    Solid (unchars cs) := by
  cases h with
  | null => exact Solid.of_ends (c := 'n') (d := 'l') rfl rfl ['u', 'l']
  | true => exact Solid.of_ends (c := 't') (d := 'e') rfl rfl ['r', 'u']
  | false => exact Solid.of_ends (c := 'f') (d := 'e') rfl rfl ['a', 'l', 's']
  | num h =>
    obtain ⟨hne, hchars⟩ := h.chars
    rw [unchars_chars]
    refine ⟨?_, ?_⟩
    · obtain ⟨c, ds, hcs, hc⟩ := h.head
      exact ⟨c, ds, hcs, hc.isSpace⟩
    · refine ⟨_, _, (List.dropLast_append_getLast hne).symm, (hchars _ (List.getLast_mem hne)).isSpace⟩
  | str h =>
    rw [quoted, unchars_chars]
    exact Solid.of_ends rfl rfl _
  | emptyArr h | arr h | emptyObj h | obj h =>
    rw [unchars_append, unchars_cons]
    exact Solid.of_ends rfl rfl _
  | hole h => exact h.elim

/-- A text is a bare one between blanks. -/
theorem JsonText.bare {s : String} {v : JsonValue} (h : JsonText space s v) :
    ∃ before cs after, Bare space cs v ∧ (∀ c ∈ before, space c) ∧ (∀ c ∈ after, space c) ∧
      s.toList = before ++ unchars cs ++ after := by
  unfold JsonText at h
  generalize hs : (chars s.toList : List (Char ⊕ Empty)) = t at h
  cases h with
  | mk hbefore bare hafter =>
    obtain ⟨b, rfl, hb⟩ := hbefore
    obtain ⟨a, rfl, ha⟩ := hafter
    refine ⟨b, _, a, bare, hb, ha, ?_⟩
    have := congrArg unchars hs
    simpa only [unchars_append, unchars_chars] using this

/-- The texts of the empty values, and of `null`. -/
def emptyTexts : List String := ["null", "\"\"", "[]", "{}"]

def Json.IsEmpty {ν : Type} (v : Json ν) : Prop := v = null ∨ v = str "" ∨ v = arr [] ∨ v = obj []

/-- Brackets with nothing but space between them. -/
def SpacedBrackets (space : Char → Prop) (cs : List Char) : Prop :=
  ∃ ws, ws ≠ [] ∧ (∀ c ∈ ws, space c) ∧ (cs = '[' :: ws ++ [']'] ∨ cs = '{' :: ws ++ ['}'])

theorem mem_emptyTexts {cs : List Char} : String.ofList cs ∈ emptyTexts ↔
    cs = ['n', 'u', 'l', 'l'] ∨ cs = ['"', '"'] ∨ cs = ['[', ']'] ∨ cs = ['{', '}'] := by
  have hiff (t : String) : String.ofList cs = t ↔ cs = t.toList := by
    rw [← String.toList_inj, String.toList_ofList]
  simp only [emptyTexts, List.mem_cons, List.not_mem_nil, or_false, hiff]
  rfl

/-- Items are written with other characters than space. -/
theorem Items.solid {cs : List (Char ⊕ Empty)} {vs : List JsonValue} (h : Items space cs vs) :
    (∃ c ∈ unchars cs, isSpace c = false) ∧ vs ≠ [] := by
  cases h with
  | one text =>
    cases text with
    | mk hbefore bare hafter =>
      obtain ⟨⟨c, es, hes, hc⟩, -⟩ := bare.solid
      exact ⟨⟨c, by simp [hes], hc⟩, List.cons_ne_nil _ _⟩
  | cons text items => exact ⟨⟨',', by simp, rfl⟩, List.cons_ne_nil _ _⟩

theorem Members.solid {cs : List (Char ⊕ Empty)} {ms : List (String × JsonValue)}
    (h : Members space cs ms) : (∃ c ∈ unchars cs, isSpace c = false) ∧ ms ≠ [] := by
  cases h with
  | one member =>
    cases member with
    | mk => exact ⟨⟨':', by simp, rfl⟩, List.cons_ne_nil _ _⟩
  | cons member members => exact ⟨⟨',', by simp, rfl⟩, List.cons_ne_nil _ _⟩

theorem StringBody.eq_nil_iff {body s : List Char} (h : StringBody body s) : body = [] ↔ s = [] := by
  cases h with
  | nil => simp
  | char | short => simp
  | unit h | pair h | lone h =>
    refine iff_of_false ?_ (List.cons_ne_nil _ _)
    rintro rfl
    cases h

/-- All of a list is space, so that it has something else only if it is empty. -/
theorem eq_nil_iff_of_forall {ws : List Char} (hws : ∀ c ∈ ws, space c) :
    ws = [] ↔ (ws ≠ [] → ∃ c ∈ ws, ¬space c) := by
  constructor
  · exact fun h hne => absurd h hne
  · intro h
    by_contra hne
    obtain ⟨c, hc, hc'⟩ := h hne
    exact hc' (hws c hc)

/-- Which values are written in one of four ways. -/
theorem Bare.empty_iff {cs : List (Char ⊕ Empty)} {v : JsonValue} (h : Bare space cs v) :
    String.ofList (unchars cs) ∈ emptyTexts ↔
      v.IsEmpty ∧ ¬SpacedBrackets space (unchars cs) := by
  rw [mem_emptyTexts, Json.IsEmpty, SpacedBrackets]
  cases h with
  | null => simp
  | true | false => simp
  | num h =>
    obtain ⟨c, ds, rfl, hc⟩ := h.head
    rw [unchars_chars]
    refine iff_of_false ?_ (by simp)
    rintro (h | h | h | h) <;> cases h <;> revert hc <;> simp [isNumberChar]
  | str h =>
    rw [quoted, unchars_chars]
    simp [← h.eq_nil_iff]
  | emptyArr h =>
    obtain ⟨ws, rfl, hws⟩ := h
    simpa using eq_nil_iff_of_forall hws
  | arr items =>
    obtain ⟨⟨c, hc, -⟩, hvs⟩ := items.solid
    simp [List.ne_nil_of_mem hc, hvs]
  | emptyObj h =>
    obtain ⟨ws, rfl, hws⟩ := h
    simpa using eq_nil_iff_of_forall hws
  | obj members =>
    obtain ⟨⟨c, hc, -⟩, hvs⟩ := members.solid
    simp [List.ne_nil_of_mem hc, hvs]
  | hole h => exact h.elim

theorem isJsonSpace.isSpace {c : Char} (h : isJsonSpace c) : isSpace c := by
  rcases h with rfl | rfl | rfl | rfl <;> rfl

theorem trimSpace_text {s : String} {v : JsonValue} (h : JsonText isJsonSpace s v) :
    ∃ cs, Bare isJsonSpace cs v ∧ trimSpace s = String.ofList (unchars cs) := by
  obtain ⟨before, cs, after, bare, hbefore, hafter, hs⟩ := h.bare
  refine ⟨cs, bare, ?_⟩
  rw [← String.ofList_toList (s := s), hs]
  exact trimSpace_solid (fun c hc => (hbefore c hc).isSpace) bare.solid
    fun c hc => (hafter c hc).isSpace

/-- A trimmed text is one of four if and only if its value is empty, apart from
    brackets with space between them. -/
theorem isEmptyText_iff {s : String} {v : JsonValue} (h : JsonText isJsonSpace s v) :
    trimSpace s ∈ emptyTexts ↔
      v.IsEmpty ∧ ¬SpacedBrackets isJsonSpace (trimSpace s).toList := by
  obtain ⟨cs, bare, hs⟩ := trimSpace_text h
  rw [hs, String.toList_ofList, bare.empty_iff]

theorem trimSpace_ne_empty {s : String} {v : JsonValue} (h : JsonText isJsonSpace s v) :
    trimSpace s ≠ "" := by
  obtain ⟨cs, bare, hs⟩ := trimSpace_text h
  obtain ⟨⟨c, ds, hcs, -⟩, -⟩ := bare.solid
  rw [hs, hcs]
  intro heq
  have := congrArg String.toList heq
  simp at this

/-! ## Compact texts -/

/-- A text without space between its tokens. -/
def CompactText (s : String) (v : JsonValue) : Prop := JsonText (fun _ => False) s v

section
variable {H : Type} {space' : Char → Prop}

theorem Spaces.mono (hsub : ∀ c, space c → space' c) {cs : List (Char ⊕ H)}
    (h : Spaces space cs) : Spaces space' cs := by
  obtain ⟨s, rfl, hs⟩ := h
  exact ⟨s, rfl, fun c hc => hsub c (hs c hc)⟩

mutual

theorem Text.mono (hsub : ∀ c, space c → space' c) :
    ∀ {cs : List (Char ⊕ H)} {v : HoleJson H}, Text space cs v → Text space' cs v
  | _, _, .mk hbefore bare hafter => .mk (hbefore.mono hsub) (Bare.mono hsub bare) (hafter.mono hsub)

theorem Bare.mono (hsub : ∀ c, space c → space' c) :
    ∀ {cs : List (Char ⊕ H)} {v : HoleJson H}, Bare space cs v → Bare space' cs v
  | _, _, .null => .null
  | _, _, .true => .true
  | _, _, .false => .false
  | _, _, .num h => .num h
  | _, _, .str h => .str h
  | _, _, .emptyArr h => .emptyArr (h.mono hsub)
  | _, _, .arr items => .arr (Items.mono hsub items)
  | _, _, .emptyObj h => .emptyObj (h.mono hsub)
  | _, _, .obj members => .obj (Members.mono hsub members)
  | _, _, .hole h => .hole h

theorem Items.mono (hsub : ∀ c, space c → space' c) :
    ∀ {cs : List (Char ⊕ H)} {vs : List (HoleJson H)}, Items space cs vs → Items space' cs vs
  | _, _, .one text => .one (Text.mono hsub text)
  | _, _, .cons text items => .cons (Text.mono hsub text) (Items.mono hsub items)

theorem Members.mono (hsub : ∀ c, space c → space' c) :
    ∀ {cs : List (Char ⊕ H)} {ms : List (String × HoleJson H)}, Members space cs ms →
      Members space' cs ms
  | _, _, .one member => .one (Member.mono hsub member)
  | _, _, .cons member members => .cons (Member.mono hsub member) (Members.mono hsub members)

theorem Member.mono (hsub : ∀ c, space c → space' c) :
    ∀ {cs : List (Char ⊕ H)} {m : String × HoleJson H}, Member space cs m → Member space' cs m
  | _, _, .mk hbefore key hafter text =>
    .mk (hbefore.mono hsub) key (hafter.mono hsub) (Text.mono hsub text)

end

end

theorem CompactText.text {s : String} {v : JsonValue} (h : CompactText s v) : JsonText space s v :=
  Text.mono (fun _ => False.elim) h

theorem Bare.not_spaced {cs : List (Char ⊕ Empty)} {v : JsonValue}
    (h : Bare (fun _ => False) cs v) : ¬SpacedBrackets isJsonSpace (unchars cs) := by
  -- between brackets there is nothing, or something other than space
  have hbrackets {ds : List (Char ⊕ Empty)} {c d : Char}
      (hds : unchars ds = [] ∨ ∃ c ∈ unchars ds, isSpace c = Bool.false) :
      ¬SpacedBrackets isJsonSpace (c :: unchars ds ++ [d]) := by
    rintro ⟨ws, hne, hws, heq⟩
    obtain rfl : unchars ds = ws := by
      rcases heq with heq | heq
      · exact (by simpa using heq : c = '[' ∧ unchars ds = ws ∧ d = ']').2.1
      · exact (by simpa using heq : c = '{' ∧ unchars ds = ws ∧ d = '}').2.1
    rcases hds with hds | ⟨x, hx, hspace⟩
    · exact hne hds
    · rw [(hws x hx).isSpace] at hspace
      cases hspace
  have hspaces {ds : List (Char ⊕ Empty)} (hds : Spaces (fun _ => False) ds) : unchars ds = [] := by
    obtain ⟨s, rfl, hs⟩ := hds
    rw [unchars_chars]
    exact List.eq_nil_iff_forall_not_mem.2 hs
  cases h with
  | null | true | false => simp [SpacedBrackets]
  | num h =>
    obtain ⟨c, ds, rfl, hc⟩ := h.head
    rw [unchars_chars]
    rintro ⟨ws, -, -, h | h⟩ <;> cases h <;> revert hc <;> simp [isNumberChar]
  | str h => simp [SpacedBrackets, quoted]
  | emptyArr h | emptyObj h =>
    rw [unchars_append, unchars_cons]
    exact hbrackets (.inl (hspaces h))
  | arr items =>
    rw [unchars_append, unchars_cons]
    exact hbrackets (.inr items.solid.1)
  | obj members =>
    rw [unchars_append, unchars_cons]
    exact hbrackets (.inr members.solid.1)
  | hole h => exact h.elim

/-- In a compact text there is no space between brackets. -/
theorem CompactText.not_spaced {s : String} {v : JsonValue} (h : CompactText s v) :
    ¬SpacedBrackets isJsonSpace (trimSpace s).toList := by
  obtain ⟨before, cs, after, bare, hbefore, hafter, hs⟩ := h.bare
  obtain rfl := List.eq_nil_iff_forall_not_mem.2 hbefore
  obtain rfl := List.eq_nil_iff_forall_not_mem.2 hafter
  have htrim : trimSpace s = String.ofList (unchars cs) := by
    rw [← String.ofList_toList (s := s), hs]
    exact trimSpace_solid nofun bare.solid nofun
  rw [htrim, String.toList_ofList]
  exact bare.not_spaced

/-! ## Writing strings -/

/-- A character of a string, escaped where it has to be. -/
def escapeJson (c : Char) : List Char :=
  if c = '"' ∨ c = '\\' then ['\\', c]
  else if c.toNat < 0x20 then
    ['\\', 'u', '0', '0', (c.toNat / 16).digitChar, (c.toNat % 16).digitChar]
  else [c]

theorem StringBody.escape (c : Char) {body s : List Char} (h : StringBody body s) :
    StringBody (escapeJson c ++ body) (c :: s) := by
  rw [escapeJson]
  split_ifs with h₁ h₂
  · refine .short ?_ h
    rcases h₁ with rfl | rfl <;> decide
  · have hunit : codeUnit? (['\\', 'u', '0', '0', (c.toNat / 16).digitChar,
        (c.toNat % 16).digitChar] ++ body) = some (c.toNat, body) := by
      simp only [List.cons_append, List.nil_append, codeUnit?,
        hexValue?_digitChar (show c.toNat / 16 < 16 by omega),
        hexValue?_digitChar (show c.toNat % 16 < 16 by omega)]
      simp [hexValue?]
      omega
    have := StringBody.unit hunit (by simp only [isHigh, isLow]; omega) h
    rwa [Char.ofNat_toNat] at this
  · exact .char ⟨by omega, not_or.1 h₁⟩ h

/-- A text of a string. -/
def quoteJson (s : String) : String := String.ofList ('"' :: s.toList.flatMap escapeJson ++ ['"'])

theorem compactText_quoteJson (s : String) : CompactText (quoteJson s) (.str s) := by
  have hbody (cs : List Char) : StringBody (cs.flatMap escapeJson) cs := by
    induction cs with
    | nil => exact .nil
    | cons c cs ih =>
      rw [List.flatMap_cons]
      exact ih.escape c
  have bare : Bare (H := Empty) (fun _ => False) (quoted (s.toList.flatMap escapeJson))
      (.str (String.ofList s.toList)) := .str (hbody s.toList)
  rw [String.ofList_toList] at bare
  rw [CompactText, JsonText, quoteJson, String.toList_ofList]
  exact .of_bare bare

end Lib
