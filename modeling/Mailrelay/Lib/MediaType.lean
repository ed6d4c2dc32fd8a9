/-
  Header values with parameters (Go's `mime`).

  A parameter is written as a token if it is one, in quotes if its bytes are
  printable ASCII characters and tabs, and otherwise with percent signs, under a
  name with a star.  A value is a list of bytes, a header an ASCII text.

  * `paramValue_format`: a parameter is read back, whatever its bytes are;
  * `format_printable`: nothing else than printable characters and tabs is
    written.
-/
import Mailrelay.Lib.Bytes
import Mailrelay.Lib.Text
import Mailrelay.Lib.Url

namespace Lib

namespace MediaType

/-! ## Tokens -/

def isTSpecial (c : Char) : Bool := "()<>@,;:\\\"/[]?=".toList.contains c

def isTokenChar (c : Char) : Bool := decide (0x20 < c.toNat) && decide (c.toNat < 0x7f) && !isTSpecial c

def isToken (cs : List Char) : Bool := !cs.isEmpty && cs.all isTokenChar

def byteChar (b : UInt8) : Char := Char.ofNat b.toNat

def charByte (c : Char) : UInt8 := UInt8.ofNat c.toNat

/-! ## Writing -/

/-- Printable ASCII characters, and tabs. -/
def isPlain (b : UInt8) : Bool := (decide (0x20 ≤ b) && decide (b ≤ 0x7e)) || b == 9

/-- `needsEncoding` -/
def needsEncoding (v : Bytes) : Bool := v.any fun b => !isPlain b

def upperHex (n : ℕ) : Char := n.digitChar.toUpper

/-- A byte of an encoded value. -/
def encodeByte (b : UInt8) : List Char :=
  if b ≤ 0x20 ∨ 0x7f ≤ b ∨ byteChar b = '*' ∨ byteChar b = '\x27' ∨ byteChar b = '%' ∨
      isTSpecial (byteChar b) then
    ['%', upperHex (b.toNat / 16), upperHex (b.toNat % 16)]
  else [byteChar b]

/-- A character of a quoted value. -/
def quoteChar (c : Char) : List Char := if c = '"' ∨ c = '\\' then ['\\', c] else [c]

/-- A parameter of `mime.FormatMediaType`. -/
def formatParam (key : String) (v : Bytes) : List Char :=
  "; ".toList ++ key.toList ++
    if needsEncoding v then '*' :: '=' :: ("utf-8".toList ++ '\x27' :: '\x27' :: v.flatMap encodeByte)
    else if isToken (v.map byteChar) then '=' :: v.map byteChar
    else '=' :: '"' :: ((v.map byteChar).flatMap quoteChar ++ ['"'])

/-- `mime.FormatMediaType` with one parameter. -/
def formatMediaType (t key : String) (v : Bytes) : List Char := t.toList ++ formatParam key v

/-! ## Reading -/

/-- `strings.TrimLeftFunc` with `unicode.IsSpace` -/
def trimLeft (cs : List Char) : List Char := cs.dropWhile isSpace

/-- `consumeToken` -/
def consumeToken (cs : List Char) : List Char × List Char :=
  (cs.takeWhile isTokenChar, cs.dropWhile isTokenChar)

/-- A quoted string after its opening quote.  A backslash before a character
    that needs none stands for itself. -/
def readQuoted : List Char → Option (List Char × List Char)
  | [] => none
  | '"' :: cs => some ([], cs)
  | '\\' :: c :: cs =>
    if isTSpecial c then (readQuoted cs).map fun r => (c :: r.1, r.2)
    else (readQuoted (c :: cs)).map fun r => ('\\' :: r.1, r.2)
  | c :: cs => if c = '\r' ∨ c = '\n' then none else (readQuoted cs).map fun r => (c :: r.1, r.2)

/-- `consumeValue` -/
def consumeValue (cs : List Char) : Option (List Char × List Char) :=
  match cs with
  | '"' :: cs => readQuoted cs
  | cs => if (consumeToken cs).1 = [] then none else some (consumeToken cs)

/-- `consumeMediaParam`: the name, the value and the rest. -/
def consumeMediaParam (cs : List Char) : Option (List Char × List Char × List Char) :=
  match trimLeft cs with
  | ';' :: cs =>
    let (param, rest) := consumeToken (trimLeft cs)
    if param = [] then none
    else
      match trimLeft rest with
      | '=' :: rest => (consumeValue (trimLeft rest)).map fun r => (param.map Char.toLower, r.1, r.2)
      | _ => none
  | _ => none

/-- The parameters; `n` bounds their number. -/
def readParams : ℕ → List Char → Option (List (List Char × List Char))
  | 0, _ => none
  | n + 1, cs =>
    if trimLeft cs = [] then some []
    else
      match consumeMediaParam cs with
      | none => none
      | some (param, value, rest) => (readParams n rest).map fun ps => (param, value) :: ps

/-- `percentHexUnescape` -/
def percentUnescape : List Char → Option Bytes
  | [] => some []
  | '%' :: a :: b :: cs =>
    match hexValue? a, hexValue? b with
    | some x, some y => (percentUnescape cs).map fun bs => UInt8.ofNat (16 * x + y) :: bs
    | _, _ => none
  | c :: cs => if c = '%' then none else (percentUnescape cs).map fun bs => charByte c :: bs

/-- `decode2231Enc` -/
def decode2231 (cs : List Char) : Option Bytes :=
  (cutChars '\x27' cs).bind fun (charset, rest) =>
    (cutChars '\x27' rest).bind fun (_, rest) =>
      if charset.map Char.toLower = "us-ascii".toList ∨ charset.map Char.toLower = "utf-8".toList then
        percentUnescape rest
      else none

/-- The type of `mime.ParseMediaType`, and one of its parameters; parameters in
    several pieces are not looked for. -/
def paramValue (name : String) (cs : List Char) : Option (List Char × Bytes) :=
  let base := cs.takeWhile (· ≠ ';')
  (readParams cs.length (cs.dropWhile (· ≠ ';'))).bind fun ps =>
    match (ps.lookup (name.toList ++ ['*'])).bind decode2231 with
    | some v => some (trimLeft (base.map Char.toLower), v)
    | none => (ps.lookup name.toList).map fun v => (trimLeft (base.map Char.toLower), v.map charByte)

/-! ## Characters -/

theorem toNat_byteChar (b : UInt8) : (byteChar b).toNat = b.toNat := by
  have hb := b.toNat_lt
  have hv : b.toNat.isValidChar := .inl (by omega)
  rw [byteChar, Char.ofNat, dif_pos hv]
  rfl

@[simp] theorem charByte_byteChar (b : UInt8) : charByte (byteChar b) = b := by
  rw [charByte, toNat_byteChar, UInt8.ofNat_toNat]

theorem map_charByte (v : Bytes) : (v.map byteChar).map charByte = v := by
  rw [List.map_map]
  simp [Function.comp_def]

theorem isTokenChar_range {c : Char} (h : isTokenChar c) : 0x20 < c.toNat ∧ c.toNat < 0x7f := by
  simp only [isTokenChar, Bool.and_eq_true, decide_eq_true_eq] at h
  exact h.1

theorem isSpace_token {c : Char} (h : isTokenChar c) : isSpace c = false := by
  obtain ⟨h₁, h₂⟩ := isTokenChar_range h
  rw [Bool.eq_false_iff]
  intro hs
  simp only [isSpace, Bool.or_eq_true, Bool.and_eq_true, decide_eq_true_eq] at hs
  omega

theorem upperHex_spec {n : ℕ} (h : n < 16) :
    hexValue? (upperHex n) = some n ∧ isTokenChar (upperHex n) := by
  have hall : ∀ n < 16, hexValue? (upperHex n) = some n ∧ isTokenChar (upperHex n) := by decide +kernel
  exact hall n h

/-- An encoded byte is a piece of a token. -/
theorem encodeByte_token (b : UInt8) : ∀ c ∈ encodeByte b, isTokenChar c := by
  have hb := b.toNat_lt
  intro c hc
  unfold encodeByte at hc
  split_ifs at hc with h
  · simp only [List.mem_cons, List.not_mem_nil, or_false] at hc
    rcases hc with rfl | rfl | rfl
    · decide
    · exact (upperHex_spec (by omega)).2
    · exact (upperHex_spec (by omega)).2
  · simp only [not_or, Bool.not_eq_true] at h
    obtain ⟨h₁, h₂, -, -, -, hspecial⟩ := h
    rw [UInt8.le_iff_toNat_le] at h₁ h₂
    have h₁' : 0x20 < b.toNat := not_le.1 h₁
    have h₂' : b.toNat < 0x7f := not_le.1 h₂
    rw [List.mem_singleton.1 hc, isTokenChar, toNat_byteChar, hspecial]
    simp [h₁', h₂']

/-! ## Reading what is written -/

section
variable {cs rest : List Char}

theorem trimLeft_of_head {c : Char} (h : isSpace c = false) : trimLeft (c :: cs) = c :: cs := by
  rw [trimLeft, List.dropWhile_cons_of_neg (by simp [h])]

theorem consumeToken_append (h : ∀ c ∈ cs, isTokenChar c)
    (hrest : ∀ c ∈ rest.head?, isTokenChar c = false) :
    consumeToken (cs ++ rest) = (cs, rest) := by
  have hstop : rest.takeWhile isTokenChar = [] ∧ rest.dropWhile isTokenChar = rest := by
    cases rest with
    | nil => exact ⟨rfl, rfl⟩
    | cons c rest =>
      have hc := hrest c rfl
      exact ⟨List.takeWhile_cons_of_neg (by simp [hc]), List.dropWhile_cons_of_neg (by simp [hc])⟩
  rw [consumeToken, List.takeWhile_append_of_pos h, List.dropWhile_append_of_pos h, hstop.1, hstop.2,
    List.append_nil]

theorem consumeToken_all (h : ∀ c ∈ cs, isTokenChar c) : consumeToken cs = (cs, []) := by
  have happ : consumeToken (cs ++ []) = (cs, []) := consumeToken_append h (by simp)
  rwa [List.append_nil] at happ

/-- A parameter whose value can be read. -/
theorem consumeMediaParam_eq {key : List Char} {r : List Char × List Char} (hne : key ≠ [])
    (hkey : ∀ c ∈ key, isTokenChar c) (h : consumeValue (trimLeft cs) = some r) :
    consumeMediaParam (';' :: ' ' :: (key ++ '=' :: cs)) = some (key.map Char.toLower, r.1, r.2) := by
  obtain ⟨k, ks, rfl⟩ := List.exists_cons_of_ne_nil hne
  have htrim : trimLeft (' ' :: (k :: ks ++ '=' :: cs)) = k :: ks ++ '=' :: cs := by
    have hk := isSpace_token (hkey k List.mem_cons_self)
    rw [trimLeft, List.dropWhile_cons_of_pos (by decide)]
    exact trimLeft_of_head hk
  have htoken : consumeToken (k :: ks ++ '=' :: cs) = (k :: ks, '=' :: cs) := consumeToken_append hkey (by
    intro c hc
    cases hc
    decide)
  rw [consumeMediaParam, trimLeft_of_head (by decide)]
  simp only [htrim, htoken, if_neg hne, trimLeft_of_head (show isSpace '=' = false by decide), h,
    Option.map_some]

/-- A quoted value is read. -/
theorem readQuoted_quote (h : ∀ c ∈ cs, c ≠ '\r' ∧ c ≠ '\n') :
    readQuoted (cs.flatMap quoteChar ++ '"' :: rest) = some (cs, rest) := by
  induction cs with
  | nil => rfl
  | cons c cs ih =>
    have hrec := ih fun c' hc' => h c' (List.mem_cons_of_mem _ hc')
    obtain ⟨hr, hn⟩ := h c List.mem_cons_self
    rw [List.flatMap_cons, List.append_assoc]
    by_cases hc : c = '"' ∨ c = '\\'
    · have hspecial : isTSpecial c := by
        rcases hc with rfl | rfl
        · decide
        · decide
      rw [quoteChar, if_pos hc]
      simp only [List.cons_append, List.nil_append, readQuoted, hspecial, if_true, hrec, Option.map_some]
    · obtain ⟨h₁, h₂⟩ := not_or.1 hc
      rw [quoteChar, if_neg hc]
      simp only [List.cons_append, List.nil_append]
      rw [readQuoted]
      · rw [if_neg (by simp [hr, hn]), hrec]
        rfl
      · exact h₁
      · intro c' cs' hcs
        exact absurd hcs h₂

theorem percentUnescape_byte (b : UInt8) (cs : List Char) :
    percentUnescape (encodeByte b ++ cs) = (percentUnescape cs).map (b :: ·) := by
  have hb := b.toNat_lt
  unfold encodeByte
  split_ifs with h
  · have hhigh := (upperHex_spec (n := b.toNat / 16) (by omega)).1
    have hlow := (upperHex_spec (n := b.toNat % 16) (by omega)).1
    have hsum : UInt8.ofNat (16 * (b.toNat / 16) + b.toNat % 16) = b := by
      rw [show 16 * (b.toNat / 16) + b.toNat % 16 = b.toNat by omega, UInt8.ofNat_toNat]
    simp only [List.cons_append, List.nil_append, percentUnescape, hhigh, hlow, hsum]
  · have hpercent : byteChar b ≠ '%' := fun heq => h (by simp [heq])
    simp only [List.cons_append, List.nil_append]
    rw [percentUnescape]
    · rw [if_neg hpercent, charByte_byteChar]
    · intro a c cs' heq
      exact absurd heq hpercent

/-- An encoded value is read. -/
theorem percentUnescape_encode (v : Bytes) : percentUnescape (v.flatMap encodeByte) = some v := by
  induction v with
  | nil => rfl
  | cons b v ih => rw [List.flatMap_cons, percentUnescape_byte, ih, Option.map_some]

theorem decode2231_encode (v : Bytes) :
    decode2231 ("utf-8".toList ++ '\x27' :: '\x27' :: v.flatMap encodeByte) = some v := by
  rw [decode2231, cutChars_append_cons (by decide)]
  simp only [Option.bind_some]
  rw [show cutChars '\x27' ('\x27' :: v.flatMap encodeByte) = some ([], v.flatMap encodeByte) from rfl]
  simp only [Option.bind_some]
  rw [if_pos (by decide)]
  exact percentUnescape_encode v

end

theorem isPlain_of_not_needsEncoding {v : Bytes} (h : needsEncoding v = false) : ∀ b ∈ v, isPlain b := by
  intro b hb
  by_contra hno
  have hany : needsEncoding v = true := List.any_eq_true.2 ⟨b, hb, by simpa using hno⟩
  rw [h] at hany
  cases hany

/-- The characters of a value that is not encoded. -/
theorem isPlain_range {b : UInt8} (h : isPlain b) :
    byteChar b = '\t' ∨ 0x20 ≤ (byteChar b).toNat ∧ (byteChar b).toNat ≤ 0x7e := by
  rw [toNat_byteChar]
  simp only [isPlain, Bool.or_eq_true, Bool.and_eq_true, decide_eq_true_eq, beq_iff_eq,
    UInt8.le_iff_toNat_le] at h
  rcases h with h | rfl
  · exact .inr h
  · exact .inl rfl

section
variable {t key : String} {v : Bytes}

theorem isToken_cons {cs : List Char} (h : isToken cs) : cs ≠ [] ∧ ∀ c ∈ cs, isTokenChar c := by
  simp only [isToken, Bool.and_eq_true, Bool.not_eq_true', List.isEmpty_eq_false_iff, List.all_eq_true] at h
  exact h

/-- A written parameter is read, under its name or under its name with a star. -/
theorem consumeMediaParam_format (hk : isToken key.toList)
    (hlow : key.toList.map Char.toLower = key.toList) :
    consumeMediaParam (formatParam key v) = some (key.toList, v.map byteChar, []) ∨
    ∃ enc, decode2231 enc = some v ∧ consumeMediaParam (formatParam key v) =
      some (key.toList ++ ['*'], enc, []) := by
  obtain ⟨hne, hkey⟩ := isToken_cons hk
  have hlead (cs : List Char) : "; ".toList ++ key.toList ++ cs = ';' :: ' ' :: (key.toList ++ cs) := rfl
  unfold formatParam
  rw [hlead]
  by_cases henc : needsEncoding v = true
  · -- percent signs, under the name with a star
    rw [if_pos henc]
    refine .inr ⟨_, decode2231_encode v, ?_⟩
    have hstar : ∀ c ∈ key.toList ++ ['*'], isTokenChar c := by
      intro c hc
      rcases List.mem_append.1 hc with hc | hc
      · exact hkey c hc
      · rw [List.mem_singleton.1 hc]
        decide
    have htoken : ∀ c ∈ "utf-8".toList ++ '\x27' :: '\x27' :: v.flatMap encodeByte, isTokenChar c := by
      have hcharset : "utf-8".toList.all isTokenChar := by decide +kernel
      have hquote : isTokenChar '\x27' := by decide
      intro c hc
      rw [List.mem_append, List.mem_cons, List.mem_cons, List.mem_flatMap] at hc
      rcases hc with hc | rfl | rfl | ⟨b, -, hc⟩
      · exact List.all_eq_true.1 hcharset c hc
      · exact hquote
      · exact hquote
      · exact encodeByte_token b c hc
    have hvalue : consumeValue (trimLeft ("utf-8".toList ++ '\x27' :: '\x27' :: v.flatMap encodeByte)) =
        some ("utf-8".toList ++ '\x27' :: '\x27' :: v.flatMap encodeByte, []) := by
      have htrim : trimLeft ("utf-8".toList ++ '\x27' :: '\x27' :: v.flatMap encodeByte) =
          "utf-8".toList ++ '\x27' :: '\x27' :: v.flatMap encodeByte :=
        trimLeft_of_head (show isSpace 'u' = false by decide)
      rw [htrim, consumeValue]
      · rw [consumeToken_all htoken, if_neg (by simp)]
      · intro cs h
        cases h
    have hparam := consumeMediaParam_eq (by simp) hstar hvalue
    rw [List.map_append, hlow, List.append_assoc] at hparam
    exact hparam
  · rw [if_neg henc]
    left
    rw [Bool.not_eq_true] at henc
    have hplain := isPlain_of_not_needsEncoding henc
    by_cases htoken : isToken (v.map byteChar) = true
    · obtain ⟨hvne, hv⟩ := isToken_cons htoken
      have hvalue : consumeValue (trimLeft (v.map byteChar)) = some (v.map byteChar, []) := by
        obtain ⟨c, cs, hcs⟩ := List.exists_cons_of_ne_nil hvne
        have hc := hv c (by rw [hcs]; exact List.mem_cons_self)
        rw [hcs, trimLeft_of_head (isSpace_token hc), ← hcs, consumeValue]
        · rw [consumeToken_all hv, if_neg hvne]
        · intro cs' h
          rw [hcs] at h
          cases h
          exact absurd hc (by decide)
      rw [if_pos htoken]
      have hparam := consumeMediaParam_eq hne hkey hvalue
      rwa [hlow] at hparam
    · have hvalue : consumeValue (trimLeft ('"' :: ((v.map byteChar).flatMap quoteChar ++ ['"']))) =
          some (v.map byteChar, []) := by
        rw [trimLeft_of_head (by decide)]
        refine readQuoted_quote fun c hc => ?_
        obtain ⟨b, hb, rfl⟩ := List.mem_map.1 hc
        have hrange := isPlain_range (hplain b hb)
        constructor
        · intro heq
          rw [heq] at hrange
          exact absurd hrange (by decide)
        · intro heq
          rw [heq] at hrange
          exact absurd hrange (by decide)
      rw [if_neg htoken]
      have hparam := consumeMediaParam_eq hne hkey hvalue
      rwa [hlow] at hparam

theorem readParams_one {n : ℕ} {cs : List Char} {p : List Char × List Char} (hn : 2 ≤ n)
    (hcs : trimLeft cs ≠ []) (h : consumeMediaParam cs = some (p.1, p.2, [])) :
    readParams n cs = some [p] := by
  obtain ⟨m, rfl⟩ : ∃ m, n = m + 1 + 1 := ⟨n - 2, by omega⟩
  rw [readParams, if_neg hcs, h]
  rfl

/-- **A parameter is read back**, whatever its bytes are. -/
theorem paramValue_format (ht : isToken t.toList) (htlow : t.toList.map Char.toLower = t.toList)
    (hk : isToken key.toList) (hlow : key.toList.map Char.toLower = key.toList) :
    paramValue key (formatMediaType t key v) = some (t.toList, v) := by
  obtain ⟨htne, htoken⟩ := isToken_cons ht
  obtain ⟨ps, hps⟩ : ∃ ps, formatParam key v = ';' :: ' ' :: ps := ⟨_, rfl⟩
  have hsemi : ∀ c ∈ t.toList, decide (c ≠ ';') = true := by
    intro c hc
    rw [decide_eq_true_eq]
    rintro rfl
    exact absurd (htoken ';' hc) (by decide)
  have hbase : (formatMediaType t key v).takeWhile (· ≠ ';') = t.toList := by
    rw [formatMediaType, List.takeWhile_append_of_pos hsemi, hps, List.takeWhile_cons_of_neg (by simp),
      List.append_nil]
  have hrest : (formatMediaType t key v).dropWhile (· ≠ ';') = formatParam key v := by
    rw [formatMediaType, List.dropWhile_append_of_pos hsemi, hps, List.dropWhile_cons_of_neg (by simp)]
  have hlen : 2 ≤ (formatMediaType t key v).length := by
    rw [formatMediaType, hps, List.length_append, List.length_cons, List.length_cons]
    omega
  have htrim : trimLeft (formatParam key v) ≠ [] := by
    rw [hps, trimLeft_of_head (by decide)]
    simp
  have htype : trimLeft (t.toList.map Char.toLower) = t.toList := by
    obtain ⟨c, cs, hcs⟩ := List.exists_cons_of_ne_nil htne
    rw [htlow, hcs]
    exact trimLeft_of_head (isSpace_token (htoken c (by rw [hcs]; exact List.mem_cons_self)))
  rw [paramValue, hbase, hrest, htype]
  rcases consumeMediaParam_format (v := v) hk hlow with hread | ⟨enc, henc, hread⟩
  · have hone := readParams_one (p := (key.toList, v.map byteChar)) hlen htrim hread
    rw [hone]
    have hne : (key.toList ++ ['*'] == key.toList) = false := by simp
    have hno : List.lookup (key.toList ++ ['*']) [(key.toList, v.map byteChar)] = none := by
      rw [List.lookup_cons, hne]
      rfl
    have hyes : List.lookup key.toList [(key.toList, v.map byteChar)] = some (v.map byteChar) :=
      List.lookup_cons_self
    simp only [Option.bind_some, hno, hyes, Option.bind_none, Option.map_some, map_charByte]
  · have hone := readParams_one (p := (key.toList ++ ['*'], enc)) hlen htrim hread
    rw [hone]
    have hyes : List.lookup (key.toList ++ ['*']) [(key.toList ++ ['*'], enc)] = some enc :=
      List.lookup_cons_self
    simp only [Option.bind_some, hyes, henc]

/-- **Nothing else than printable characters and tabs is written.** -/
theorem format_printable (ht : isToken t.toList) (hk : isToken key.toList) :
    ∀ c ∈ formatMediaType t key v, c = '\t' ∨ 0x20 ≤ c.toNat ∧ c.toNat ≤ 0x7e := by
  have token {cs : List Char} (h : ∀ c ∈ cs, isTokenChar c) :
      ∀ c ∈ cs, c = '\t' ∨ 0x20 ≤ c.toNat ∧ c.toNat ≤ 0x7e := by
    intro c hc
    have := isTokenChar_range (h c hc)
    omega
  have label : "utf-8".toList.all isTokenChar := by decide +kernel
  intro c hc
  simp only [formatMediaType, formatParam, List.mem_append] at hc
  rcases hc with hc | (hc | hc) | hc
  · exact token (isToken_cons ht).2 c hc
  · have hlead : c = ';' ∨ c = ' ' := by simpa using hc
    rcases hlead with rfl | rfl
    · decide
    · decide
  · exact token (isToken_cons hk).2 c hc
  · split_ifs at hc with henc htoken
    · simp only [List.mem_cons, List.mem_append, List.mem_flatMap] at hc
      rcases hc with rfl | rfl | hc | rfl | rfl | ⟨b, -, hc⟩
      · decide
      · decide
      · exact token (List.all_eq_true.1 label) c hc
      · decide
      · decide
      · exact token (encodeByte_token b) c hc
    · rcases List.mem_cons.1 hc with rfl | hc
      · decide
      · exact token (isToken_cons htoken).2 c hc
    · rw [Bool.not_eq_true] at henc
      simp only [List.mem_cons, List.mem_append, List.mem_flatMap, List.not_mem_nil, or_false] at hc
      rcases hc with rfl | rfl | ⟨c', hc', hc⟩ | rfl
      · decide
      · decide
      · obtain ⟨b, hb, rfl⟩ := List.mem_map.1 hc'
        unfold quoteChar at hc
        split_ifs at hc
        · simp only [List.mem_cons, List.not_mem_nil, or_false] at hc
          rcases hc with rfl | rfl
          · decide
          · exact isPlain_range (isPlain_of_not_needsEncoding henc b hb)
        · rw [List.mem_singleton.1 hc]
          exact isPlain_range (isPlain_of_not_needsEncoding henc b hb)
      · decide

end

end MediaType

end Lib
