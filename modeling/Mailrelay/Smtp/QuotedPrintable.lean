/-
  Quoted-printable bodies (`newQuotedPrintableReader`, `decodeQPLine` and
  `unhex` of `internal/smtp/parser.go`).

  `Encodes` is the encoding of RFC 2045 as a relation: a line is cut by soft
  breaks into texts, a text is a row of encoded octets.  The RFC also forbids
  blanks at the end of a line and lines over 76 characters; the decoder reads
  what it forbids as well, so that neither is asked for.

  * `newQuotedPrintableReader_soft`, `_hard` and `_last`: the reader on the
    three ways in which a line of the encoded text can end;
  * `newQuotedPrintableReader_encodes`: the main result.
-/
import Mathlib.Data.List.DropRight
import Mathlib.Data.Int.Notation

namespace Mailrelay

/-! ## The reader -/

/-- The value of a hexadecimal digit, or `-1`. -/
def unhex (c : UInt8) : ℤ :=
  if 48 ≤ c ∧ c ≤ 57 then c.toNat - 48
  else if 65 ≤ c ∧ c ≤ 70 then c.toNat - 65 + 10
  else if 97 ≤ c ∧ c ≤ 102 then c.toNat - 97 + 10
  else -1

def decodeQPLine : List UInt8 → List UInt8
  | [] => []
  | 61 :: a :: b :: line =>
    if 0 ≤ unhex a ∧ 0 ≤ unhex b then
      UInt8.ofNat ((unhex a).toNat <<< 4 ||| (unhex b).toNat) :: decodeQPLine line
    else 61 :: decodeQPLine (a :: b :: line)
  | c :: line => c :: decodeQPLine line

/-- The loop of `newQuotedPrintableReader` over the lines. -/
def decodeQPLines : List (List UInt8) → List UInt8
  | [] => []
  | line :: lines =>
    let line := line.rdropWhile (· = 13)
    if line.getLast? = some 61 then decodeQPLine line.dropLast ++ decodeQPLines lines
    else decodeQPLine line ++ (if lines ≠ [] then [10] else []) ++ decodeQPLines lines

/-- `newQuotedPrintableReader`, with what `io.ReadAll` gives of the reader. -/
def newQuotedPrintableReader : Option (List UInt8) → List UInt8
  | none => []
  | some data => decodeQPLines (data.splitOn 10)

/-! ## Encodings -/

/-- The character of a hexadecimal digit, in either case. -/
def IsHexDigit (n : ℕ) (a : UInt8) : Prop :=
  a.toNat = n.digitChar.toNat ∨ a.toNat = n.digitChar.toUpper.toNat

/-- An octet as it may be written: a printable character other than `=`, a
    blank, or an escape with digits of either case. -/
inductive EncodesOctet : UInt8 → List UInt8 → Prop
  | literal {c : UInt8} (h : 33 ≤ c ∧ c ≤ 60 ∨ 62 ≤ c ∧ c ≤ 126) : EncodesOctet c [c]
  | blank {c : UInt8} (h : c = 9 ∨ c = 32) : EncodesOctet c [c]
  | escape {c a b : UInt8} (ha : IsHexDigit (c.toNat / 16) a) (hb : IsHexDigit (c.toNat % 16) b) :
      EncodesOctet c [61, a, b]

/-- Encoded octets, without a break. -/
inductive EncodesText : List UInt8 → List UInt8 → Prop
  | nil : EncodesText [] []
  | cons {c : UInt8} {w cs e : List UInt8} (octet : EncodesOctet c w) (text : EncodesText cs e) :
      EncodesText (c :: cs) (w ++ e)

/-- A line, with soft breaks anywhere between octets and at its ends. -/
inductive EncodesLine : List UInt8 → List UInt8 → Prop
  | text {cs e : List UInt8} (text : EncodesText cs e) : EncodesLine cs e
  | soft {cs ds e f : List UInt8} (text : EncodesText cs e) (line : EncodesLine ds f) :
      EncodesLine (cs ++ ds) (e ++ 61 :: 13 :: 10 :: f)

/-- The encodings of lines, with hard breaks between them; after a last hard
    break there is an empty line. -/
inductive Encodes : List (List UInt8) → List UInt8 → Prop
  | last {cs e : List UInt8} (line : EncodesLine cs e) : Encodes [cs] e
  | hard {cs e f : List UInt8} {lines : List (List UInt8)} (line : EncodesLine cs e)
      (rest : Encodes lines f) : Encodes (cs :: lines) (e ++ 13 :: 10 :: f)

theorem unhex_of_isHexDigit {n : ℕ} (hn : n < 16) {a : UInt8} (h : IsHexDigit n a) : unhex a = n := by
  have hall : ∀ n : ℕ, n < 16 → unhex (UInt8.ofNat n.digitChar.toNat) = n ∧
      unhex (UInt8.ofNat n.digitChar.toUpper.toNat) = n := by decide +kernel
  rcases h with h | h
  · rw [← (hall n hn).1, ← h, UInt8.ofNat_toNat]
  · rw [← (hall n hn).2, ← h, UInt8.ofNat_toNat]

/-- The two digits of an octet. -/
theorem unhex_escape {c a b : UInt8} (ha : IsHexDigit (c.toNat / 16) a) (hb : IsHexDigit (c.toNat % 16) b) :
    unhex a = (c.toNat / 16 : ℕ) ∧ unhex b = (c.toNat % 16 : ℕ) := by
  have hc : c.toNat < 256 := c.toNat_lt
  exact ⟨unhex_of_isHexDigit (by omega) ha, unhex_of_isHexDigit (by omega) hb⟩

theorem unhex_nonneg {c : UInt8} (h : 0 ≤ unhex c) :
    48 ≤ c ∧ c ≤ 57 ∨ 65 ≤ c ∧ c ≤ 70 ∨ 97 ≤ c ∧ c ≤ 102 := by
  unfold unhex at h
  split_ifs at h with h₁ h₂ h₃
  · exact .inl h₁
  · exact .inr (.inl h₂)
  · exact .inr (.inr h₃)
  · cases h

/-- No digit is a line end or `=`. -/
theorem unhex_nonneg_ne {c : UInt8} (h : 0 ≤ unhex c) : c ≠ 10 ∧ c ≠ 13 ∧ c ≠ 61 := by
  have := unhex_nonneg h
  refine ⟨?_, ?_, ?_⟩ <;> rintro rfl <;> revert this <;> decide

/-- The octets of an encoding are neither line ends, nor is the last one `=`. -/
theorem EncodesOctet.chars {c : UInt8} {w : List UInt8} (h : EncodesOctet c w) :
    (∀ x ∈ w, x ≠ 10 ∧ x ≠ 13) ∧ ∃ front x, w = front ++ [x] ∧ x ≠ 61 := by
  cases h with
  | literal h =>
    refine ⟨?_, [], c, rfl, ?_⟩
    · rintro x hx
      obtain rfl := List.mem_singleton.1 hx
      constructor <;> rintro rfl <;> revert h <;> decide
    · rintro rfl
      revert h
      decide
  | blank h =>
    rcases h with rfl | rfl
    · exact ⟨List.forall_mem_singleton.2 (by decide), [], 9, rfl, by decide⟩
    · exact ⟨List.forall_mem_singleton.2 (by decide), [], 32, rfl, by decide⟩
  | @escape a b ha hb =>
    obtain ⟨ha, hb⟩ := unhex_escape ha hb
    have ha := unhex_nonneg_ne (ha ▸ Int.natCast_nonneg _ : 0 ≤ unhex a)
    have hb := unhex_nonneg_ne (hb ▸ Int.natCast_nonneg _ : 0 ≤ unhex b)
    refine ⟨?_, [61, a], b, rfl, hb.2.2⟩
    intro x hx
    simp only [List.mem_cons, List.not_mem_nil, or_false] at hx
    rcases hx with rfl | rfl | rfl
    · decide
    · exact ⟨ha.1, ha.2.1⟩
    · exact ⟨hb.1, hb.2.1⟩

theorem EncodesText.chars {cs e : List UInt8} (h : EncodesText cs e) :
    (∀ x ∈ e, x ≠ 10 ∧ x ≠ 13) ∧ e.getLast? ≠ some 61 := by
  induction h with
  | nil => exact ⟨nofun, nofun⟩
  | @cons c w cs e octet text ih =>
    obtain ⟨hw, front, x, rfl, hx⟩ := octet.chars
    refine ⟨fun y hy => ?_, ?_⟩
    · rcases List.mem_append.1 hy with hy | hy
      · exact hw y hy
      · exact ih.1 y hy
    · rw [List.getLast?_append]
      rcases he : e.getLast? with _ | y
      · simpa using hx
      · rw [he] at ih
        exact ih.2

/-! ## The reader on encodings -/

theorem decodeQPLine_octet {c : UInt8} {w : List UInt8} (h : EncodesOctet c w) (e : List UInt8) :
    decodeQPLine (w ++ e) = c :: decodeQPLine e := by
  obtain ⟨-, front, x, hw, hx⟩ := h.chars
  cases h with
  | literal h | blank h =>
    obtain ⟨rfl, rfl⟩ : front = [] ∧ c = x := by
      rcases front with _ | ⟨y, front⟩
      · exact ⟨rfl, (List.cons.inj hw).1⟩
      · simp at hw
    rw [List.singleton_append, decodeQPLine]
    intro _ _ _ hc
    exact absurd hc hx
  | @escape a b ha hb =>
    obtain ⟨ha, hb⟩ := unhex_escape ha hb
    have hlt : c.toNat % 16 < 2 ^ 4 := Nat.mod_lt _ (by decide)
    have hbyte : UInt8.ofNat ((unhex a).toNat <<< 4 ||| (unhex b).toNat) = c := by
      rw [ha, hb, Int.toNat_natCast, Int.toNat_natCast, ← Nat.shiftLeft_add_eq_or_of_lt hlt,
        Nat.shiftLeft_eq, Nat.mul_comm, Nat.div_add_mod, UInt8.ofNat_toNat]
    have hdigits : 0 ≤ unhex a ∧ 0 ≤ unhex b :=
      ⟨ha ▸ Int.natCast_nonneg _, hb ▸ Int.natCast_nonneg _⟩
    rw [List.cons_append, List.cons_append, List.cons_append, List.nil_append, decodeQPLine,
      if_pos hdigits, hbyte]

theorem decodeQPLine_text {cs e : List UInt8} (h : EncodesText cs e) : decodeQPLine e = cs := by
  induction h with
  | nil => rfl
  | cons octet text ih => rw [decodeQPLine_octet octet, ih]

theorem newQuotedPrintableReader_cons {w : List UInt8} (hw : 10 ∉ w) (e : List UInt8) :
    newQuotedPrintableReader (some (w ++ 10 :: e)) = decodeQPLines (w :: e.splitOn 10) := by
  rw [newQuotedPrintableReader, List.splitOn_append_cons_self_of_not_mem hw]

/-- A line that ends with a soft break. -/
theorem newQuotedPrintableReader_soft {cs w : List UInt8} (h : EncodesText cs w) (e : List UInt8) :
    newQuotedPrintableReader (some (w ++ 61 :: 13 :: 10 :: e)) =
      cs ++ newQuotedPrintableReader (some e) := by
  have hw : 10 ∉ w ++ [61, 13] := by
    intro hmem
    rcases List.mem_append.1 hmem with hmem | hmem
    · exact (h.chars.1 _ hmem).1 rfl
    · revert hmem
      decide
  have htrim : (w ++ [61, 13]).rdropWhile (fun c => decide (c = 13)) = w ++ [61] := by
    rw [show w ++ [61, 13] = w ++ [61] ++ [13] by simp, List.rdropWhile_concat_pos _ _ _ (by decide),
      List.rdropWhile_concat_neg _ _ _ (by decide)]
  have hsplit := newQuotedPrintableReader_cons hw e
  rw [List.append_assoc] at hsplit
  rw [show w ++ 61 :: 13 :: 10 :: e = w ++ ([61, 13] ++ 10 :: e) from rfl, hsplit, decodeQPLines,
    htrim]
  simp [decodeQPLine_text h, newQuotedPrintableReader]

/-- What is left of a line without a soft break when its carriage returns go. -/
theorem EncodesText.rdropWhile {cs w : List UInt8} (h : EncodesText cs w) :
    w.rdropWhile (fun c => decide (c = 13)) = w := by
  rw [List.rdropWhile_eq_self_iff]
  intro hne
  rw [decide_eq_true_iff]
  exact (h.chars.1 _ (List.getLast_mem hne)).2

/-- A line that ends with a hard break. -/
theorem newQuotedPrintableReader_hard {cs w : List UInt8} (h : EncodesText cs w) (e : List UInt8) :
    newQuotedPrintableReader (some (w ++ 13 :: 10 :: e)) =
      cs ++ 10 :: newQuotedPrintableReader (some e) := by
  have hw : 10 ∉ w ++ [13] := by
    intro hmem
    rcases List.mem_append.1 hmem with hmem | hmem
    · exact (h.chars.1 _ hmem).1 rfl
    · revert hmem
      decide
  have htrim : (w ++ [13]).rdropWhile (fun c => decide (c = 13)) = w := by
    rw [List.rdropWhile_concat_pos _ _ _ (by decide), h.rdropWhile]
  have hsplit := newQuotedPrintableReader_cons hw e
  rw [List.append_assoc] at hsplit
  rw [show w ++ 13 :: 10 :: e = w ++ ([13] ++ 10 :: e) from rfl, hsplit, decodeQPLines, htrim,
    if_neg h.chars.2, if_pos (List.splitOn_ne_nil 10 e), decodeQPLine_text h]
  simp [newQuotedPrintableReader]

/-- The last line. -/
theorem newQuotedPrintableReader_last {cs w : List UInt8} (h : EncodesText cs w) :
    newQuotedPrintableReader (some w) = cs := by
  have hw : w.splitOn 10 = [w] := List.splitOn_eq_singleton fun hmem => (h.chars.1 _ hmem).1 rfl
  rw [newQuotedPrintableReader, hw, decodeQPLines, h.rdropWhile, if_neg h.chars.2,
    decodeQPLine_text h]
  simp [decodeQPLines]

theorem newQuotedPrintableReader_line {cs e : List UInt8} (h : EncodesLine cs e) :
    newQuotedPrintableReader (some e) = cs ∧ ∀ f, newQuotedPrintableReader (some (e ++ 13 :: 10 :: f)) =
      cs ++ 10 :: newQuotedPrintableReader (some f) := by
  induction h with
  | text text => exact ⟨newQuotedPrintableReader_last text, newQuotedPrintableReader_hard text⟩
  | soft text line ih =>
    refine ⟨?_, fun f => ?_⟩
    · rw [newQuotedPrintableReader_soft text, ih.1]
    · rw [List.append_assoc, List.cons_append, List.cons_append, List.cons_append,
        newQuotedPrintableReader_soft text, ih.2, List.append_assoc]

/-- The main result: every encoding of some lines is read as these lines, with
    one line feed for each hard break. -/
theorem newQuotedPrintableReader_encodes {lines : List (List UInt8)} {e : List UInt8}
    (h : Encodes lines e) : newQuotedPrintableReader (some e) = [10].intercalate lines := by
  induction h with
  | last line => simpa using (newQuotedPrintableReader_line line).1
  | @hard cs e f lines line rest ih =>
    have hne : lines ≠ [] := by cases rest <;> exact List.cons_ne_nil _ _
    rw [(newQuotedPrintableReader_line line).2 f, ih]
    obtain ⟨l, ls, rfl⟩ := List.exists_cons_of_ne_nil hne
    simp [List.intercalate]

/-- A blank before a soft break, an escaped `=`, and a soft break at the end. -/
theorem newQuotedPrintableReader_encodes_soft :
    newQuotedPrintableReader (some [61, 51, 68, 32, 61, 13, 10, 97, 13, 10, 98, 61, 13, 10]) =
      [61, 32, 97, 10, 98] := by
  have hescape : EncodesOctet 61 [61, 51, 68] := .escape (.inl rfl) (.inr rfl)
  have hblank : EncodesOctet 32 [32] := .blank (.inr rfl)
  have ha : EncodesOctet 97 [97] := .literal (.inr (by decide))
  have hb : EncodesOctet 98 [98] := .literal (.inr (by decide))
  have hfirst := EncodesLine.soft (.cons hescape (.cons hblank .nil)) (.text (.cons ha .nil))
  have hlast := EncodesLine.soft (.cons hb .nil) (.text .nil)
  exact newQuotedPrintableReader_encodes (.hard hfirst (.last hlast))

end Mailrelay
