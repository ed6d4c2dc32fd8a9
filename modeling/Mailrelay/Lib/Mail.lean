/-
  Message headers as Go's `net/textproto` and `net/mail` read them.

  A raw message is the list of its lines, without their line ends.  `records`
  joins each header line with its continuation lines, up to the blank line
  that ends the header.

  * `fields_removeFields`: removing the lines of some fields from a message
    removes these fields from its header, and nothing else.
-/
import Mailrelay.Lib.Text

namespace Lib

/-! ## Keys -/

/-- The characters of a token (`validHeaderFieldByte`). -/
def isTokenChar (c : Char) : Bool := c.isAlphanum || "!#$%&'*+-.^_`|~".toList.contains c

def canonicalChars (upper : Bool) : List Char → List Char
  | [] => []
  | c :: cs => (if upper then c.toUpper else c.toLower) :: canonicalChars (c == '-') cs

/-- `textproto.CanonicalMIMEHeaderKey` -/
def canonicalKey (s : String) : String :=
  if s.toList.all isTokenChar then String.ofList (canonicalChars true s.toList) else s

/-! ## Lines -/

def isBlank (c : Char) : Bool := c == ' ' || c == '\t'

/-- `trim` of `net/textproto` -/
def trimBlanks (s : String) : String := String.ofList (trimRight isBlank (s.toList.dropWhile isBlank))

/-- Whether a line continues the line before. -/
def continues (line : String) : Bool := (line.toList.head?.map isBlank).getD false

/-- `ReadContinuedLine`, up to the blank line that ends the header; and whether
    the message ends before it. -/
def records (current : String) : List String → List String × Bool
  | [] => ([current], true)
  | line :: lines =>
    if line = "" then ([current], false)
    else if continues line then records (current ++ " " ++ trimBlanks line) lines
    else
      let r := records (trimBlanks line) lines
      (current :: r.1, r.2)

/-- The key and the value of a header line; `none` without a colon. -/
def field (record : String) : Option (String × String) :=
  (cut ':' record).map fun (k, v) => (canonicalKey k, String.ofList (v.toList.dropWhile isBlank))

/-- The lines of the header, continuation lines joined. -/
def headerRecords : List String → List String × Bool
  | [] => ([], true)
  | line :: lines => if line = "" then ([], false) else records (trimBlanks line) lines

/-- Whether the first line continues a line that is not there. -/
def startsContinued (lines : List String) : Bool := (lines.head?.map continues).getD false

/-- `mail.ReadMessage`: the header fields in order, or an error. -/
def readMessage (lines : List String) : Option (List (String × String)) :=
  if startsContinued lines then none
  else
    let r := headerRecords lines
    match r.1.mapM field with
    | none => none
    | some fs =>
      -- an empty key is permitted and ignored
      let fs := fs.filter fun f => f.1 ≠ ""
      if r.2 ∧ fs = [] then none else some fs

/-- The fields of a message that can be read. -/
def fields (lines : List String) : List (String × String) := (readMessage lines).getD []

/-- `msg.Header[key]` -/
def values (key : String) (fs : List (String × String)) : List String :=
  (fs.filter fun f => f.1 = key).map Prod.snd

/-- `msg.Header.Get(key)` -/
def get (key : String) (fs : List (String × String)) : String := (values key fs).headD ""

/-! ## Removing fields -/

/-- Whether the key of a header line satisfies `p`. -/
def hasKey (p : String → Bool) (record : String) : Bool := ((field record).map fun f => p f.1).getD false

/-- The lines of the fields whose key satisfies `p` are left out, with their
    continuation lines. -/
def removeLines (p : String → Bool) (removing : Bool) : List String → List String
  | [] => []
  | line :: lines =>
    if line = "" then line :: lines
    else if continues line then
      if removing then removeLines p true lines else line :: removeLines p false lines
    else if hasKey p (trimBlanks line) then removeLines p true lines
    else line :: removeLines p false lines

def removeFields (p : String → Bool) (lines : List String) : List String := removeLines p false lines

section
variable {p : String → Bool}

theorem cutChars_append_some {sep : Char} {cs x y : List Char} (h : cutChars sep cs = some (x, y))
    (ds : List Char) : cutChars sep (cs ++ ds) = some (x, y ++ ds) := by
  induction cs generalizing x with
  | nil => cases h
  | cons c cs ih =>
    simp only [cutChars, List.cons_append] at h ⊢
    split_ifs at h ⊢ with hc
    · cases h; rfl
    · obtain ⟨⟨x', y'⟩, h', he⟩ := Option.map_eq_some_iff.1 h
      cases he
      rw [ih h']
      rfl

theorem cutChars_append_none {sep : Char} {cs : List Char} (h : cutChars sep cs = none)
    (ds : List Char) :
    cutChars sep (cs ++ ds) = (cutChars sep ds).map fun (x, y) => (cs ++ x, y) := by
  induction cs with
  | nil => simp
  | cons c cs ih =>
    simp only [cutChars, List.cons_append] at h ⊢
    split_ifs at h ⊢ with hc
    rw [ih (Option.map_eq_none_iff.1 h), Option.map_map]
    rfl

/-- A key with a space is not changed. -/
theorem canonicalKey_of_space {s : String} (h : ' ' ∈ s.toList) : canonicalKey s = s := by
  refine if_neg fun hall => ?_
  have := List.all_eq_true.1 hall ' ' h
  revert this
  decide

/-- A continuation line does not change whether the key satisfies `p`, as long
    as `p` holds of no key with a space. -/
theorem hasKey_append (hp : ∀ k, p k → ' ' ∉ k.toList) (record line : String) :
    hasKey p (record ++ " " ++ line) = hasKey p record := by
  have hl : (record ++ " " ++ line).toList = record.toList ++ (' ' :: line.toList) := by
    simp [String.toList_append]
  rcases hc : cutChars ':' record.toList with _ | ⟨x, y⟩
  · have h₁ : hasKey p record = false := by simp [hasKey, field, cut, hc]
    rw [h₁, hasKey, field, cut, hl, cutChars_append_none hc]
    rcases hd : cutChars ':' (' ' :: line.toList) with _ | ⟨x', y'⟩
    · rfl
    · simp only [cutChars, Char.reduceEq, if_false] at hd
      obtain ⟨⟨x₂, y₂⟩, -, he⟩ := Option.map_eq_some_iff.1 hd
      cases he
      have hs : ' ' ∈ (String.ofList (record.toList ++ ' ' :: x₂)).toList := by simp
      simp only [Option.map_some, Option.getD_some, canonicalKey_of_space hs]
      rw [Bool.eq_false_iff]
      exact fun hk => hp _ hk hs
  · simp only [hasKey, field, cut, hl, hc, cutChars_append_some hc, Option.map_some,
      Option.getD_some]

theorem records_eq {lines : List String} (h : startsContinued lines = false) (current : String) :
    records current lines = (current :: (headerRecords lines).1, (headerRecords lines).2) := by
  rcases lines with _ | ⟨line, lines⟩
  · rfl
  · have hc : continues line = false := h
    by_cases hb : line = ""
    · simp [records, headerRecords, hb]
    · simp [records, headerRecords, hb, hc]

theorem startsContinued_removeLines (p : String → Bool) (lines : List String) :
    startsContinued (removeLines p true lines) = false := by
  induction lines with
  | nil => rfl
  | cons line lines ih =>
    simp only [removeLines]
    split_ifs with hb hc hk
    · subst hb; rfl
    · exact ih
    · exact ih
    · simpa [startsContinued] using hc

/-- A record that is kept stays, one that is removed is gone, and so on for
    the records after it. -/
theorem records_removeLines (hp : ∀ k, p k → ' ' ∉ k.toList) (lines : List String) :
    ∀ current : String,
      (hasKey p current = false → records current (removeLines p false lines) =
        ((records current lines).1.filter fun r => !hasKey p r, (records current lines).2)) ∧
      (hasKey p current = true → headerRecords (removeLines p true lines) =
        ((records current lines).1.filter fun r => !hasKey p r, (records current lines).2)) := by
  induction lines with
  | nil =>
    intro current
    exact ⟨fun h => by simp [removeLines, records, h],
      fun h => by simp [removeLines, records, headerRecords, h]⟩
  | cons line lines ih =>
    intro current
    by_cases hb : line = ""
    · exact ⟨fun h => by simp [removeLines, records, hb, h],
        fun h => by simp [removeLines, records, headerRecords, hb, h]⟩
    · by_cases hc : continues line
      · obtain ⟨ih₁, ih₂⟩ := ih (current ++ " " ++ trimBlanks line)
        rw [hasKey_append hp] at ih₁ ih₂
        exact ⟨fun h => by simp [removeLines, records, hb, hc, ih₁ h],
          fun h => by simp [removeLines, records, hb, hc, ih₂ h]⟩
      · obtain ⟨ih₁, ih₂⟩ := ih (trimBlanks line)
        rcases hk : hasKey p (trimBlanks line) with _ | _
        · constructor
          · intro h
            simp [removeLines, records, hb, hc, hk, h, ih₁ hk]
          · intro h
            simp [removeLines, records, headerRecords, hb, hc, hk, h, ih₁ hk]
        · constructor
          · intro h
            have hr := records_eq (startsContinued_removeLines p lines) current
            simp [removeLines, records, hb, hc, hk, h, hr, ih₂ hk]
          · intro h
            simp [removeLines, records, hb, hc, hk, h, ih₂ hk]

theorem headerRecords_removeFields (hp : ∀ k, p k → ' ' ∉ k.toList) {lines : List String}
    (h : startsContinued lines = false) : startsContinued (removeFields p lines) = false ∧
      headerRecords (removeFields p lines) =
        ((headerRecords lines).1.filter fun r => !hasKey p r, (headerRecords lines).2) := by
  rcases lines with _ | ⟨line, lines⟩
  · exact ⟨rfl, rfl⟩
  · have hc : continues line = false := h
    obtain ⟨h₁, h₂⟩ := records_removeLines hp lines (trimBlanks line)
    by_cases hb : line = ""
    · subst hb
      exact ⟨rfl, rfl⟩
    · rcases hk : hasKey p (trimBlanks line) with _ | _
      · simp [removeFields, removeLines, headerRecords, startsContinued, hb, hc, hk, h₁ hk]
      · simp only [removeFields, removeLines, hb, hc, hk, if_false, if_true, Bool.false_eq_true]
        have hr : headerRecords (line :: lines) = records (trimBlanks line) lines := if_neg hb
        exact ⟨startsContinued_removeLines p lines, by rw [hr]; exact h₂ hk⟩

/-- Records that are removed have a key, so none of them made the header
    unreadable. -/
theorem mapM_field_filter (p : String → Bool) (rs : List String) :
    (rs.filter fun r => !hasKey p r).mapM field =
      (rs.mapM field).map fun fs => fs.filter fun f => !p f.1 := by
  induction rs with
  | nil => rfl
  | cons r rs ih =>
    rcases hf : field r with _ | f
    · have hk : hasKey p r = false := by simp [hasKey, hf]
      simp [hk, hf]
    · have hk : hasKey p r = p f.1 := by simp [hasKey, hf]
      rcases hp : p f.1 with _ | _ <;> rcases hr : rs.mapM field with _ | fs <;>
        simp [hk, hp, hf, hr, ih]

theorem fields_eq {lines : List String} (h : startsContinued lines = false) :
    fields lines = (((headerRecords lines).1.mapM field).getD []).filter fun f => f.1 ≠ "" := by
  rw [fields, readMessage, h]
  simp only [Bool.false_eq_true, if_false]
  rcases (headerRecords lines).1.mapM field with _ | fs
  · rfl
  · simp only [Option.getD_some]
    split_ifs with he
    · rw [he.2]; rfl
    · rfl

/-- **Removing the lines of some fields removes these fields**, and nothing
    else. -/
theorem fields_removeFields (hp : ∀ k, p k → ' ' ∉ k.toList) (lines : List String) :
    fields (removeFields p lines) = (fields lines).filter fun f => !p f.1 := by
  rcases hs : startsContinued lines with _ | _
  · obtain ⟨h₁, h₂⟩ := headerRecords_removeFields hp hs
    rw [fields_eq hs, fields_eq h₁, h₂, mapM_field_filter]
    rcases (headerRecords lines).1.mapM field with _ | fs
    · rfl
    · simp only [Option.map_some, Option.getD_some, List.filter_filter]
      exact List.filter_congr fun f _ => Bool.and_comm _ _
  · -- a message that cannot be read has no fields, before and after
    have hs' : startsContinued (removeFields p lines) = true := by
      rcases lines with _ | ⟨line, lines⟩
      · cases hs
      · have hc : continues line = true := hs
        have hb : line ≠ "" := by
          rintro rfl
          cases hc
        simp [removeFields, removeLines, startsContinued, hb, hc]
    simp [fields, readMessage, hs, hs']

/-- The values of a field that is not removed stay. -/
theorem values_removeFields (hp : ∀ k, p k → ' ' ∉ k.toList) (key : String) (lines : List String) :
    values key (fields (removeFields p lines)) =
      if p key then [] else values key (fields lines) := by
  rw [fields_removeFields hp, values, List.filter_filter]
  split_ifs with hk
  · rw [List.map_eq_nil_iff, List.filter_eq_nil_iff]
    rintro f -
    simp only [Bool.and_eq_true, decide_eq_true_eq, Bool.not_eq_true', not_and]
    rintro rfl
    simp [hk]
  · refine congrArg _ (List.filter_congr fun f _ => ?_)
    by_cases h : f.1 = key
    · simp [h, hk]
    · simp [h]

end

end Lib
