/-
  The seals of an ARC chain (`checkARCChain` in `internal/smtp/auth.go`).

  A seal is a list of tags, one of which is its instance number `i` and one
  its chain value `cv`.  The source looks for the highest acceptable seal; a
  chain has the instances 1, 2, …, n, with `cv=none` at the first one and
  `cv=pass` at all others (`ArcChain`).

  * `arcParams_text`: what `arcIntParam` and `arcStringParam` read of a seal;
  * `passed_iff`: when the source accepts the seals;
  * `arc_chain_iff`: the main result.
-/
import Mailrelay.Lib.Case
import Mailrelay.Smtp.Auth

namespace Mailrelay

open Lib

/-! ## Seals -/

/-- `name=value`, after white space. -/
structure ArcTag where
  before : String
  name : String
  value : String
  before_space : ∀ c ∈ before.toList, isSpace c
  name_ne : name ≠ ""
  name_chars : ∀ c ∈ name.toList, c ≠ '=' ∧ c ≠ ';' ∧ isSpace c = false
  value_chars : ';' ∉ value.toList

def ArcTag.text (t : ArcTag) : String := t.before ++ (t.name ++ "=" ++ t.value)

theorem ArcTag.semicolon_notMem (t : ArcTag) : ';' ∉ t.text.toList := by
  have hbefore : ';' ∉ t.before.toList := fun h => absurd (t.before_space _ h) (by decide)
  have hname : ';' ∉ t.name.toList := fun h => (t.name_chars _ h).2.1 rfl
  simp [ArcTag.text, hbefore, hname, t.value_chars]

def digits? (cs : List Char) : Option ℤ :=
  if cs ≠ [] ∧ cs.all Char.isDigit then
    some (cs.foldl (fun n c => 10 * n + (c.toNat - '0'.toNat : ℕ)) 0)
  else none

/-- A decimal number with an optional sign. -/
def decimal? (s : String) : Option ℤ :=
  match s.toList with
  | '-' :: cs => (digits? cs).map (- ·)
  | '+' :: cs => digits? cs
  | cs => digits? cs

theorem atoi_eq (s : String) : atoi s = (decimal? s).filter fun n => minInt64 ≤ n ∧ n ≤ maxInt64 := rfl

/-- The value of an `ARC-Seal` header, with one integer tag `i` and one tag `cv`. -/
structure ArcSeal (u : Unicode) where
  tags : List ArcTag
  i : ArcTag
  cv : ArcTag
  number : ℤ
  i_only : tags.filter (fun t => u.lower t.name = "i") = [i]
  cv_only : tags.filter (fun t => u.lower t.name = "cv") = [cv]
  number_eq : decimal? (trimSpace i.value) = some number

namespace ArcSeal

variable {u : Unicode}

def text (s : ArcSeal u) : String := String.ofList ([';'].intercalate (s.tags.map fun t => t.text.toList))

/-- The chain value is `cv`, whatever the case of its letters. -/
def Says (s : ArcSeal u) (cv : String) : Prop := u.equalFold (u.lower (trimSpace s.cv.value)) cv

instance (s : ArcSeal u) (cv : String) : Decidable (s.Says cv) := inferInstanceAs (Decidable (_ = true))

/-- The chain value that the instance number requires. -/
def Valid (s : ArcSeal u) : Prop :=
  0 < s.number ∧ s.number ≤ maxInt64 ∧ s.Says (if s.number = 1 then "none" else "pass")

/-- What the source takes for a valid chain value; `pass` at the first instance is one. -/
def Acceptable (s : ArcSeal u) : Prop :=
  0 < s.number ∧ s.number ≤ maxInt64 ∧ (s.Says "pass" ∨ s.number = 1 ∧ s.Says "none")

theorem Valid.acceptable {s : ArcSeal u} (h : s.Valid) : s.Acceptable := by
  obtain ⟨hpos, hmax, hcv⟩ := h
  refine ⟨hpos, hmax, ?_⟩
  split_ifs at hcv with h1
  · exact .inr ⟨h1, hcv⟩
  · exact .inl hcv

end ArcSeal

/-- The instances are 1, 2, …, n in some order; the first one says `none` and
    the others `pass`. -/
def ArcChain {u : Unicode} (seals : List (ArcSeal u)) : Prop :=
  ∃ n ≥ 1, (seals.map fun s => s.number).Perm ((List.range n).map fun k : ℕ => (k : ℤ) + 1) ∧
    ∀ s ∈ seals, s.Says (if s.number = 1 then "none" else "pass")

/-! ## Reading a seal -/

section
variable {u : Unicode}

theorem digits?_chars {cs : List Char} {n : ℤ} (h : digits? cs = some n) : ∀ c ∈ cs, c.isDigit := by
  unfold digits? at h
  split_ifs at h with hd
  intro c hc
  exact List.all_eq_true.1 hd.2 c hc

theorem decimal?_chars {s : String} {n : ℤ} (h : decimal? s = some n) :
    ∀ c ∈ s.toList, c = '-' ∨ c = '+' ∨ c.isDigit := by
  unfold decimal? at h
  intro c hc
  split at h
  next cs hs =>
    rw [hs] at hc
    obtain ⟨m, hm, -⟩ := Option.map_eq_some_iff.1 h
    rcases List.mem_cons.1 hc with rfl | hc
    · exact .inl rfl
    · exact .inr (.inr (digits?_chars hm c hc))
  next cs hs =>
    rw [hs] at hc
    rcases List.mem_cons.1 hc with rfl | hc
    · exact .inr (.inl rfl)
    · exact .inr (.inr (digits?_chars h c hc))
  next => exact .inr (.inr (digits?_chars h c hc))

theorem isDigit_ascii {c : Char} (h : c.isDigit) : c.toNat < 128 ∧ c.isAlpha = false := by
  have hrange : 48 ≤ c.toNat ∧ c.toNat ≤ 57 := by
    simpa [Char.isDigit, UInt32.le_iff_toNat_le] using h
  refine ⟨by omega, ?_⟩
  have hall : ∀ n : ℕ, 48 ≤ n → n ≤ 57 → (Char.ofNat n).isAlpha = false := by decide
  have := hall c.toNat hrange.1 hrange.2
  rwa [Char.ofNat_toNat] at this

/-- A number has no case. -/
theorem lower_decimal (hu : u.Regular) {s : String} {n : ℤ} (h : decimal? s = some n) : u.lower s = s := by
  refine hu.lower_eq_self fun c hc => ?_
  rcases decimal?_chars h c hc with rfl | rfl | hd
  · decide
  · decide
  · exact isDigit_ascii hd

/-- A tag is read under its own name only. -/
theorem afterPrefix?_tag {key name : List Char} (hkey : '=' ∉ key) (hname : '=' ∉ name)
    (value : List Char) :
    afterPrefix? (String.ofList key ++ "=") (String.ofList (name ++ '=' :: value)) =
      if name = key then some (String.ofList value) else none := by
  have hpre : (String.ofList key ++ "=").toList.isPrefixOf (name ++ '=' :: value) =
      decide (name = key) := by
    rw [Bool.eq_iff_iff, List.isPrefixOf_iff_prefix, decide_eq_true_eq]
    simp only [String.toList_append, String.toList_ofList]
    constructor
    · rintro ⟨rest, hrest⟩
      have hcut := cutChars_append_cons hname value
      rw [← hrest, List.append_assoc] at hcut
      have := (cutChars_append_cons hkey rest).symm.trans hcut
      simp only [Option.some.injEq, Prod.mk.injEq] at this
      exact this.1.symm
    · rintro rfl
      exact ⟨value, by simp⟩
  unfold afterPrefix?
  rw [String.toList_ofList, hpre]
  by_cases h : name = key
  · subst h
    simp
  · simp [h]

theorem toList_trimSpace_text (t : ArcTag) :
    (trimSpace t.text).toList = t.name.toList ++ '=' :: t.value.toList.rdropWhile isSpace := by
  obtain ⟨c, cs, hc⟩ := List.exists_cons_of_ne_nil (mt String.toList_eq_nil_iff.1 t.name_ne)
  have hdrop : t.text.toList.dropWhile isSpace = t.name.toList ++ '=' :: t.value.toList := by
    simp only [ArcTag.text, String.toList_append]
    rw [List.dropWhile_append_of_pos t.before_space, hc]
    have := (t.name_chars c (by simp [hc])).2.2
    simp [this]
  rw [toList_trimSpace, hdrop]
  exact rdropWhile_append_cons (by decide) _ _

/-- What is read of one tag. -/
theorem afterPrefix?_text (hu : u.Regular) (t : ArcTag) {key : String} (hkey : '=' ∉ key.toList) :
    (afterPrefix? (key ++ "=") (trimSpace (u.lower t.text))).map trimSpace =
      if u.lower t.name = key then some (u.lower (trimSpace t.value)) else none := by
  have hname : '=' ∉ (u.lower t.name).toList := by
    rw [hu.mem_lower_iff (by decide) (by decide)]
    exact fun h => (t.name_chars '=' h).1 rfl
  have htext : trimSpace (u.lower t.text) =
      String.ofList ((u.lower t.name).toList ++ '=' ::
        (u.lower (String.ofList (t.value.toList.rdropWhile isSpace))).toList) := by
    rw [hu.lower_trimSpace, ← String.toList_inj, Unicode.toList_lower, toList_trimSpace_text]
    have hself : u.toLower '=' = '=' := (hu.toLower_eq_iff (by decide) (by decide) '=').2 rfl
    simp [hself]
  have htag := afterPrefix?_tag hkey hname
    (u.lower (String.ofList (t.value.toList.rdropWhile isSpace))).toList
  rw [String.ofList_toList, ← htext, String.ofList_toList] at htag
  rw [htag]
  simp only [String.toList_inj]
  split_ifs with h
  · rw [Option.map_some, hu.lower_trimSpace, trimSpace_rdropWhile, String.ofList_toList]
  · rfl

theorem split_text (hu : u.Regular) (s : ArcSeal u) :
    split ';' (u.lower s.text) = s.tags.map fun t => u.lower t.text := by
  have hsemi : u.toLower ';' = ';' := (hu.toLower_eq_iff (by decide) (by decide) ';').2 rfl
  have hlower : (u.lower s.text).toList = [';'].intercalate
      (s.tags.map fun t => (u.lower t.text).toList) := by
    simp only [ArcSeal.text, Unicode.toList_lower, String.toList_ofList, map_intercalate, List.map_map,
      Function.comp_def, List.map_cons, List.map_nil, hsemi]
  have hparts : ∀ cs ∈ s.tags.map fun t => (u.lower t.text).toList, ';' ∉ cs := by
    intro cs hcs
    obtain ⟨t, -, rfl⟩ := List.mem_map.1 hcs
    rw [hu.mem_lower_iff (by decide) (by decide)]
    exact t.semicolon_notMem
  have hne : (s.tags.map fun t => (u.lower t.text).toList) ≠ [] := by
    intro hnil
    have hi : s.i ∈ s.tags.filter fun t => u.lower t.name = "i" := by
      rw [s.i_only]
      exact List.mem_singleton_self _
    rw [List.map_eq_nil_iff.1 hnil] at hi
    cases hi
  rw [split, hlower, List.splitOn_intercalate _ hparts hne, List.map_map]
  simp only [Function.comp_def, String.ofList_toList]

/-- **What is read of a seal** under a key: the values of the tags of that name. -/
theorem arcParams_text (hu : u.Regular) (s : ArcSeal u) {key : String} (hkey : '=' ∉ key.toList) :
    arcParams u s.text key =
      (s.tags.filter fun t => u.lower t.name = key).map fun t => u.lower (trimSpace t.value) := by
  rw [arcParams, split_text hu, List.filterMap_map]
  induction s.tags with
  | nil => rfl
  | cons t tags ih =>
    rw [List.filterMap_cons, List.filter_cons, Function.comp_apply, afterPrefix?_text hu t hkey, ih]
    by_cases h : u.lower t.name = key
    · simp [h]
    · simp [h]

theorem arcStringParam_text (hu : u.Regular) (s : ArcSeal u) :
    arcStringParam u s.text "cv" = u.lower (trimSpace s.cv.value) := by
  rw [arcStringParam, arcParams_text hu s (by decide), s.cv_only]
  rfl

theorem arcIntParam_text (hu : u.Regular) (s : ArcSeal u) :
    arcIntParam u s.text "i" = if minInt64 ≤ s.number ∧ s.number ≤ maxInt64 then s.number else 0 := by
  rw [arcIntParam, arcParams_text hu s (by decide), s.i_only, List.map_singleton,
    lower_decimal hu s.number_eq, List.findSome?_singleton, atoi_eq, s.number_eq]
  split_ifs with h
  · simp [Option.filter_some, h]
  · simp [Option.filter_some, h]

/-! ## The loop over the seals -/

/-- What the loop looks for. -/
theorem acceptable_iff (hu : u.Regular) (s : ArcSeal u) :
    arcIntParam u s.text "i" > 0 ∧ validCv u s.text ↔ s.Acceptable := by
  have hi := arcIntParam_text hu s
  have hcv := arcStringParam_text hu s
  simp only [validCv, hcv, Bool.or_eq_true, Bool.and_eq_true, decide_eq_true_eq]
  unfold ArcSeal.Acceptable ArcSeal.Says
  split_ifs at hi with hrange
  · rw [hi]
    exact ⟨fun h => ⟨h.1, hrange.2, h.2⟩, fun h => ⟨h.1, h.2.2⟩⟩
  · rw [hi]
    refine ⟨fun h => absurd h.1 (by decide), fun h => absurd ⟨?_, h.2.1⟩ hrange⟩
    have : minInt64 ≤ 0 := by decide
    exact this.trans h.1.le

/-- The loop ends with 0 if it starts there and never finds a seal. -/
theorem maxValid_foldl (seals : List String) {m : ℤ} (hm : 0 ≤ m) :
    seals.foldl (fun m s => if arcIntParam u s "i" > 0 ∧ validCv u s ∧ arcIntParam u s "i" > m then
      arcIntParam u s "i" else m) m = 0 ↔
        m = 0 ∧ ∀ s ∈ seals, ¬(arcIntParam u s "i" > 0 ∧ validCv u s) := by
  induction seals generalizing m with
  | nil => simp
  | cons s seals ih =>
    rw [List.foldl_cons, List.forall_mem_cons]
    split_ifs with h
    · rw [ih h.1.le]
      constructor
      · rintro ⟨hz, -⟩
        exact absurd hz h.1.ne'
      · rintro ⟨-, hs, -⟩
        exact absurd ⟨h.1, h.2.1⟩ hs
    · rw [ih hm]
      constructor
      · rintro ⟨rfl, hrest⟩
        exact ⟨rfl, fun hs => h ⟨hs.1, hs.2, hs.1⟩, hrest⟩
      · rintro ⟨hz, -, hrest⟩
        exact ⟨hz, hrest⟩

theorem maxValidInstance_eq_zero (seals : List String) :
    maxValidInstance u seals = 0 ↔ ∀ s ∈ seals, ¬(arcIntParam u s "i" > 0 ∧ validCv u s) :=
  (maxValid_foldl seals le_rfl).trans (and_iff_right rfl)

/-- **When the source accepts the seals of a message.** -/
theorem passed_iff (hu : u.Regular) {raw : List String} {seals : List (ArcSeal u)}
    (h : values "Arc-Seal" (fields raw) = seals.map ArcSeal.text) :
    (checkARCChain u raw).passed ↔ (∀ s ∈ seals, ¬s.Says "fail") ∧ ∃ s ∈ seals, s.Acceptable := by
  have hfail : (seals.map ArcSeal.text).any (fun s => u.equalFold (arcStringParam u s "cv") "fail") ↔
      ∃ s ∈ seals, s.Says "fail" := by
    simp only [List.any_map, List.any_eq_true, Function.comp_apply, arcStringParam_text hu]
    rfl
  have hzero : maxValidInstance u (seals.map ArcSeal.text) = 0 ↔ ∀ s ∈ seals, ¬s.Acceptable := by
    simp only [maxValidInstance_eq_zero, List.forall_mem_map, acceptable_iff hu]
  rw [checkARCChain_eq, arcChain]
  dsimp only
  rw [h]
  split_ifs with hf hz
  · obtain ⟨s, hs, hsays⟩ := hfail.1 hf
    simp only [ArcChainResult.zero, Bool.false_eq_true, false_iff]
    exact fun hno => hno.1 s hs hsays
  · simp only [ArcChainResult.zero, Bool.false_eq_true, false_iff]
    rintro ⟨-, s, hs, hacc⟩
    exact hzero.1 hz s hs hacc
  · have hok : (∀ s ∈ seals, ¬s.Says "fail") ∧ ∃ s ∈ seals, s.Acceptable := by
      refine ⟨fun s hs hsays => hf (hfail.2 ⟨s, hs, hsays⟩), ?_⟩
      by_contra hno
      exact hz (hzero.2 fun s hs hacc => hno ⟨s, hs, hacc⟩)
    split
    · exact iff_of_true rfl hok
    · exact iff_of_true rfl hok

/-- The order of the seals does not matter. -/
theorem arcChain_perm {header header' : List (String × String)}
    (hseals : (values "Arc-Seal" header').Perm (values "Arc-Seal" header))
    (haar : values "Arc-Authentication-Results" header' = values "Arc-Authentication-Results" header) :
    arcChain u header' = arcChain u header := by
  have hany (p : String → Bool) : (values "Arc-Seal" header').any p = (values "Arc-Seal" header).any p := by
    rw [Bool.eq_iff_iff, List.any_eq_true, List.any_eq_true]
    simp only [hseals.mem_iff]
  have hzero : maxValidInstance u (values "Arc-Seal" header') = 0 ↔
      maxValidInstance u (values "Arc-Seal" header) = 0 := by
    simp only [maxValidInstance_eq_zero, hseals.mem_iff]
  simp only [arcChain, haar, hany, hzero]

/-! ## Chains -/

/-- A seal does not say two things. -/
theorem Says.unique (hu : u.Regular) {s : ArcSeal u} {cv cv' : String} (h : s.Says cv) (h' : s.Says cv')
    (hcv : ∀ c ∈ cv.toList, c.toNat < 128) (hcv' : ∀ c ∈ cv'.toList, c.toNat < 128) :
    cv.toList.map Char.toLower = cv'.toList.map Char.toLower := by
  refine hu.fold_map hcv hcv' ?_
  simp only [ArcSeal.Says, Unicode.equalFold, decide_eq_true_eq] at h h'
  exact h.symm.trans h'

theorem ArcChain.not_fail (hu : u.Regular) {seals : List (ArcSeal u)} (h : ArcChain seals) :
    ∀ s ∈ seals, ¬s.Says "fail" := by
  obtain ⟨n, -, -, hcv⟩ := h
  intro s hs hfail
  have hsays := hcv s hs
  split_ifs at hsays
  · have := Says.unique hu hsays hfail (by simp) (by simp)
    revert this
    decide
  · have := Says.unique hu hsays hfail (by simp) (by simp)
    revert this
    decide

/-- The first instance of a chain is valid. -/
theorem ArcChain.exists_valid {seals : List (ArcSeal u)} (h : ArcChain seals) :
    ∃ s ∈ seals, s.Valid := by
  obtain ⟨n, hn, hperm, hcv⟩ := h
  have hone : (1 : ℤ) ∈ seals.map fun s => s.number := by
    rw [hperm.mem_iff, List.mem_map]
    exact ⟨0, List.mem_range.2 hn, rfl⟩
  obtain ⟨s, hs, hnum⟩ := List.mem_map.1 hone
  refine ⟨s, hs, by rw [hnum]; decide, by rw [hnum]; decide, hcv s hs⟩

/-- **Every chain passes, and what passes besides.**  Nothing passes with a
    seal that says `fail`, or without a seal that has an acceptable chain
    value; a valid seal with the highest instance number is enough, whatever
    the other seals are. -/
theorem arc_chain_highest (hu : u.Regular) {raw : List String} {seals : List (ArcSeal u)}
    (h : values "Arc-Seal" (fields raw) = seals.map ArcSeal.text) :
    (ArcChain seals → (checkARCChain u raw).passed) ∧
      ((checkARCChain u raw).passed → (∀ s ∈ seals, ¬s.Says "fail") ∧ ∃ s ∈ seals, s.Acceptable) ∧
      ((∀ s ∈ seals, ¬s.Says "fail") → (∃ s ∈ seals, s.Valid ∧ ∀ t ∈ seals, t.number ≤ s.number) →
        (checkARCChain u raw).passed) ∧
      ∀ raw' : List String, (values "Arc-Seal" (fields raw')).Perm (values "Arc-Seal" (fields raw)) →
        values "Arc-Authentication-Results" (fields raw') =
          values "Arc-Authentication-Results" (fields raw) →
        checkARCChain u raw' = checkARCChain u raw := by
  have hpassed := passed_iff hu h
  refine ⟨fun hchain => ?_, hpassed.1, fun hfail hhigh => ?_, fun raw' hseals haar => ?_⟩
  · obtain ⟨s, hs, hvalid⟩ := hchain.exists_valid
    exact hpassed.2 ⟨hchain.not_fail hu, s, hs, hvalid.acceptable⟩
  · obtain ⟨s, hs, hvalid, -⟩ := hhigh
    exact hpassed.2 ⟨hfail, s, hs, hvalid.acceptable⟩
  · rw [checkARCChain_eq, checkARCChain_eq]
    exact arcChain_perm hseals haar

end

/-! ## Two messages -/

def hopTag (name value : String) (hname : name = "i" ∨ name = "cv") (hvalue : ';' ∉ value.toList) :
    ArcTag where
  before := if name = "i" then "" else " "
  name := name
  value := value
  before_space := by rcases hname with rfl | rfl <;> simp [isSpace]
  name_ne := by rcases hname with rfl | rfl <;> decide
  name_chars := by rcases hname with rfl | rfl <;> simp [isSpace]
  value_chars := hvalue

/-- A seal with its two tags only. -/
def hopSeal (i : String) (cv : String) (number : ℤ) (hi : ';' ∉ i.toList) (hcv : ';' ∉ cv.toList)
    (hnumber : decimal? (trimSpace i) = some number) : ArcSeal .ascii where
  tags := [hopTag "i" i (.inl rfl) hi, hopTag "cv" cv (.inr rfl) hcv]
  i := hopTag "i" i (.inl rfl) hi
  cv := hopTag "cv" cv (.inr rfl) hcv
  number := number
  i_only := by
    have hcv : Unicode.ascii.lower "cv" ≠ "i" := by decide
    have hi : Unicode.ascii.lower "i" = "i" := by decide
    simp [hopTag, hi, hcv]
  cv_only := by
    have hcv : Unicode.ascii.lower "cv" = "cv" := by decide
    have hi : Unicode.ascii.lower "i" ≠ "cv" := by decide
    simp [hopTag, hi, hcv]
  number_eq := hnumber

def hop₁ : ArcSeal .ascii := hopSeal "1" "none" 1 (by decide) (by decide) (by decide)

def hop₂ : ArcSeal .ascii := hopSeal "2" "Pass" 2 (by decide) (by decide) (by decide)

def hop₃ : ArcSeal .ascii := hopSeal "3" "pass" 3 (by decide) (by decide) (by decide)

/-- Two hops, the last one first. -/
def forwardedMessage : List String :=
  ["ARC-Seal: i=2; cv=Pass", "ARC-Seal: i=1; cv=none", "From: a@b.com", "", "Hello."]

theorem arc_chain_highest_forwarded : (checkARCChain .ascii forwardedMessage).passed :=
  (@arc_chain_highest .ascii ascii_regular forwardedMessage [hop₂, hop₁] (by decide +kernel)).1
    ⟨2, by decide, by decide, by simp only [List.forall_mem_cons]; decide⟩

/-- The third seal of a chain without the two before it. -/
def orphanMessage : List String := ["ARC-Seal: i=3; cv=pass", "From: a@b.com", "", "Hello."]

theorem orphan_seal_passes : ¬∀ (raw : List String) (seals : List (ArcSeal .ascii)),
    values "Arc-Seal" (fields raw) = seals.map ArcSeal.text →
      ((checkARCChain .ascii raw).passed ↔ ArcChain seals) := by
  intro h
  have hpassed : (checkARCChain .ascii orphanMessage).passed := by decide +kernel
  obtain ⟨n, hn, hperm, -⟩ := (h orphanMessage [hop₃] (by decide +kernel)).1 hpassed
  have hone : (1 : ℤ) ∈ [hop₃].map fun s => s.number := by
    rw [hperm.mem_iff, List.mem_map]
    exact ⟨0, List.mem_range.2 hn, rfl⟩
  revert hone
  decide

end Mailrelay
