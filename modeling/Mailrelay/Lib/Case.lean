/-
  Lower case, white space and the first occurrence of a text.

  `Regular` says what Go's tables have for ASCII: only letters change their
  case, and no other character becomes one of the ASCII characters that
  separate words.

  * `lower_trimSpace`: trimming and lower-casing commute;
  * `trimSpace_trimSpace`: a trimmed text stays as it is;
  * `cutText_append_none`: an occurrence does not cross a separator.
-/
import Mathlib
import Mailrelay.Lib.Text

namespace Lib

theorem map_intercalate {α β : Type*} (f : α → β) (sep : List α) (l : List (List α)) :
    (sep.intercalate l).map f = (sep.map f).intercalate (l.map (List.map f)) := by
  induction l with
  | nil => rfl
  | cons x l ih =>
    rcases l with _ | ⟨y, l⟩
    · simp
    · simp only [List.map_cons] at ih
      simp [List.intercalate_cons_cons, ih]

/-! ## Trimming -/

theorem trimRight_eq (p : Char → Bool) (cs : List Char) : trimRight p cs = cs.rdropWhile p := rfl

theorem toList_trimSpace (s : String) :
    (trimSpace s).toList = (s.toList.dropWhile isSpace).rdropWhile isSpace := by
  simp [trimSpace, trimRight_eq]

/-- What is left starts with no space. -/
theorem dropWhile_trimSpace (s : String) :
    (trimSpace s).toList.dropWhile isSpace = (trimSpace s).toList := by
  rw [toList_trimSpace, List.dropWhile_eq_self_iff]
  intro hpos hspace
  have hpre := List.rdropWhile_prefix isSpace (l := s.toList.dropWhile isSpace)
  have hlen : 0 < (s.toList.dropWhile isSpace).length := hpos.trans_le hpre.length_le
  rw [hpre.getElem hpos] at hspace
  exact List.dropWhile_get_zero_not isSpace s.toList hlen hspace

/-- **A trimmed text stays as it is.** -/
@[simp] theorem trimSpace_trimSpace (s : String) : trimSpace (trimSpace s) = trimSpace s := by
  rw [← String.toList_inj, toList_trimSpace (trimSpace s), dropWhile_trimSpace, toList_trimSpace,
    List.rdropWhile_idempotent]

/-- A text is trimmed if neither its first nor its last character is space. -/
theorem trimSpace_eq_self {s : String} (hhead : ∀ c ∈ s.toList.head?, isSpace c = false)
    (hlast : ∀ c ∈ s.toList.getLast?, isSpace c = false) : trimSpace s = s := by
  rw [← String.toList_inj, toList_trimSpace]
  have hdrop : s.toList.dropWhile isSpace = s.toList := by
    rcases hs : s.toList with _ | ⟨c, cs⟩
    · rfl
    · have := hhead c (by simp [hs])
      simp [this]
  rw [hdrop, List.rdropWhile_eq_self_iff]
  intro hne
  have := hlast (s.toList.getLast hne) (List.getLast?_eq_some_getLast hne)
  simp [this]

/-- White space around a text is ignored. -/
theorem trimSpace_padded {before after : List Char} (hbefore : ∀ c ∈ before, isSpace c)
    (hafter : ∀ c ∈ after, isSpace c) (cs : List Char) :
    trimSpace (String.ofList (before ++ cs ++ after)) = trimSpace (String.ofList cs) := by
  have hright : ∀ l : List Char, (l ++ after).rdropWhile isSpace = l.rdropWhile isSpace := by
    intro l
    have hrev : ∀ c ∈ after.reverse, isSpace c := by simpa using hafter
    rw [List.rdropWhile, List.reverse_append, List.dropWhile_append_of_pos hrev, List.rdropWhile]
  rw [← String.toList_inj, toList_trimSpace, toList_trimSpace, String.toList_ofList,
    String.toList_ofList, List.append_assoc, List.dropWhile_append_of_pos hbefore,
    List.dropWhile_append]
  split_ifs with hempty
  · have hcs : cs.dropWhile isSpace = [] := by simpa using hempty
    have hdrop : after.dropWhile isSpace = [] := List.dropWhile_eq_nil_iff.2 hafter
    rw [hcs, hdrop]
  · exact hright _

theorem rdropWhile_append_cons {p : Char → Bool} {c : Char} (hc : p c = false) (l r : List Char) :
    (l ++ c :: r).rdropWhile p = l ++ c :: r.rdropWhile p := by
  induction r using List.reverseRecOn with
  | nil =>
    rw [List.rdropWhile_concat_neg p l c (by simp [hc]), List.rdropWhile_nil]
  | append_singleton r d ih =>
    rw [← List.cons_append, ← List.append_assoc, List.rdropWhile_concat, List.rdropWhile_concat, ih]
    split_ifs
    · rfl
    · simp

theorem trimSpace_rdropWhile (cs : List Char) :
    trimSpace (String.ofList (cs.rdropWhile isSpace)) = trimSpace (String.ofList cs) := by
  have hend : ∀ c ∈ cs.rtakeWhile isSpace, isSpace c := fun c hc => List.mem_rtakeWhile_imp hc
  have h := @trimSpace_padded [] _ (by simp) hend (cs.rdropWhile isSpace)
  rwa [List.nil_append, List.rdropWhile_append_rtakeWhile, eq_comm] at h

theorem trimSpace_eq_empty {s : String} : trimSpace s = "" ↔ ∀ c ∈ s.toList, isSpace c := by
  rw [← String.toList_inj, toList_trimSpace]
  simp only [String.toList_empty, List.rdropWhile_eq_nil_iff]
  constructor
  · intro h c hc
    by_contra hns
    have : c ∈ s.toList.dropWhile isSpace := by
      have := List.takeWhile_append_dropWhile (p := isSpace) (l := s.toList)
      rw [← this, List.mem_append] at hc
      rcases hc with hc | hc
      · exact absurd (List.mem_takeWhile_imp hc) hns
      · exact hc
    exact hns (h c this)
  · intro h c hc
    exact h c ((List.dropWhile_sublist _).subset hc)

/-! ## Lower case -/

/-- What Go's tables have for ASCII. -/
structure Unicode.Regular (u : Unicode) : Prop where
  ascii : ∀ c, c.toNat < 128 → u.toLower c = c.toLower
  /-- only letters become letters of ASCII, and nothing else changes to ASCII -/
  separator : ∀ c, (u.toLower c).toNat < 128 → (u.toLower c).isAlpha = false → u.toLower c = c
  space : ∀ c, isSpace (u.toLower c) = isSpace c
  fold : ∀ c d, c.toNat < 128 → d.toNat < 128 → u.simpleFold c = u.simpleFold d → c.toLower = d.toLower

/-- Letters are no white space. -/
theorem isSpace_of_isAlpha {c : Char} (h : c.isAlpha) : isSpace c = false := by
  have hrange : 65 ≤ c.toNat ∧ c.toNat ≤ 90 ∨ 97 ≤ c.toNat ∧ c.toNat ≤ 122 := by
    simpa [Char.isAlpha, Char.isUpper, Char.isLower, UInt32.le_iff_toNat_le] using h
  have hspace : ∀ n : ℕ, 65 ≤ n → n ≤ 122 → isSpace (Char.ofNat n) = false := by decide
  have hc := hspace c.toNat (by omega) (by omega)
  rwa [Char.ofNat_toNat] at hc

theorem ascii_regular : Unicode.ascii.Regular := by
  refine ⟨fun _ _ => rfl, fun c _ halpha => ?_, fun c => ?_, fun _ _ _ _ h => h⟩
  · have hc : c.isAlpha = false := by simpa [Unicode.ascii] using halpha
    refine Char.toLower_eq_of_not_isUpper fun hupper => ?_
    simp [Char.isAlpha, hupper] at hc
  · by_cases hupper : c.isUpper
    · have hc : c.isAlpha := by simp [Char.isAlpha, hupper]
      have hlower : c.toLower.isAlpha := by simpa using hc
      exact (isSpace_of_isAlpha hlower).trans (isSpace_of_isAlpha hc).symm
    · exact congrArg isSpace (Char.toLower_eq_of_not_isUpper hupper)

namespace Unicode

variable {u : Unicode}

@[simp] theorem toList_lower (u : Unicode) (s : String) :
    (u.lower s).toList = s.toList.map u.toLower := by
  simp [lower]

@[simp] theorem lower_append (u : Unicode) (s t : String) :
    u.lower (s ++ t) = u.lower s ++ u.lower t := by
  rw [← String.toList_inj]
  simp

/-- Lower-casing keeps the number of characters. -/
theorem length_lower (u : Unicode) (s : String) : (u.lower s).toList.length = s.toList.length := by
  simp

/-- A separator is its own lower case, and of nothing else. -/
theorem Regular.toLower_eq_iff (hu : u.Regular) {sep : Char} (hsep : sep.toNat < 128)
    (halpha : sep.isAlpha = false) (c : Char) : u.toLower c = sep ↔ c = sep := by
  have hself : u.toLower sep = sep := by
    rw [hu.ascii sep hsep]
    refine Char.toLower_eq_of_not_isUpper fun hupper => ?_
    simp [Char.isAlpha, hupper] at halpha
  constructor
  · intro h
    rw [← hu.separator c (by rw [h]; exact hsep) (by rw [h]; exact halpha), h]
  · rintro rfl
    exact hself

theorem Regular.mem_lower_iff (hu : u.Regular) {sep : Char} (hsep : sep.toNat < 128)
    (halpha : sep.isAlpha = false) (s : String) : sep ∈ (u.lower s).toList ↔ sep ∈ s.toList := by
  rw [toList_lower, List.mem_map]
  constructor
  · rintro ⟨c, hc, he⟩
    rw [hu.toLower_eq_iff hsep halpha] at he
    exact he ▸ hc
  · intro h
    exact ⟨sep, h, (hu.toLower_eq_iff hsep halpha sep).2 rfl⟩

/-- A text of ASCII without letters stays as it is. -/
theorem Regular.lower_eq_self (hu : u.Regular) {s : String}
    (hs : ∀ c ∈ s.toList, c.toNat < 128 ∧ c.isAlpha = false) : u.lower s = s := by
  rw [← String.toList_inj, toList_lower]
  conv_rhs => rw [← List.map_id s.toList]
  refine List.map_congr_left fun c hc => ?_
  exact (hu.toLower_eq_iff (hs c hc).1 (hs c hc).2 c).2 rfl

/-- Texts of ASCII that fold alike are equal up to case. -/
theorem Regular.fold_map (hu : u.Regular) {cs ds : List Char} (hcs : ∀ c ∈ cs, c.toNat < 128)
    (hds : ∀ d ∈ ds, d.toNat < 128) (h : cs.map u.simpleFold = ds.map u.simpleFold) :
    cs.map Char.toLower = ds.map Char.toLower := by
  induction cs generalizing ds with
  | nil => rw [List.map_eq_nil_iff.1 h.symm]
  | cons c cs ih =>
    rcases ds with _ | ⟨d, ds⟩
    · cases h
    · rw [List.map_cons, List.map_cons, List.cons.injEq] at h
      rw [List.forall_mem_cons] at hcs hds
      rw [List.map_cons, List.map_cons, hu.fold c d hcs.1 hds.1 h.1, ih hcs.2 hds.2 h.2]

/-- **Trimming and lower-casing commute.** -/
theorem Regular.lower_trimSpace (hu : u.Regular) (s : String) :
    trimSpace (u.lower s) = u.lower (trimSpace s) := by
  have hcomp : isSpace ∘ u.toLower = isSpace := by
    funext c
    exact hu.space c
  rw [← String.toList_inj, toList_trimSpace, toList_lower, toList_lower, toList_trimSpace,
    List.dropWhile_map, hcomp]
  simp only [List.rdropWhile, ← List.map_reverse, List.dropWhile_map, hcomp]

end Unicode

/-! ## The first occurrence -/

theorem cutText_eq_some {sep cs before after : List Char} (h : cutText sep cs = some (before, after)) :
    cs = before ++ sep ++ after := by
  induction cs generalizing before with
  | nil =>
    simp only [cutText] at h
    split_ifs at h with hsep
    cases h
    simp [hsep]
  | cons c cs ih =>
    simp only [cutText] at h
    split_ifs at h with hpre
    · cases h
      exact (List.prefix_iff_eq_append.1 (List.isPrefixOf_iff_prefix.1 hpre)).symm
    · obtain ⟨⟨before', after'⟩, h', he⟩ := Option.map_eq_some_iff.1 h
      cases he
      rw [ih h']
      simp

theorem cutText_append {sep : List Char} (hne : sep ≠ []) (ds : List Char) :
    cutText sep (sep ++ ds) = some ([], ds) := by
  obtain ⟨c, cs, rfl⟩ := List.exists_cons_of_ne_nil hne
  have hpre : (c :: cs).isPrefixOf (c :: (cs ++ ds)) :=
    List.isPrefixOf_iff_prefix.2 (List.prefix_append _ ds)
  rw [List.cons_append, cutText, if_pos hpre, List.length_cons, List.drop_succ_cons, List.drop_left]

/-- A prefix of a longer text that is no longer than the text itself. -/
theorem isPrefixOf_append {sep cs : List Char} (h : sep.length ≤ cs.length) (ds : List Char) :
    sep.isPrefixOf (cs ++ ds) = sep.isPrefixOf cs := by
  rw [Bool.eq_iff_iff, List.isPrefixOf_iff_prefix, List.isPrefixOf_iff_prefix]
  constructor
  · intro hp
    exact List.prefix_of_prefix_length_le hp (List.prefix_append cs ds) h
  · intro hp
    exact hp.trans (List.prefix_append cs ds)

/-- More text after the first occurrence. -/
theorem cutText_append_some {sep cs before after : List Char}
    (h : cutText sep cs = some (before, after)) (ds : List Char) :
    cutText sep (cs ++ ds) = some (before, after ++ ds) := by
  induction cs generalizing before with
  | nil =>
    simp only [cutText] at h
    split_ifs at h with hsep
    cases h
    subst hsep
    cases ds <;> simp [cutText]
  | cons c cs ih =>
    have hlen : sep.length ≤ (c :: cs).length := by
      rw [cutText_eq_some h]
      simp only [List.length_append]
      omega
    have hpre := isPrefixOf_append hlen ds
    simp only [cutText] at h
    rw [List.cons_append] at hpre ⊢
    rw [cutText, hpre]
    split_ifs at h ⊢ with hp
    · cases h
      rw [← List.cons_append, List.drop_append_of_le_length hlen]
    · obtain ⟨⟨before', after'⟩, h', he⟩ := Option.map_eq_some_iff.1 h
      cases he
      rw [ih h']
      rfl

/-- **An occurrence does not cross a character that it does not contain.** -/
theorem cutText_append_none {sep cs : List Char} {c : Char} (hc : c ∉ sep) (hne : sep ≠ [])
    (h : cutText sep (cs ++ [c]) = none) (ds : List Char) :
    cutText sep (cs ++ c :: ds) =
      (cutText sep ds).map fun (before, after) => (cs ++ c :: before, after) := by
  induction cs with
  | nil =>
    have hp : sep.isPrefixOf (c :: ds) = false := by
      rcases sep with _ | ⟨d, sep⟩
      · exact absurd rfl hne
      · rw [List.mem_cons, not_or] at hc
        rw [List.isPrefixOf_cons_cons, beq_false_of_ne (Ne.symm hc.1), Bool.false_and]
    simp [cutText, hp]
  | cons d cs ih =>
    simp only [List.cons_append, cutText] at h ⊢
    split_ifs at h with hp
    have hp' : sep.isPrefixOf (d :: (cs ++ c :: ds)) = false := by
      rw [Bool.eq_false_iff]
      intro hpre
      rw [List.isPrefixOf_iff_prefix] at hpre
      by_cases hlen : sep.length ≤ (d :: (cs ++ [c])).length
      · refine hp (List.isPrefixOf_iff_prefix.2 (List.prefix_of_prefix_length_le hpre ?_ hlen))
        exact ⟨ds, by simp⟩
      · -- the text reaches beyond `c`
        have hsub : d :: (cs ++ [c]) <+: sep :=
          List.prefix_of_prefix_length_le ⟨ds, by simp⟩ hpre (by omega)
        exact hc (hsub.subset (by simp))
    rw [hp', ih (Option.map_eq_none_iff.1 h)]
    simp [Option.map_map, Function.comp_def]

end Lib
