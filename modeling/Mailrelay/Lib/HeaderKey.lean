/-
  Canonical header names (`CanonicalMIMEHeaderKey`).

  * `canonicalKey_eq_iff`: names are the same if they are equal up to case;
  * `canonicalKey_of_padded`, `trimSpace_canonicalKey`: a name with white space
    around it is not the one without.
-/
import Mailrelay.Lib.Case
import Mailrelay.Lib.Mail

namespace Lib

/-! ## Case -/

theorem isTokenChar_toLower (c : Char) : isTokenChar c.toLower = isTokenChar c := by
  by_cases h : c.isUpper
  · have hl : c.toLower.isAlpha := by simp [Char.isAlpha, h]
    have hc : c.isAlpha := by simp [Char.isAlpha, h]
    simp [isTokenChar, Char.isAlphanum, hl, hc]
  · rw [Char.toLower_eq_of_not_isUpper h]

theorem isTokenChar_toUpper (c : Char) : isTokenChar c.toUpper = isTokenChar c := by
  rw [← isTokenChar_toLower, Char.toLower_toUpper_eq_toLower, isTokenChar_toLower]

theorem toLower_eq_dash {c : Char} (h : c.toLower = '-') : c = '-' := by
  by_cases hu : c.isUpper
  · have hc : c.toLower.isAlpha := by simp [Char.isAlpha, hu]
    rw [h] at hc
    exact absurd hc (by decide)
  · rwa [Char.toLower_eq_of_not_isUpper hu] at h

theorem all_canonicalChars (upper : Bool) (cs : List Char) :
    (canonicalChars upper cs).all isTokenChar = cs.all isTokenChar := by
  induction cs generalizing upper with
  | nil => rfl
  | cons c cs ih =>
    rw [canonicalChars, List.all_cons, List.all_cons, ih]
    split_ifs
    · rw [isTokenChar_toUpper]
    · rw [isTokenChar_toLower]

theorem canonicalChars_eq_iff {upper : Bool} {cs ds : List Char} :
    canonicalChars upper cs = canonicalChars upper ds ↔ cs.map Char.toLower = ds.map Char.toLower := by
  induction cs generalizing upper ds with
  | nil => cases ds <;> simp [canonicalChars]
  | cons c cs ih =>
    rcases ds with _ | ⟨d, ds⟩
    · simp [canonicalChars]
    · have hhead : ((if upper then c.toUpper else c.toLower) = if upper then d.toUpper else d.toLower) ↔
          c.toLower = d.toLower := by
        split_ifs
        · constructor
          · intro h
            rw [← Char.toLower_toUpper_eq_toLower, h, Char.toLower_toUpper_eq_toLower]
          · intro h
            rw [← Char.toUpper_toLower_eq_toUpper, h, Char.toUpper_toLower_eq_toUpper]
        · rfl
      rw [canonicalChars, canonicalChars, List.cons.injEq, hhead, List.map_cons, List.map_cons,
        List.cons.injEq]
      refine and_congr_right fun h => ?_
      have hdash : (c == '-') = (d == '-') := by
        rw [Bool.eq_iff_iff, beq_iff_eq, beq_iff_eq]
        constructor
        · rintro rfl
          exact toLower_eq_dash h.symm
        · rintro rfl
          exact toLower_eq_dash h
      rw [hdash, ih]

/-- **Names have the same canonical name if they are equal up to case.** -/
theorem canonicalKey_eq_iff {s t : String} (ht : t.toList.all isTokenChar) :
    canonicalKey s = canonicalKey t ↔ s.toList.map Char.toLower = t.toList.map Char.toLower := by
  by_cases hs : s.toList.all isTokenChar
  · rw [canonicalKey, canonicalKey, if_pos hs, if_pos ht, String.ofList_inj, canonicalChars_eq_iff]
  · rw [canonicalKey, canonicalKey, if_neg hs, if_pos ht]
    refine iff_of_false ?_ ?_
    · rintro rfl
      rw [String.toList_ofList, all_canonicalChars] at hs
      exact hs ht
    · intro h
      have hall := congrArg (fun cs => cs.all isTokenChar) h
      simp only [List.all_map, Function.comp_def, isTokenChar_toLower] at hall
      exact hs (hall.trans ht)

/-! ## White space -/

theorem isAlphanum_ascii {c : Char} (h : c.isAlphanum) : c.toNat ≤ 122 := by
  have hrange : (65 ≤ c.toNat ∧ c.toNat ≤ 90 ∨ 97 ≤ c.toNat ∧ c.toNat ≤ 122) ∨
      48 ≤ c.toNat ∧ c.toNat ≤ 57 := by
    simpa [Char.isAlphanum, Char.isAlpha, Char.isUpper, Char.isLower, Char.isDigit,
      UInt32.le_iff_toNat_le] using h
  omega

theorem isSpace_of_isTokenChar {c : Char} (h : isTokenChar c) : isSpace c = false := by
  have hlt : c.toNat < 128 := by
    rcases Bool.or_eq_true_iff.1 h with halnum | hmark
    · exact (isAlphanum_ascii halnum).trans_lt (by decide)
    · have hmarks : ∀ d ∈ "!#$%&'*+-.^_`|~".toList, d.toNat < 128 := by simp
      exact hmarks c (by simpa using hmark)
  have hascii : ∀ n < 128, isTokenChar (Char.ofNat n) → isSpace (Char.ofNat n) = false := by
    decide +kernel
  have := hascii c.toNat hlt
  rw [Char.ofNat_toNat] at this
  exact this h

theorem trimSpace_of_tokens {s : String} (h : s.toList.all isTokenChar) : trimSpace s = s := by
  have htoken : ∀ c ∈ s.toList, isSpace c = false := fun c hc =>
    isSpace_of_isTokenChar (List.all_eq_true.1 h c hc)
  exact trimSpace_eq_self (fun c hc => htoken c (List.mem_of_mem_head? hc))
    fun c hc => htoken c (List.mem_of_mem_getLast? hc)

/-- **A name with white space around it** stays as it is. -/
theorem canonicalKey_of_padded {s : String} (h : trimSpace s ≠ s) : canonicalKey s = s :=
  if_neg fun hall => h (trimSpace_of_tokens hall)

/-- **A trimmed name stays trimmed.** -/
theorem trimSpace_canonicalKey (s : String) :
    trimSpace (canonicalKey (trimSpace s)) = canonicalKey (trimSpace s) := by
  unfold canonicalKey
  split_ifs with hall
  · refine trimSpace_of_tokens ?_
    rw [String.toList_ofList, all_canonicalChars]
    exact hall
  · exact trimSpace_trimSpace s

end Lib
