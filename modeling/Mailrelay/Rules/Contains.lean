/-
  Patterns of the form `*text*` (`matchPattern` in `internal/rules/engine.go`).

  They are meant as "contains".  But globs are those of `path.Match`, where a
  star does not match a slash, so a text is only found where no slash stands
  outside of it.

  * `matchPattern_starred`: what such a pattern matches;
  * `contains_iff`: the main result.
-/
import Mailrelay.Lib.Glob
import Mailrelay.Rules.Engine

namespace Mailrelay

open Lib

/-- `strings.ToLower` keeps the characters of a glob apart from all others. -/
structure KeepsGlobs (u : Unicode) : Prop where
  star : u.toLower '*' = '*'
  special : ∀ c, Glob.special (u.toLower c) → Glob.special c

/-- The lower-cased, trimmed value contains the lower-cased text. -/
def Contains (u : Unicode) (s value : String) : Prop :=
  (u.lower s).toList <:+: (u.lower (trimSpace value)).toList

/-- The value has as many slashes as the text. -/
def SameSlashes (u : Unicode) (s value : String) : Prop :=
  (u.lower (trimSpace value)).toList.count '/' = (u.lower s).toList.count '/'

section
variable {ps : Patterns} {s : String}

theorem trimSpace_starred (s : String) : trimSpace ("*" ++ s ++ "*") = "*" ++ s ++ "*" := by
  have h : ("*" ++ s ++ "*").toList = '*' :: s.toList ++ ['*'] := by simp
  have hd : ('*' :: s.toList ++ ['*']).dropWhile isSpace = '*' :: s.toList ++ ['*'] := rfl
  have ht : trimRight isSpace ('*' :: s.toList ++ ['*']) = '*' :: s.toList ++ ['*'] := by
    have hr : ('*' :: s.toList ++ ['*']).reverse = '*' :: (s.toList.reverse ++ ['*']) := by simp
    rw [trimRight, hr, List.dropWhile_cons_of_neg (by decide), ← hr, List.reverse_reverse]
  rw [trimSpace, h, hd, ht, ← h, String.ofList_toList]

theorem lower_starred (hu : KeepsGlobs ps.unicode) :
    ps.unicode.lower ("*" ++ s ++ "*") =
      String.ofList ('*' :: (ps.unicode.lower s).toList ++ ['*']) := by
  simp [Unicode.lower, hu.star]

/-- **What `*text*` matches**: values that contain the text, without a slash
    outside of it. -/
theorem matchPattern_starred (hglob : ps.pathMatch = pathMatch) (hu : KeepsGlobs ps.unicode)
    (hs : ∀ c ∈ s.toList, c ∉ ['*', '?', '[', ']', '\\']) (value : String) :
    matchPattern ps ("*" ++ s ++ "*") value ↔
      Contains ps.unicode s value ∧ SameSlashes ps.unicode s value := by
  have hspecial : ∀ c ∈ (ps.unicode.lower s).toList, Glob.special c = false := by
    intro c hc
    simp only [Unicode.lower, String.toList_ofList, List.mem_map] at hc
    obtain ⟨d, hd, rfl⟩ := hc
    refine Bool.eq_false_iff.2 fun h => hs d hd ?_
    have := hu.special d h
    simp only [Glob.special, Bool.or_eq_true, decide_eq_true_eq] at this
    rcases this with ((rfl | rfl) | rfl) | rfl <;> decide
  obtain ⟨hit, hm, hiff⟩ := Glob.pathMatch_starred hspecial (ps.unicode.lower (trimSpace value))
  have hmatch : matchPattern ps ("*" ++ s ++ "*") value = hit := by
    have hcs : ("*" ++ s ++ "*").toList = '*' :: s.toList ++ ['*'] := by simp
    simp only [matchPattern, trimSpace_starred, hcs]
    rw [if_neg (by simp), hglob, lower_starred hu, hm]
    rfl
  rw [hmatch, hiff]
  constructor
  · rintro ⟨a, b, h, ha, hb⟩
    refine ⟨⟨a, b, h.symm⟩, ?_⟩
    rw [SameSlashes, h, List.count_append, List.count_append, List.count_eq_zero_of_not_mem ha,
      List.count_eq_zero_of_not_mem hb, Nat.zero_add, Nat.add_zero]
  · rintro ⟨⟨a, b, h⟩, hn⟩
    rw [SameSlashes, ← h, List.count_append, List.count_append] at hn
    refine ⟨a, b, h.symm, ?_, ?_⟩
    · exact List.count_eq_zero.1 (by omega)
    · exact List.count_eq_zero.1 (by omega)

end

/-- **A pattern `*text*` means "contains" exactly when no slash stands outside
    the text**, or the text is not there. -/
theorem contains_iff (ps : Patterns) (hglob : ps.pathMatch = pathMatch) (hu : KeepsGlobs ps.unicode)
    (s : String) (hs : ∀ c ∈ s.toList, c ∉ ['*', '?', '[', ']', '\\']) (value : String) :
    (matchPattern ps ("*" ++ s ++ "*") value ↔ Contains ps.unicode s value) ↔
      (¬ Contains ps.unicode s value ∨ SameSlashes ps.unicode s value) := by
  rw [matchPattern_starred hglob hu hs]
  constructor
  · intro h
    by_cases hc : Contains ps.unicode s value
    · exact .inr (h.2 hc).2
    · exact .inl hc
  · rintro (hn | hn)
    · exact ⟨fun h => h.1, fun h => absurd h hn⟩
    · exact ⟨fun h => h.1, fun h => ⟨h, hn⟩⟩

/-- Globs as in Go, on ASCII text. -/
def globPatterns : Patterns := ⟨.ascii, fun _ => none, pathMatch⟩

theorem keepsGlobs_ascii : KeepsGlobs .ascii := by
  refine ⟨by decide, fun c h => ?_⟩
  by_cases hu : c.val ≥ 'A'.val ∧ c.val ≤ 'Z'.val
  · -- the lower case of a letter is a letter
    have h₁ : 65 ≤ c.val.toNat := UInt32.le_iff_toNat_le.1 hu.1
    have h₂ : c.val.toNat ≤ 90 := UInt32.le_iff_toNat_le.1 hu.2
    have hl : (Unicode.ascii.toLower c).val = c.val + ('a'.val - 'A'.val) :=
      congrArg Char.val (dif_pos hu)
    have hn : (Unicode.ascii.toLower c).val.toNat = c.val.toNat + 32 := by
      rw [hl, UInt32.toNat_add, show ('a'.val - 'A'.val).toNat = 32 from rfl]
      omega
    simp only [Glob.special, Bool.or_eq_true, decide_eq_true_eq] at h
    rcases h with ((h | h) | h) | h
    · have : 42 = c.val.toNat + 32 := by rw [h] at hn; exact hn
      omega
    · have : 63 = c.val.toNat + 32 := by rw [h] at hn; exact hn
      omega
    · have : 91 = c.val.toNat + 32 := by rw [h] at hn; exact hn
      omega
    · have : 92 = c.val.toNat + 32 := by rw [h] at hn; exact hn
      omega
  · have hl : Unicode.ascii.toLower c = c := dif_neg hu
    rwa [hl] at h

theorem contains_invoice : (matchPattern globPatterns ("*" ++ "invoice" ++ "*") "Your Invoice 7" ↔
    Contains .ascii "invoice" "Your Invoice 7") ∧ Contains .ascii "invoice" "Your Invoice 7" := by
  have hc : Contains .ascii "invoice" "Your Invoice 7" := by
    unfold Contains
    decide +kernel
  have hs : ∀ c ∈ "invoice".toList, c ∉ ['*', '?', '[', ']', '\\'] := by simp
  exact ⟨(contains_iff globPatterns rfl keepsGlobs_ascii "invoice" hs "Your Invoice 7").2
    (.inr (by unfold SameSlashes; decide +kernel)), hc⟩

/-- A slash in the subject hides the text. -/
theorem contains_misses : Contains .ascii "invoice" "Q3/invoice" ∧
    matchPattern globPatterns ("*" ++ "invoice" ++ "*") "Q3/invoice" = false := by
  refine ⟨by unfold Contains; decide +kernel, by decide +kernel⟩

end Mailrelay
