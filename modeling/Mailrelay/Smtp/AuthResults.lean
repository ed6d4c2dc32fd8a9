/-
  Reading an `Authentication-Results` header (`authResultValue` in
  `internal/smtp/auth.go`).

  `AuthResults` is the structure of a header value: the server's id, and
  results with the properties, reasons and comments that follow them.  The
  source searches the text for the first `method=` instead.  Where it stands
  before the result of the method, the source reads it (after a blank, a tab or
  `;`) or gives up (after anything else).

  * `cutText_before`, `cutText_before_none`: where the search ends;
  * `auth_results_iff`: when what is read is the result of the method.
-/
import Mailrelay.Lib.Case
import Mailrelay.Smtp.Auth

namespace Mailrelay

open Lib

/-! ## Header values -/

structure Blanks where
  text : String
  blank : ∀ c ∈ text.toList, c = ' ' ∨ c = '\t'

/-- What may follow a result. -/
inductive AuthItem where
  | property (name value : String)
  | reason (text : String)
  | comment (text : String)

def AuthItem.text : AuthItem → String
  | .property name value => name ++ "=" ++ value
  | .reason text => "reason=\"" ++ text ++ "\""
  | .comment text => "(" ++ text ++ ")"

/-- `; method=result`, with items after blanks. -/
structure MethodResult where
  before : Blanks
  after : Blanks
  method : String
  result : String
  items : List ({ b : Blanks // b.text ≠ "" } × AuthItem)
  result_chars : ∀ c ∈ result.toList, isSpace c = false ∧ c ≠ ';' ∧ c ≠ '('

structure AuthResults where
  servId : String
  results : List MethodResult

namespace MethodResult

def sep (r : MethodResult) : String := r.before.text ++ ";" ++ r.after.text

def itemsText (r : MethodResult) : String :=
  r.items.foldr (fun i s => i.1.val.text ++ i.2.text ++ s) ""

def text (r : MethodResult) : String := r.sep ++ (r.method ++ "=" ++ r.result) ++ r.itemsText

end MethodResult

def resultsText : List MethodResult → String
  | [] => ""
  | r :: rs => r.text ++ resultsText rs

/-- `pass`, `fail` for a (soft) failure, and `none` for anything else. -/
def authVerdict : String → AuthCheckResult
  | "pass" => .pass
  | "fail" | "softfail" => .fail
  | _ => .none

/-- A character that may stand before a method. -/
def isBoundary (c : Char) : Bool := " \t\n;".toList.contains c

/-- A character that ends a result. -/
def endsResult (c : Char) : Bool := " \t\n\r;(".toList.contains c

/-- The result at the start of a text. -/
def firstWord (cs : List Char) : String := trimSpace (String.ofList (cs.takeWhile fun c => !endsResult c))

section
variable (u : Unicode) (m : String)

/-- The text up to the first result of the method. -/
def textBefore : List MethodResult → String
  | [] => ""
  | r :: rs => if u.lower r.method = m then r.sep else r.text ++ textBefore rs

/-- The text from the first result of the method on. -/
def textFrom : List MethodResult → String
  | [] => ""
  | r :: rs =>
    if u.lower r.method = m then r.method ++ "=" ++ r.result ++ r.itemsText ++ resultsText rs
    else textFrom rs

namespace AuthResults

variable (a : AuthResults)

def text : String := a.servId ++ resultsText a.results

/-- The first result of the method. -/
def find? : Option MethodResult := a.results.find? fun r => u.lower r.method = m

/-- **What the header says** about the method. -/
def verdict : AuthCheckResult :=
  match a.find? u m with
  | none => .none
  | some r => authVerdict (u.lower r.result)

def before : String := a.servId ++ textBefore u m a.results

/-- Before the first result of the method (anywhere, if there is none) the text
    `method=` does not occur, or the first time it does it says the same:
    as a word of its own, or, inside another word, when the header says nothing. -/
def Undisturbed : Prop :=
  ∀ before after, cutText (m ++ "=").toList (u.lower (a.before u m)).toList = some (before, after) →
    a.verdict u m = if before.getLast?.all isBoundary then authVerdict (firstWord after) else .none

end AuthResults

/-! ## Reading -/

theorem authResultValue_of_none {s : String} (h : cutText (m ++ "=").toList (u.lower s).toList = none) :
    authResultValue u s m = .none := by
  simp only [authResultValue, h]

theorem authResultValue_of_some {s : String} {before after : List Char}
    (h : cutText (m ++ "=").toList (u.lower s).toList = some (before, after)) :
    authResultValue u s m =
      if before.getLast?.all isBoundary then authVerdict (firstWord after) else .none := by
  have hany : (before.getLast?.any fun c => !(" \t\n;".toList.contains c)) =
      !before.getLast?.all isBoundary := by
    cases before.getLast? <;> rfl
  simp only [authResultValue, h, hany]
  cases before.getLast?.all isBoundary with
  | false => simp
  | true =>
    have hword : trimSpace (String.ofList (after.takeWhile fun c => !(" \t\n\r;(".toList.contains c))) =
        firstWord after := rfl
    rw [Bool.not_true, if_neg Bool.false_ne_true, if_pos rfl, hword]
    generalize firstWord after = word
    rfl

end

/-! ## The parts of a header value -/

section
variable {u : Unicode} {m : String}

theorem resultsText_eq (rs : List MethodResult) :
    resultsText rs = textBefore u m rs ++ textFrom u m rs := by
  induction rs with
  | nil => rfl
  | cons r rs ih =>
    simp only [resultsText, textBefore, textFrom]
    split_ifs
    · simp only [MethodResult.text, String.append_assoc]
    · rw [ih, String.append_assoc]

theorem AuthResults.text_eq (a : AuthResults) : a.text = a.before u m ++ textFrom u m a.results := by
  rw [AuthResults.text, AuthResults.before, resultsText_eq (u := u) (m := m), String.append_assoc]

/-- A separator ends with a blank or a semicolon. -/
theorem sep_concat (r : MethodResult) :
    ∃ cs c, r.sep.toList = cs ++ [c] ∧ (c = ' ' ∨ c = '\t' ∨ c = ';') := by
  rcases List.eq_nil_or_concat r.after.text.toList with hnil | ⟨cs, c, hcs⟩
  · exact ⟨r.before.text.toList, ';', by simp [MethodResult.sep, hnil], by simp⟩
  · refine ⟨r.before.text.toList ++ ';' :: cs, c, by simp [MethodResult.sep, hcs], ?_⟩
    have := r.after.blank c (by simp [hcs])
    tauto

theorem itemsText_start (r : MethodResult) : ∀ c ∈ r.itemsText.toList.head?, c = ' ' ∨ c = '\t' := by
  rcases hi : r.items with _ | ⟨⟨⟨b, hb⟩, item⟩, items⟩
  · simp [MethodResult.itemsText, hi]
  · obtain ⟨c, cs, hcs⟩ := List.exists_cons_of_ne_nil (mt String.toList_eq_nil_iff.1 hb)
    have := b.blank c (by simp [hcs])
    simpa [MethodResult.itemsText, hi, hcs] using this

theorem resultsText_start (rs : List MethodResult) :
    ∀ c ∈ (resultsText rs).toList.head?, c = ' ' ∨ c = '\t' ∨ c = ';' := by
  rcases rs with _ | ⟨r, rs⟩
  · simp [resultsText]
  · rcases hb : r.before.text.toList with _ | ⟨c, cs⟩
    · simp [resultsText, MethodResult.text, MethodResult.sep, hb]
    · have := r.before.blank c (by simp [hb])
      have : c = ' ' ∨ c = '\t' ∨ c = ';' := by tauto
      simpa [resultsText, MethodResult.text, MethodResult.sep, hb] using this

/-- After a result the header ends, or there is a blank or a semicolon. -/
theorem afterResult_start (r : MethodResult) (rs : List MethodResult) :
    ∀ c ∈ (r.itemsText ++ resultsText rs).toList.head?, c = ' ' ∨ c = '\t' ∨ c = ';' := by
  intro c hc
  rw [String.toList_append, List.head?_append, Option.mem_def, Option.or_eq_some_iff] at hc
  rcases hc with hc | ⟨-, hc⟩
  · have := itemsText_start r c hc
    tauto
  · exact resultsText_start rs c hc

/-- The text from the result of the method on. -/
theorem textFrom_of_find? {rs : List MethodResult} {r : MethodResult}
    (h : rs.find? (fun r => u.lower r.method = m) = some r) :
    u.lower r.method = m ∧ (∃ rest, textFrom u m rs =
      r.method ++ "=" ++ r.result ++ (r.itemsText ++ resultsText rest)) ∧
      ∃ s, textBefore u m rs = s ++ r.sep := by
  induction rs with
  | nil => cases h
  | cons r' rs ih =>
    rw [List.find?_cons] at h
    simp only [textFrom, textBefore]
    split_ifs with hm
    · simp only [hm, decide_true, Option.some.injEq] at h
      subst h
      exact ⟨hm, ⟨rs, by simp [String.append_assoc]⟩, "", by simp⟩
    · simp only [hm, decide_false] at h
      obtain ⟨hr, hfrom, s, hs⟩ := ih h
      exact ⟨hr, hfrom, r'.text ++ s, by rw [hs, String.append_assoc]⟩

theorem textFrom_of_find?_none {rs : List MethodResult}
    (h : rs.find? (fun r => u.lower r.method = m) = none) : textFrom u m rs = "" := by
  induction rs with
  | nil => rfl
  | cons r rs ih =>
    rw [List.find?_eq_none] at h
    rw [List.forall_mem_cons] at h
    have hr : u.lower r.method ≠ m := by simpa using h.1
    rw [textFrom, if_neg hr]
    exact ih (List.find?_eq_none.2 h.2)

/-! ## Words -/

theorem firstWord_append_of_ends {cs : List Char} (h : ∃ c ∈ cs, endsResult c) (ds : List Char) :
    firstWord (cs ++ ds) = firstWord cs := by
  have hlen : (cs.takeWhile fun c => !endsResult c).length ≠ cs.length := by
    intro hlen
    obtain ⟨c, hc, he⟩ := h
    have hall := List.takeWhile_eq_self_iff.1 ((List.takeWhile_prefix _).eq_of_length hlen) c hc
    simp [he] at hall
  rw [firstWord, firstWord, List.takeWhile_append, if_neg hlen]

theorem firstWord_of_start {cs ds : List Char} (hcs : ∀ c ∈ cs, isSpace c = false ∧ endsResult c = false)
    (hds : ∀ c ∈ ds.head?, endsResult c) : firstWord (cs ++ ds) = String.ofList cs := by
  have htake : (cs ++ ds).takeWhile (fun c => !endsResult c) = cs := by
    rw [List.takeWhile_append_of_pos (by simpa using fun c hc => (hcs c hc).2)]
    rcases ds with _ | ⟨c, ds⟩
    · simp
    · simp [hds c (by simp)]
  rw [firstWord, htake]
  refine trimSpace_eq_self ?_ ?_
  · intro c hc
    rw [String.toList_ofList] at hc
    exact (hcs c (List.mem_of_mem_head? hc)).1
  · intro c hc
    rw [String.toList_ofList] at hc
    exact (hcs c (List.mem_of_mem_getLast? hc)).1

/-- A character that separates results is its own lower case. -/
theorem toLower_separator (hu : u.Regular) {c : Char} (h : c = ' ' ∨ c = '\t' ∨ c = ';') :
    u.toLower c = c ∧ endsResult c ∧ isBoundary c := by
  rcases h with rfl | rfl | rfl
  all_goals exact ⟨(hu.toLower_eq_iff (by decide) (by decide) _).2 rfl, by decide, by decide⟩

theorem lower_result (hu : u.Regular) (r : MethodResult) :
    ∀ c ∈ (u.lower r.result).toList, isSpace c = false ∧ endsResult c = false := by
  intro c hc
  rw [Unicode.toList_lower, List.mem_map] at hc
  obtain ⟨d, hd, rfl⟩ := hc
  obtain ⟨hspace, hsemi, hparen⟩ := r.result_chars d hd
  have hsp : isSpace (u.toLower d) = false := (hu.space d).trans hspace
  refine ⟨hsp, ?_⟩
  have hne (sep : Char) (hsep : sep.toNat < 128) (halpha : sep.isAlpha = false) (h : d ≠ sep) :
      u.toLower d ≠ sep := fun he => h ((hu.toLower_eq_iff hsep halpha d).1 he)
  have hblank (sep : Char) (hsep : isSpace sep) : u.toLower d ≠ sep := by
    rintro rfl
    simp [hsp] at hsep
  simp [endsResult, hblank ' ' (by decide), hblank '\t' (by decide), hblank '\n' (by decide),
    hblank '\r' (by decide), hne ';' (by decide) (by decide) hsemi, hne '(' (by decide) (by decide) hparen]

/-! ## Where the search ends -/

theorem before_concat {a : AuthResults} {r : MethodResult} (h : a.find? u m = some r) :
    ∃ cs c, (a.before u m).toList = cs ++ [c] ∧ (c = ' ' ∨ c = '\t' ∨ c = ';') := by
  obtain ⟨-, -, s, hs⟩ := textFrom_of_find? h
  obtain ⟨cs, c, hcs, hc⟩ := sep_concat r
  exact ⟨a.servId.toList ++ s.toList ++ cs, c, by simp [AuthResults.before, hs, hcs], hc⟩

theorem ends_notMem (hm : ∀ c ∈ m.toList, endsResult c = false) {c : Char} (hc : endsResult c) :
    c ∉ (m ++ "=").toList := by
  intro hmem
  rw [String.toList_append, List.mem_append] at hmem
  rcases hmem with hmem | hmem
  · simp [hm c hmem] at hc
  · rw [List.mem_singleton.1 hmem] at hc
    revert hc
    decide

/-- **A look-alike before the result is what the source reads.** -/
theorem read_before (hu : u.Regular) {a : AuthResults} {before after : List Char}
    (h : cutText (m ++ "=").toList (u.lower (a.before u m)).toList = some (before, after)) :
    authResultValue u a.text m =
      if before.getLast?.all isBoundary then authVerdict (firstWord after) else .none := by
  have hcut : cutText (m ++ "=").toList (u.lower a.text).toList =
      some (before, after ++ (u.lower (textFrom u m a.results)).toList) := by
    have := cutText_append_some h (u.lower (textFrom u m a.results)).toList
    rwa [← String.toList_append, ← Unicode.lower_append, ← a.text_eq] at this
  have hword : firstWord (after ++ (u.lower (textFrom u m a.results)).toList) = firstWord after := by
    rcases hf : a.find? u m with _ | r
    · simp [textFrom_of_find?_none hf, Unicode.lower]
    · obtain ⟨cs, c, hcs, hc⟩ := before_concat hf
      obtain ⟨hlower, hends, -⟩ := toLower_separator hu hc
      -- the text before ends with `c`, and a look-alike with `=`
      have hlast : (before ++ (m ++ "=").toList ++ after).getLast? = some c := by
        rw [← cutText_eq_some h, Unicode.toList_lower, hcs]
        simp [hlower]
      rw [List.getLast?_append, Option.or_eq_some_iff] at hlast
      rcases hlast with hlast | ⟨-, hlast⟩
      · exact firstWord_append_of_ends ⟨c, List.mem_of_getLast? hlast, hends⟩ _
      · have : '=' = c := by simpa using hlast
        subst this
        exact absurd hends (by decide)
  rw [authResultValue_of_some u m hcut, hword]

/-- **Without a look-alike the source reads the result.** -/
theorem read_result (hu : u.Regular) (hm : ∀ c ∈ m.toList, endsResult c = false) {a : AuthResults}
    (h : cutText (m ++ "=").toList (u.lower (a.before u m)).toList = none) :
    authResultValue u a.text m = a.verdict u m := by
  rcases hf : a.find? u m with _ | r
  · have htext : a.text = a.before u m := by
      rw [a.text_eq (u := u) (m := m), textFrom_of_find?_none hf, String.append_empty]
    rw [AuthResults.verdict, hf, htext]
    exact authResultValue_of_none u m h
  · obtain ⟨hr, ⟨rest, hrest⟩, -⟩ := textFrom_of_find? hf
    obtain ⟨cs, c, hcs, hc⟩ := before_concat hf
    obtain ⟨hlower, hends, hboundary⟩ := toLower_separator hu hc
    have hequals : u.lower "=" = "=" := hu.lower_eq_self (by simp)
    have hfrom : (u.lower (textFrom u m a.results)).toList =
        (m ++ "=").toList ++ ((u.lower r.result).toList ++
          (u.lower (r.itemsText ++ resultsText rest)).toList) := by
      rw [hrest]
      simp only [Unicode.lower_append, hr, hequals, String.toList_append, List.append_assoc]
    have hne : (m ++ "=").toList ≠ [] := by simp
    have hcut : cutText (m ++ "=").toList (u.lower a.text).toList = some (cs.map u.toLower ++ [c],
        (u.lower r.result).toList ++ (u.lower (r.itemsText ++ resultsText rest)).toList) := by
      have htext : (u.lower a.text).toList =
          cs.map u.toLower ++ c :: (u.lower (textFrom u m a.results)).toList := by
        rw [a.text_eq (u := u) (m := m)]
        simp [hcs, hlower]
      rw [Unicode.toList_lower, hcs, List.map_append, List.map_singleton, hlower] at h
      rw [htext, cutText_append_none (ends_notMem hm hends) hne h, hfrom, cutText_append hne]
      rfl
    have hword : firstWord ((u.lower r.result).toList ++
        (u.lower (r.itemsText ++ resultsText rest)).toList) = u.lower r.result := by
      rw [firstWord_of_start (lower_result hu r), String.ofList_toList]
      intro d hd
      rw [Unicode.toList_lower, List.head?_map, Option.mem_def, Option.map_eq_some_iff] at hd
      obtain ⟨e, he, rfl⟩ := hd
      obtain ⟨hlower', hends', -⟩ := toLower_separator hu (afterResult_start r rest e he)
      rwa [hlower']
    rw [authResultValue_of_some u m hcut, hword, AuthResults.verdict, hf]
    simp [hboundary]

/-- **When the result of a method is read**: exactly if nothing before it
    disturbs the search. -/
theorem auth_results_iff (hu : u.Regular) (hm : m ∈ ["spf", "dkim", "dmarc"]) (a : AuthResults) :
    authResultValue u a.text m = a.verdict u m ↔ a.Undisturbed u m := by
  have hchars : ∀ c ∈ m.toList, endsResult c = false := by
    simp only [List.mem_cons, List.not_mem_nil, or_false] at hm
    rcases hm with rfl | rfl | rfl
    all_goals simp [endsResult]
  constructor
  · intro hread before after h
    rw [← hread]
    exact read_before hu h
  · intro hund
    rcases h : cutText (m ++ "=").toList (u.lower (a.before u m)).toList with _ | ⟨before, after⟩
    · exact read_result hu hchars h
    · rw [read_before hu h, hund before after h]

end

/-! ## A header value with a look-alike -/

def noBlanks : Blanks := ⟨"", by simp⟩

def oneBlank : Blanks := ⟨" ", by simp⟩

def plainResult (method result : String)
    (h : ∀ c ∈ result.toList, isSpace c = false ∧ c ≠ ';' ∧ c ≠ '(') : MethodResult :=
  ⟨noBlanks, oneBlank, method, result, [], h⟩

/-- `mx.b.com; dkim=pass; spf=SoftFail` -/
def plainResults : AuthResults :=
  ⟨"mx.b.com",
    [plainResult "dkim" "pass" (by simp [isSpace]), plainResult "spf" "SoftFail" (by simp [isSpace])]⟩

theorem auth_results_iff_plain : authResultValue .ascii plainResults.text "spf" = .fail :=
  (auth_results_iff ascii_regular (by simp) plainResults).2 (by
    have hnone : cutText ("spf" ++ "=").toList
        (Unicode.ascii.lower (plainResults.before .ascii "spf")).toList = none := by decide +kernel
    intro before after h
    rw [hnone] at h
    cases h)

/-- `mx.b.com; x-spf=pass; spf=fail` -/
def hyphenResults : AuthResults :=
  ⟨"mx.b.com",
    [plainResult "x-spf" "pass" (by simp [isSpace]), plainResult "spf" "fail" (by simp [isSpace])]⟩

/-- The failure is not seen behind another method whose name ends alike. -/
theorem hyphen_hides_failure : ¬∀ (a : AuthResults) (m : String), m ∈ ["spf", "dkim", "dmarc"] →
    authResultValue .ascii a.text m = a.verdict .ascii m := by
  intro h
  have := h hyphenResults "spf" (by simp)
  revert this
  decide +kernel

end Mailrelay
