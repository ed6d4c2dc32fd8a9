/-
  A rule from a file and the same rule typed into the form (`Validate` in
  `internal/rules/transfer.go`, `parseRuleForm` in `internal/webui/handler.go`).

  The form trims every value.  An imported rule keeps its values: matching
  trims the pattern but not the name of a header, which `Validate` trims only
  to see that it is there.  An imported name with white space around it
  (`Padded`) stands for another header.

  * `parseRuleForm_same`: what the form makes of the values of a valid rule;
  * `matchRule_edited_iff`: when both match the same emails;
  * `editor_matches_iff`: the main result.
-/
import Mailrelay.Lib.HeaderKey
import Mailrelay.Webui.Form

namespace Mailrelay

open Lib

/-! ## What the form makes of a rule -/

namespace MatchCondition

def edited (c : MatchCondition) : MatchCondition :=
  ⟨c.field, trimSpace c.pattern, if c.field = "header" then trimSpace c.header else ""⟩

/-- The name of a header, with white space around it. -/
def Padded (c : MatchCondition) : Prop := c.field = "header" ∧ trimSpace c.header ≠ c.header

instance (c : MatchCondition) : Decidable c.Padded := inferInstanceAs (Decidable (_ ∧ _))

/-- The header that a condition looks at after editing. -/
def editedKey (c : MatchCondition) : String := canonicalKey (trimSpace c.header)

end MatchCondition

def MatcherConfig.edited (m : MatcherConfig) : MatcherConfig :=
  ⟨if m.mode = "any" then "any" else "all", m.conditions.map MatchCondition.edited⟩

/-- The form has the name, mode and conditions of the rule. -/
structure SameRule (item : TransferRule) (input : RuleInput) : Prop where
  name : input.name = item.name
  mode : input.matchMode = item.«match».mode
  fields : input.condField = item.«match».conditions.map fun c => c.field
  patterns : input.condPattern = item.«match».conditions.map fun c => c.pattern
  headers : input.condHeader = item.«match».conditions.map fun c => c.header

section
variable {lib : RuleLib}

theorem validateCondition_ok {c : MatchCondition} : validateCondition lib c = .ok () ↔
    c.field ∈ matchFields ∧ ¬(c.field = "header" ∧ trimSpace c.header = "") ∧
      trimSpace c.pattern ≠ "" ∧ validatePattern lib (trimSpace c.pattern) = .ok () := by
  unfold validateCondition
  rw [check_bind_ok, check_bind_ok, check_bind_ok, not_not]

theorem trimSpace_matchFields {field : String} (h : field ∈ matchFields) : trimSpace field = field := by
  simp only [matchFields, List.mem_cons, List.not_mem_nil, or_false] at h
  rcases h with rfl | rfl | rfl | rfl | rfl | rfl | rfl | rfl | rfl | rfl | rfl | rfl
  all_goals exact trimSpace_of_tokens (by decide +kernel)

/-- What is valid stays valid. -/
theorem validateCondition_edited {c : MatchCondition} (h : validateCondition lib c = .ok ()) :
    validateCondition lib c.edited = .ok () := by
  rw [validateCondition_ok] at h ⊢
  obtain ⟨hfield, hheader, hpattern, hvalid⟩ := h
  refine ⟨hfield, ?_, ?_, ?_⟩
  · rintro ⟨hf, he⟩
    refine hheader ⟨hf, ?_⟩
    have hf' : c.field = "header" := hf
    simpa [MatchCondition.edited, hf'] using he
  · simpa [MatchCondition.edited] using hpattern
  · simpa [MatchCondition.edited] using hvalid

theorem parseConditions_same {conditions : List MatchCondition}
    (h : ∀ c ∈ conditions, validateCondition lib c = .ok ()) :
    parseConditions (conditions.map fun c => c.field) (conditions.map fun c => c.pattern)
      (conditions.map fun c => c.header) = .ok (conditions.map MatchCondition.edited) := by
  induction conditions with
  | nil => rfl
  | cons c conditions ih =>
    rw [List.forall_mem_cons] at h
    obtain ⟨hfield, hheader, hpattern, -⟩ := validateCondition_ok.1 h.1
    have hne : c.field ≠ "" := by
      rintro he
      rw [he] at hfield
      exact absurd hfield (by decide +kernel)
    simp only [List.map_cons, parseConditions, List.headD_cons, List.tail_cons,
      trimSpace_matchFields hfield]
    rw [if_neg (not_or.2 ⟨hne, hpattern⟩), check_bind_ok]
    exact ⟨hheader, by rw [ih h.2]; rfl⟩

theorem validateSettings_split {wh : WebhookConfig} {m : MatcherConfig} :
    validateSettings lib wh m = .ok () ↔
      validateSettings lib wh ⟨"", []⟩ = .ok () ∧ validateMatch lib m = .ok () := by
  unfold validateSettings
  simp only [bind_ok]
  constructor
  · rintro ⟨_, hurl, _, hheaders, _, htemplate, _, hoverrides, hmatch⟩
    exact ⟨⟨_, hurl, _, hheaders, _, htemplate, _, hoverrides, rfl⟩, hmatch⟩
  · rintro ⟨⟨_, hurl, _, hheaders, _, htemplate, _, hoverrides, -⟩, hmatch⟩
    exact ⟨_, hurl, _, hheaders, _, htemplate, _, hoverrides, hmatch⟩

theorem validateMatch_ok {m : MatcherConfig} : validateMatch lib m = .ok () ↔
    (m.mode = "" ∨ m.mode = "all" ∨ m.mode = "any") ∧
      ∀ c ∈ m.conditions, validateCondition lib c = .ok () := by
  unfold validateMatch
  rw [check_bind_ok, forM_ok]
  refine and_congr_left fun _ => ?_
  tauto

theorem validateMatch_edited {m : MatcherConfig} (h : validateMatch lib m = .ok ()) :
    validateMatch lib m.edited = .ok () := by
  rw [validateMatch_ok] at h ⊢
  refine ⟨?_, ?_⟩
  · unfold MatcherConfig.edited
    split_ifs
    · exact .inr (.inr rfl)
    · exact .inr (.inl rfl)
  · intro c hc
    obtain ⟨c', hc', rfl⟩ := List.mem_map.1 hc
    exact validateCondition_edited (h.2 c' hc')

/-- **What the form makes of the values of a valid rule.** -/
theorem parseRuleForm_same {item : TransferRule} {input : RuleInput}
    (hvalid : validate lib item.toRecord = .ok ()) (hsame : SameRule item input) {form : RuleForm} :
    parseRuleForm lib input = .ok form ↔
      ∃ wh, parseWebhook lib input = .ok wh ∧ validateSettings lib wh ⟨"", []⟩ = .ok () ∧
        form = ⟨trimSpace item.name, item.«match».edited, wh, input.secret⟩ := by
  obtain ⟨hname, -, hsettings⟩ := validate_eq.1 hvalid
  have hmatch : validateMatch lib item.«match» = .ok () := (validateSettings_split.1 hsettings).2
  obtain ⟨hmode, hconditions⟩ := validateMatch_ok.1 hmatch
  have htrim : trimSpace item.«match».mode = item.«match».mode := by
    have htoken : item.«match».mode.toList.all isTokenChar := by
      rcases hmode with h | h | h
      all_goals
        rw [h]
        decide +kernel
    exact trimSpace_of_tokens htoken
  have hparse := parseConditions_same hconditions
  rw [← hsame.fields, ← hsame.patterns, ← hsame.headers] at hparse
  have hedited := validateMatch_edited hmatch
  unfold parseRuleForm
  simp only [bind_ok, check_ok, hsame.name, hsame.mode, hparse, htrim]
  constructor
  · rintro ⟨_, -, wh, hwh, conditions, hc, _, hset, hform⟩
    cases hc
    cases hform
    exact ⟨wh, hwh, (validateSettings_split.1 (validate_eq.1 hset).2.2).1, rfl⟩
  · rintro ⟨wh, hwh, hset, rfl⟩
    have hname' : trimSpace (trimSpace item.name) ≠ "" := by
      rw [trimSpace_trimSpace]
      exact hname
    exact ⟨(), hname, wh, hwh, _, rfl, (),
      validate_eq.2 ⟨hname', le_rfl, validateSettings_split.2 ⟨hset, hedited⟩⟩, rfl⟩

end

/-! ## Matching -/

section
variable {ps : Patterns}

theorem matchPattern_trimSpace (pattern : String) :
    matchPattern ps (trimSpace pattern) = matchPattern ps pattern := by
  funext value
  unfold matchPattern
  rw [trimSpace_trimSpace]

theorem matchAny_trimSpace (pattern : String) (values : List String) :
    matchAny ps (trimSpace pattern) values = matchAny ps pattern values := by
  rw [matchAny, matchPattern_trimSpace, matchAny]

theorem matchAny_mono {pattern : String} {values values' : List String} (hsub : values ⊆ values')
    (h : matchAny ps pattern values) : matchAny ps pattern values' := by
  obtain ⟨v, hv, hm⟩ := List.any_eq_true.1 h
  exact List.any_eq_true.2 ⟨v, hsub hv, hm⟩

theorem trimSpace_of_not_padded {c : MatchCondition} (hc : ¬c.Padded) (hf : c.field = "header") :
    trimSpace c.header = c.header := by
  by_contra hne
  exact hc ⟨hf, hne⟩

/-- The values of a header. -/
def ParsedEmail.headerValues (e : ParsedEmail) (key : String) : List String :=
  (e.headers.lookup key).getD []

theorem matchCondition_header {c : MatchCondition} (hf : c.field = "header") (hne : c.header ≠ "")
    (e : ParsedEmail) :
    matchCondition ps c e = matchAny ps c.pattern (e.headerValues (canonicalKey c.header)) := by
  unfold matchCondition
  rw [hf]
  simp only [hne, if_false]
  rfl

/-- The other conditions do not look at the headers. -/
theorem matchCondition_headers {c : MatchCondition} (hf : c.field ≠ "header") (e : ParsedEmail)
    (headers : MailHeader) : matchCondition ps c { e with headers := headers } = matchCondition ps c e := by
  unfold matchCondition
  split
  case h_11 h => exact absurd h hf
  all_goals rfl

/-- **Without white space around the name of a header, editing changes nothing.** -/
theorem matchCondition_edited {c : MatchCondition} (hc : ¬c.Padded) (e : ParsedEmail) :
    matchCondition ps c.edited e = matchCondition ps c e := by
  by_cases hf : c.field = "header"
  · have hheader := trimSpace_of_not_padded hc hf
    have hedited : c.edited = ⟨"header", trimSpace c.pattern, c.header⟩ := by
      rw [MatchCondition.edited, if_pos hf, hf, hheader]
    simp only [hedited, matchCondition, hf, matchAny_trimSpace]
  · unfold matchCondition MatchCondition.edited
    dsimp only
    split
    case h_11 h => exact absurd h hf
    all_goals simp only [matchPattern_trimSpace, matchAny_trimSpace]

theorem matchCondition_padded {c : MatchCondition} (hc : c.Padded) (e : ParsedEmail) :
    matchCondition ps c e = matchAny ps c.pattern (e.headerValues c.header) := by
  have hne : c.header ≠ "" := by
    intro he
    exact hc.2 (by rw [he]; decide)
  rw [matchCondition_header hc.1 hne, canonicalKey_of_padded hc.2]

theorem matchCondition_padded_edited {c : MatchCondition} (hc : c.Padded)
    (hne : trimSpace c.header ≠ "") (e : ParsedEmail) :
    matchCondition ps c.edited e = matchAny ps c.pattern (e.headerValues c.editedKey) := by
  have hf : c.edited.field = "header" := hc.1
  have hheader : c.edited.header = trimSpace c.header := if_pos hc.1
  rw [matchCondition_header hf (by rw [hheader]; exact hne), hheader]
  exact matchAny_trimSpace _ _

/-! ## Other headers -/

/-- The email with other values for some headers. -/
def ParsedEmail.setHeaders (e : ParsedEmail) (keys : List String)
    (g : String → List String) : ParsedEmail :=
  { e with headers := keys.map (fun key => (key, g key)) ++ e.headers }

theorem setHeaders_headers (e : ParsedEmail) (keys : List String) (g : String → List String) :
    e = { e.setHeaders keys g with headers := e.headers } := rfl

theorem headerValues_setHeaders (e : ParsedEmail) (keys : List String) (g : String → List String)
    (key : String) :
    (e.setHeaders keys g).headerValues key = if key ∈ keys then g key else e.headerValues key := by
  unfold ParsedEmail.headerValues ParsedEmail.setHeaders
  induction keys with
  | nil => rfl
  | cons key' keys ih =>
    rw [List.map_cons, List.cons_append, List.lookup_cons]
    by_cases h : key = key'
    · simp [h]
    · simp only [beq_false_of_ne h, List.mem_cons, h, false_or]
      exact ih

/-- An email with more values of trimmed headers satisfies what has no white
    space around the name of a header. -/
theorem matchCondition_mono {c : MatchCondition} (hc : ¬c.Padded) {e e' : ParsedEmail}
    (hrest : e' = { e with headers := e'.headers })
    (hsub : ∀ key, trimSpace key = key → e.headerValues key ⊆ e'.headerValues key)
    (h : matchCondition ps c e) : matchCondition ps c e' := by
  by_cases hf : c.field = "header"
  · have hheader := trimSpace_of_not_padded hc hf
    have hne : c.header ≠ "" := by
      intro he
      simp [matchCondition, hf, he] at h
    have hkey := trimSpace_canonicalKey c.header
    rw [hheader] at hkey
    rw [matchCondition_header hf hne] at h ⊢
    exact matchAny_mono (hsub _ hkey) h
  · rw [hrest, matchCondition_headers hf]
    exact h

/-! ## Rules -/

theorem matchConditions_all (email : ParsedEmail) (conds : List MatchCondition) :
    matchConditions ps "all" email conds = conds.all fun c => matchCondition ps c email := by
  induction conds with
  | nil => rfl
  | cons c conds ih =>
    rw [matchConditions, List.all_cons, ih]
    cases matchCondition ps c email <;> simp

theorem matchConditions_any (email : ParsedEmail) (conds : List MatchCondition) :
    matchConditions ps "any" email conds = conds.any fun c => matchCondition ps c email := by
  induction conds with
  | nil => rfl
  | cons c conds ih =>
    rw [matchConditions, List.any_cons, ih]
    cases matchCondition ps c email <;> simp

theorem matchRule_all {m : MatcherConfig} (hm : m.mode ≠ "any") (email : ParsedEmail) :
    matchRule ps m email ↔ ∀ c ∈ m.conditions, matchCondition ps c email := by
  unfold matchRule MatcherConfig.effectiveMode
  rw [if_neg hm, matchConditions_all]
  split_ifs with h
  · simp [List.length_eq_zero_iff.1 h]
  · exact List.all_eq_true

theorem matchRule_any {m : MatcherConfig} (hm : m.mode = "any") (hne : m.conditions ≠ [])
    (email : ParsedEmail) : matchRule ps m email ↔ ∃ c ∈ m.conditions, matchCondition ps c email := by
  unfold matchRule MatcherConfig.effectiveMode
  rw [if_pos hm, matchConditions_any, if_neg (mt List.length_eq_zero_iff.1 hne)]
  exact List.any_eq_true

theorem edited_mode {m : MatcherConfig} : m.edited.mode = "any" ↔ m.mode = "any" := by
  unfold MatcherConfig.edited
  split_ifs with h
  · simp [h]
  · simp [h]

theorem matchRule_edited_all {m : MatcherConfig} (hm : m.mode ≠ "any") (email : ParsedEmail) :
    matchRule ps m.edited email ↔ ∀ c ∈ m.conditions, matchCondition ps c.edited email := by
  rw [matchRule_all (mt edited_mode.1 hm)]
  exact List.forall_mem_map

theorem matchRule_edited_any {m : MatcherConfig} (hm : m.mode = "any") (hne : m.conditions ≠ [])
    (email : ParsedEmail) :
    matchRule ps m.edited email ↔ ∃ c ∈ m.conditions, matchCondition ps c.edited email := by
  have hne' : m.edited.conditions ≠ [] := mt List.map_eq_nil_iff.1 hne
  rw [matchRule_any (edited_mode.2 hm) hne']
  simp [MatcherConfig.edited]

/-- White space around the names of headers makes no difference: there is none,
    or a rule with all conditions matches nothing anyway, or one with any
    condition matches everything anyway or has no value to look for there. -/
def HarmlessPadding (ps : Patterns) (m : MatcherConfig) : Prop :=
  (∀ c ∈ m.conditions, ¬c.Padded) ∨
    (m.mode ≠ "any" ∧ ∀ email, ¬matchRule ps m email) ∨
    (m.mode = "any" ∧ ((∀ email, matchRule ps m email) ∨
      ∀ c ∈ m.conditions, c.Padded → ∀ value, matchPattern ps c.pattern value = false))

/-- The headers of the padded conditions, and what they become. -/
def paddedKeys (m : MatcherConfig) : List String :=
  (m.conditions.filter fun c => c.Padded).map MatchCondition.header

def editedKeys (m : MatcherConfig) : List String :=
  (m.conditions.filter fun c => c.Padded).map MatchCondition.editedKey

theorem mem_paddedKeys {m : MatcherConfig} {c : MatchCondition} (hc : c ∈ m.conditions) (hp : c.Padded) :
    c.header ∈ paddedKeys m ∧ c.editedKey ∈ editedKeys m :=
  have hmem : c ∈ m.conditions.filter fun c => c.Padded := List.mem_filter.2 ⟨hc, decide_eq_true hp⟩
  ⟨List.mem_map_of_mem hmem, List.mem_map_of_mem hmem⟩

theorem not_trimmed_of_mem_paddedKeys {m : MatcherConfig} {key : String} (h : key ∈ paddedKeys m) :
    trimSpace key ≠ key := by
  obtain ⟨c, hc, rfl⟩ := List.mem_map.1 h
  exact (of_decide_eq_true (List.mem_filter.1 hc).2).2

theorem trimmed_of_mem_editedKeys {m : MatcherConfig} {key : String} (h : key ∈ editedKeys m) :
    trimSpace key = key := by
  obtain ⟨c, -, rfl⟩ := List.mem_map.1 h
  exact trimSpace_canonicalKey c.header

/-! ## Emails that tell the two rules apart -/

section
variable {m : MatcherConfig} (hvalid : ∀ c ∈ m.conditions, c.Padded → trimSpace c.header ≠ "")
  {email : ParsedEmail}
include hvalid

/-- What the edited rule matches, the imported one matches with the values
    under its own names. -/
theorem exists_match_of_edited (hm : m.mode ≠ "any") (h : matchRule ps m.edited email) :
    ∃ email', matchRule ps m email' := by
  let email' := email.setHeaders (paddedKeys m) fun _ => (editedKeys m).flatMap email.headerValues
  have hvalues := headerValues_setHeaders email (paddedKeys m) fun _ =>
    (editedKeys m).flatMap email.headerValues
  refine ⟨email', (matchRule_all hm email').2 fun c hc => ?_⟩
  have hedited := (matchRule_edited_all hm email).1 h c hc
  by_cases hp : c.Padded
  · obtain ⟨hkey, hkey'⟩ := mem_paddedKeys hc hp
    rw [matchCondition_padded_edited hp (hvalid c hc hp)] at hedited
    rw [matchCondition_padded hp, hvalues, if_pos hkey]
    refine matchAny_mono (fun v hv => ?_) hedited
    exact List.mem_flatMap.2 ⟨_, hkey', hv⟩
  · rw [matchCondition_edited hp] at hedited
    refine matchCondition_mono hp rfl (fun key hkey => ?_) hedited
    rw [hvalues, if_neg fun hmem => not_trimmed_of_mem_paddedKeys hmem hkey]
    exact List.Subset.refl _

/-- An email that matches, with its values under the edited names instead. -/
theorem exists_edited_only (hm : m.mode ≠ "any") {c₀ : MatchCondition} (hc₀ : c₀ ∈ m.conditions)
    (hp₀ : c₀.Padded) (h : matchRule ps m email) :
    ∃ email', matchRule ps m.edited email' ∧ ¬matchRule ps m email' := by
  let g : String → List String := fun key =>
    if trimSpace key = key then email.headerValues key ++ (paddedKeys m).flatMap email.headerValues else []
  have hvalues := headerValues_setHeaders email (paddedKeys m ++ editedKeys m) g
  refine ⟨email.setHeaders (paddedKeys m ++ editedKeys m) g, ?_, ?_⟩
  · rw [matchRule_edited_all hm]
    intro c hc
    have hmatch := (matchRule_all hm email).1 h c hc
    by_cases hp : c.Padded
    · obtain ⟨hkey, hkey'⟩ := mem_paddedKeys hc hp
      have htrim := trimmed_of_mem_editedKeys hkey'
      rw [matchCondition_padded hp] at hmatch
      rw [matchCondition_padded_edited hp (hvalid c hc hp), hvalues,
        if_pos (List.mem_append_right _ hkey')]
      refine matchAny_mono (fun v hv => ?_) hmatch
      simp only [g, htrim, if_true]
      exact List.mem_append_right _ (List.mem_flatMap.2 ⟨_, hkey, hv⟩)
    · rw [matchCondition_edited hp]
      refine matchCondition_mono hp rfl (fun key hkey => ?_) hmatch
      rw [hvalues]
      split_ifs
      · simp only [g, hkey, if_true]
        exact List.subset_append_left _ _
      · exact List.Subset.refl _
  · intro hmatch
    have hkey := (mem_paddedKeys hc₀ hp₀).1
    have hnone := (matchRule_all hm _).1 hmatch c₀ hc₀
    rw [matchCondition_padded hp₀, hvalues, if_pos (List.mem_append_left _ hkey)] at hnone
    simp only [g, not_trimmed_of_mem_paddedKeys hkey, if_false] at hnone
    cases hnone

/-- An email that does not match, with a value under a padded name and none
    under the edited ones. -/
theorem exists_imported_only (hm : m.mode = "any") {c₀ : MatchCondition} (hc₀ : c₀ ∈ m.conditions)
    (hp₀ : c₀.Padded) {value : String} (hvalue : matchPattern ps c₀.pattern value)
    (h : ¬matchRule ps m email) : ∃ email', matchRule ps m email' ∧ ¬matchRule ps m.edited email' := by
  let g : String → List String := fun key => if trimSpace key = key then [] else [value]
  have hvalues := headerValues_setHeaders email (paddedKeys m ++ editedKeys m) g
  have hne : m.conditions ≠ [] := List.ne_nil_of_mem hc₀
  refine ⟨email.setHeaders (paddedKeys m ++ editedKeys m) g, ?_, ?_⟩
  · rw [matchRule_any hm hne]
    have hkey := (mem_paddedKeys hc₀ hp₀).1
    refine ⟨c₀, hc₀, ?_⟩
    rw [matchCondition_padded hp₀, hvalues, if_pos (List.mem_append_left _ hkey)]
    simp only [g, not_trimmed_of_mem_paddedKeys hkey, if_false]
    exact List.any_eq_true.2 ⟨value, List.mem_singleton_self _, hvalue⟩
  · rw [matchRule_edited_any hm hne]
    rintro ⟨c, hc, hmatch⟩
    by_cases hp : c.Padded
    · have hkey' := (mem_paddedKeys hc hp).2
      rw [matchCondition_padded_edited hp (hvalid c hc hp), hvalues,
        if_pos (List.mem_append_right _ hkey')] at hmatch
      simp only [g, trimmed_of_mem_editedKeys hkey', if_true] at hmatch
      cases hmatch
    · rw [matchCondition_edited hp] at hmatch
      refine h ((matchRule_any hm hne email).2 ⟨c, hc, ?_⟩)
      refine matchCondition_mono hp (setHeaders_headers email _ g) (fun key hkey => ?_) hmatch
      rw [hvalues]
      split_ifs
      · simp [g, hkey]
      · exact List.Subset.refl _

omit hvalid in
/-- A rule that matches every email does so without its padded conditions. -/
theorem edited_of_forall_match (hm : m.mode = "any") (h : ∀ email, matchRule ps m email)
    (email : ParsedEmail) : matchRule ps m.edited email := by
  by_cases hne : m.conditions = []
  · simp [matchRule, MatcherConfig.edited, hne]
  · have hvalues := headerValues_setHeaders email (paddedKeys m) fun _ => []
    obtain ⟨c, hc, hmatch⟩ := (matchRule_any hm hne _).1 (h (email.setHeaders (paddedKeys m) fun _ => []))
    by_cases hp : c.Padded
    · rw [matchCondition_padded hp, hvalues, if_pos (mem_paddedKeys hc hp).1] at hmatch
      cases hmatch
    · refine (matchRule_edited_any hm hne email).2 ⟨c, hc, ?_⟩
      rw [matchCondition_edited hp]
      refine matchCondition_mono hp (setHeaders_headers email _ fun _ => []) (fun key hkey => ?_) hmatch
      rw [hvalues, if_neg fun hmem => not_trimmed_of_mem_paddedKeys hmem hkey]
      exact List.Subset.refl _

omit hvalid in
/-- Conditions that match alike make rules that match alike. -/
theorem matchRule_edited_of_conditions
    (h : ∀ c ∈ m.conditions, matchCondition ps c.edited email = matchCondition ps c email) :
    matchRule ps m email ↔ matchRule ps m.edited email := by
  by_cases hm : m.mode = "any"
  · by_cases hne : m.conditions = []
    · simp [matchRule, MatcherConfig.edited, hne]
    · rw [matchRule_any hm hne, matchRule_edited_any hm hne]
      refine exists_congr fun c => and_congr_right fun hc => ?_
      rw [h c hc]
  · rw [matchRule_all hm, matchRule_edited_all hm]
    refine forall₂_congr fun c hc => ?_
    rw [h c hc]

/-- **An imported rule matches like the edited one** exactly if the white space
    around its header names makes no difference. -/
theorem matchRule_edited_iff :
    (∀ email, matchRule ps m email ↔ matchRule ps m.edited email) ↔ HarmlessPadding ps m := by
  constructor
  · intro h
    by_contra hharm
    simp only [HarmlessPadding, not_or, not_and, not_forall, not_not] at hharm
    obtain ⟨⟨c₀, hc₀, hp₀⟩, hall, hany⟩ := hharm
    by_cases hm : m.mode = "any"
    · obtain ⟨⟨email, hno⟩, c₁, hc₁, hp₁, value, hvalue⟩ := hany hm
      rw [Bool.not_eq_false] at hvalue
      obtain ⟨email', hmatch, hnot⟩ := exists_imported_only hvalid hm hc₁ hp₁ hvalue hno
      exact hnot ((h email').1 hmatch)
    · obtain ⟨email, hmatch⟩ := hall hm
      obtain ⟨email', hmatch', hnot⟩ := exists_edited_only hvalid hm hc₀ hp₀ hmatch
      exact hnot ((h email').2 hmatch')
  · rintro (hpad | ⟨hm, hnone⟩ | ⟨hm, hall | hnone⟩) email
    · exact matchRule_edited_of_conditions fun c hc => matchCondition_edited (hpad c hc) email
    · refine iff_of_false (hnone email) fun hmatch => ?_
      obtain ⟨email', hmatch'⟩ := exists_match_of_edited hvalid hm hmatch
      exact hnone email' hmatch'
    · exact iff_of_true (hall email) (edited_of_forall_match hm hall email)
    · refine matchRule_edited_of_conditions fun c hc => ?_
      by_cases hp : c.Padded
      · have hno : ∀ values, matchAny ps c.pattern values = false := by
          intro values
          rw [matchAny, List.any_eq_false]
          intro v _
          rw [hnone c hc hp v]
          exact Bool.false_ne_true
        rw [matchCondition_padded hp, matchCondition_padded_edited hp (hvalid c hc hp), hno, hno]
      · exact matchCondition_edited hp email

end

end

/-- **The rule that an import stores matches like the one that the form makes**
    of the same values, which it accepts, exactly if the white space around its
    header names makes no difference. -/
theorem editor_matches_iff {lib : RuleLib} {items : List TransferRule}
    (hitems : validateImport lib items = .ok ()) {item : TransferRule} (hitem : item ∈ items)
    {input : RuleInput} (hsame : SameRule item input) :
    ((∃ form, parseRuleForm lib input = .ok form) ↔
      ∃ wh, parseWebhook lib input = .ok wh ∧ validateSettings lib wh ⟨"", []⟩ = .ok ()) ∧
    ∀ form, parseRuleForm lib input = .ok form → ∀ (r : RuleRecord) (position : ℤ), portable r = item →
      ((∀ email, (engineMatch lib.patterns [r.toRule] email ≠ [] ↔
          engineMatch lib.patterns [(RulesWorld.newRule form position).toRule] email ≠ [])) ↔
        HarmlessPadding lib.patterns item.«match») := by
  have hvalid := (validateImport_ok.1 hitems).1 item hitem
  have hmatch : validateMatch lib item.«match» = .ok () :=
    (validateSettings_split.1 (validate_eq.1 hvalid).2.2).2
  have hheader : ∀ c ∈ item.«match».conditions, c.Padded → trimSpace c.header ≠ "" := by
    intro c hc hp he
    exact (validateCondition_ok.1 ((validateMatch_ok.1 hmatch).2 c hc)).2.1 ⟨hp.1, he⟩
  have hengine : ∀ (rule : Rule) (email : ParsedEmail),
      engineMatch lib.patterns [rule] email ≠ [] ↔ matchRule lib.patterns rule.«match» email := by
    intro rule email
    cases hm : matchRule lib.patterns rule.«match» email <;> simp [engineMatch, hm]
  refine ⟨?_, fun form hform r position hr => ?_⟩
  · constructor
    · rintro ⟨form, hform⟩
      obtain ⟨wh, hwh, hset, -⟩ := (parseRuleForm_same hvalid hsame).1 hform
      exact ⟨wh, hwh, hset⟩
    · rintro ⟨wh, hwh, hset⟩
      exact ⟨_, (parseRuleForm_same hvalid hsame).2 ⟨wh, hwh, hset, rfl⟩⟩
  · obtain ⟨wh, -, -, rfl⟩ := (parseRuleForm_same hvalid hsame).1 hform
    have himported : r.toRule.«match» = item.«match» := congrArg RuleSettings.«match» hr
    simp only [hengine, himported]
    exact matchRule_edited_iff hheader

/-! ## A name with a space -/

def priorityItem (header : String) : TransferRule :=
  ⟨"urgent", true, 0, ⟨"all", [⟨"header", "1", header⟩]⟩,
    ⟨"", "https://hooks.example/mail", "POST", [], "", none, none, none, none, none⟩⟩

def priorityInput (header : String) : RuleInput :=
  { RulesHistory.ruleInput "urgent" with
    condField := ["header"], condPattern := ["1"], condHeader := [header] }

theorem priority_same (header : String) : SameRule (priorityItem header) (priorityInput header) :=
  ⟨rfl, rfl, rfl, rfl, rfl⟩

def priorityRecord (header : String) : RuleRecord :=
  ⟨1, "urgent", true, (priorityItem header).«match», (priorityItem header).webhook, 0, 0, 0⟩

/-- Without white space the two rules match alike. -/
theorem editor_matches_iff_priority : ∃ form,
    parseRuleForm sampleRuleLib (priorityInput "X-Priority") = .ok form ∧
    ∀ email, (engineMatch sampleRuleLib.patterns [(priorityRecord "X-Priority").toRule] email ≠ [] ↔
      engineMatch sampleRuleLib.patterns [(RulesWorld.newRule form 0).toRule] email ≠ []) := by
  obtain ⟨haccept, halike⟩ := @editor_matches_iff sampleRuleLib [priorityItem "X-Priority"]
    (by decide +kernel) _ (List.mem_singleton_self _) _ (priority_same "X-Priority")
  obtain ⟨form, hform⟩ := haccept.2 ⟨_, rfl, by decide +kernel⟩
  have hharmless : HarmlessPadding sampleRuleLib.patterns (priorityItem "X-Priority").«match» :=
    .inl (by decide +kernel)
  exact ⟨form, hform, (halike form hform (priorityRecord "X-Priority") 0 rfl).2 hharmless⟩

def priorityEmail : ParsedEmail :=
  ⟨"a@b.com", [], [], "", "", "", [("X-Priority", ["1"])], [], none, "", []⟩

/-- The imported rule does not see the header that the edited one matches. -/
theorem padded_header_differs : ¬∀ (lib : RuleLib) (items : List TransferRule) (item : TransferRule)
    (input : RuleInput) (form : RuleForm) (r : RuleRecord) (position : ℤ),
    validateImport lib items = .ok () → item ∈ items → SameRule item input →
      parseRuleForm lib input = .ok form → portable r = item →
        ∀ email, (engineMatch lib.patterns [r.toRule] email ≠ [] ↔
          engineMatch lib.patterns [(RulesWorld.newRule form position).toRule] email ≠ []) := by
  intro h
  obtain ⟨form, hform⟩ : ∃ form, parseRuleForm sampleRuleLib (priorityInput "X-Priority ") = .ok form :=
    ⟨_, rfl⟩
  have hmatch := h sampleRuleLib [priorityItem "X-Priority "] (priorityItem "X-Priority ")
    (priorityInput "X-Priority ") form (priorityRecord "X-Priority ") 0 (by decide +kernel)
    (List.mem_singleton_self _) (priority_same _) hform rfl priorityEmail
  cases hform
  revert hmatch
  decide +kernel

end Mailrelay
