/-
  Checks of a rule (`Validate` and `ValidateImport` in
  `internal/rules/transfer.go`), shared by the editor and every import.

  What comes from Go's libraries is collected in a `RuleLib`: parsing of URLs,
  requests, templates and patterns, and the texts of their errors.

  * `validate_eq`: the position is checked apart from the rest;
  * `validateImport_ok`: what is accepted.
-/
import Mailrelay.Lib.Check
import Mailrelay.Rules.Engine

namespace Mailrelay

open Lib

structure RuleLib where
  patterns : Patterns
  /-- the text of the error about a pattern -/
  patternError : String → String
  /-- `url.Parse`: the scheme and `Hostname` -/
  parseURL : String → Option (String × String)
  /-- `http.NewRequest` -/
  newRequest : String → String → Except String Unit
  /-- `webhook.ParseTemplate` -/
  parseTemplate : String → Except String Unit
  /-- the verb `%q` of `fmt` -/
  quote : String → String

/-- Fields that a condition may match. -/
def matchFields : List String :=
  ["from", "to", "cc", "mail_from", "rcpt_to", "subject", "from_domain", "to_domain",
    "mail_from_domain", "rcpt_to_domain", "header", "body"]

section
variable (lib : RuleLib)

def validateURL (wh : WebhookConfig) : Except String Unit := do
  let absolute := match lib.parseURL wh.url with
    | none => false
    | some (scheme, hostname) => hostname ≠ "" && (scheme = "http" || scheme = "https")
  check (absolute = false) "webhook URL must be an absolute HTTP or HTTPS URL"
  match lib.newRequest wh.method wh.url with
  | .error e => .error ("invalid webhook method or URL: " ++ e)
  | .ok () => .ok ()

def validateHeader (h : String × String) : Except String Unit := do
  check (h.1 = "" ∨ h.2.toList.any fun c => c = '\r' ∨ c = '\n') "invalid webhook header"
  check (¬ h.1.toList.all isTokenChar) ("invalid webhook header name " ++ lib.quote h.1)

def validateTemplate (template : String) : Except String Unit :=
  if trimSpace template ≠ "" then
    match lib.parseTemplate template with
    | .error e => .error ("invalid payload template: " ++ e)
    | .ok () => .ok ()
  else .ok ()

def validateOverrides (wh : WebhookConfig) : Except String Unit := do
  check ((wh.timeout.any fun n => n < 0) ∨ (wh.maxRetries.any fun n => n < 0))
    "timeout and max retries must be non-negative"
  check ((wh.initialWait.any fun n => n < 1) ∨ (wh.maxWait.any fun n => n < 1))
    "retry waits must be at least 1 second"
  check (wh.initialWait.any fun n => wh.maxWait.any fun m => m < n) "initial wait cannot exceed max wait"

def validatePattern (pattern : String) : Except String Unit :=
  let cs := pattern.toList
  let valid :=
    if 2 ≤ cs.length ∧ cs.head? = some '/' ∧ cs.getLast? = some '/' then
      (lib.patterns.regexp (String.ofList cs.tail.dropLast)).isSome
    else (lib.patterns.pathMatch pattern "").isSome
  check (valid = false)
    ("invalid pattern " ++ lib.quote pattern ++ ": " ++ lib.patternError pattern)

def validateCondition (c : MatchCondition) : Except String Unit := do
  check (c.field ∉ matchFields) ("unknown match field " ++ lib.quote c.field)
  check (c.field = "header" ∧ trimSpace c.header = "") "header conditions require a header name"
  check (trimSpace c.pattern = "") "condition pattern is required"
  validatePattern lib (trimSpace c.pattern)

def validateMatch (m : MatcherConfig) : Except String Unit := do
  check (m.mode ≠ "" ∧ m.mode ≠ "all" ∧ m.mode ≠ "any") "match mode must be all or any"
  m.conditions.forM (validateCondition lib)

/-- The checks after the position. -/
def validateSettings (wh : WebhookConfig) (m : MatcherConfig) : Except String Unit := do
  validateURL lib wh
  wh.headers.forM (validateHeader lib)
  validateTemplate lib wh.payloadTemplate
  validateOverrides wh
  validateMatch lib m

def validate (r : RuleRecord) : Except String Unit := do
  check (trimSpace r.name = "") "rule name is required"
  check (r.position < 0) "position must be non-negative"
  validateSettings lib r.webhook r.«match»

/-- The record that `ValidateImport` checks. -/
def RuleSettings.toRecord (item : TransferRule) : RuleRecord :=
  ⟨0, item.name, false, item.«match», item.webhook, item.position, 0, 0⟩

def validateItem (item : TransferRule) : Except String Unit :=
  match validate lib item.toRecord with
  | .error e => .error ("rule " ++ lib.quote item.name ++ ": " ++ e)
  | .ok () => .ok ()

/-- The loop of `ValidateImport`; `seen` are the names so far. -/
def validateItems (seen : List String) : List TransferRule → Except String Unit
  | [] => .ok ()
  | item :: items => do
    validateItem lib item
    check (item.name ∈ seen) ("duplicate rule name " ++ lib.quote item.name)
    validateItems (item.name :: seen) items

def validateImport (items : List TransferRule) : Except String Unit := validateItems lib [] items

end

def portable {M W : Type} (r : StoredRule M W) : RuleSettings M W :=
  ⟨r.name, r.enabled, r.position, r.«match», r.webhook⟩

/-! ## What is accepted -/

section
variable {lib : RuleLib}

/-- **The position is checked apart from the rest.** -/
theorem validate_eq {r : RuleRecord} : validate lib r = .ok () ↔
    trimSpace r.name ≠ "" ∧ 0 ≤ r.position ∧ validateSettings lib r.webhook r.«match» = .ok () := by
  unfold validate
  rw [check_bind_ok, check_bind_ok, not_lt]

/-- The secret is not checked. -/
theorem validateSettings_secret (wh : WebhookConfig) (m : MatcherConfig) (secret : String) :
    validateSettings lib { wh with signingSecret := secret } m = validateSettings lib wh m := rfl

theorem validateItem_ok {item : TransferRule} {u : Unit} :
    validateItem lib item = .ok u ↔ validate lib item.toRecord = .ok () := by
  unfold validateItem
  split
  · simp [*]
  · simp [*]

theorem validateItems_ok {seen : List String} {items : List TransferRule} :
    validateItems lib seen items = .ok () ↔
      (∀ item ∈ items, validate lib item.toRecord = .ok ()) ∧
        (items.map fun item => item.name).Nodup ∧ ∀ item ∈ items, item.name ∉ seen := by
  induction items generalizing seen with
  | nil => simp [validateItems]
  | cons item items ih =>
    unfold validateItems
    simp only [bind_ok, validateItem_ok, check_ok, ih, exists_and_left, exists_const,
      forall_eq_or_imp, List.map_cons, List.nodup_cons, List.mem_map, List.mem_cons, not_or,
      not_exists, not_and]
    constructor
    · rintro ⟨hv, hs, hvs, hn, hseen⟩
      exact ⟨⟨hv, hvs⟩, ⟨fun x hx => (hseen x hx).1, hn⟩, hs, fun x hx => (hseen x hx).2⟩
    · rintro ⟨⟨hv, hvs⟩, ⟨hne, hn⟩, hs, hseen⟩
      exact ⟨hv, hs, hvs, hn, fun x hx => ⟨hne x hx, hseen x hx⟩⟩

/-- **What `ValidateImport` accepts**: valid rules with distinct names. -/
theorem validateImport_ok {items : List TransferRule} :
    validateImport lib items = .ok () ↔ (∀ item ∈ items, validate lib item.toRecord = .ok ()) ∧
      (items.map fun item => item.name).Nodup := by
  unfold validateImport
  rw [validateItems_ok]
  simp

/-- Identity, state and times of a record are not checked. -/
theorem validate_portable (r : RuleRecord) : validate lib (portable r).toRecord = validate lib r := rfl

end

/-- The libraries on the rules of the examples. -/
def sampleRuleLib : RuleLib where
  patterns := ⟨⟨id, id⟩, fun _ => some fun _ => true, fun p s => some (p == s)⟩
  patternError _ := ""
  parseURL url := if url = "https://hooks.example/mail" then some ("https", "hooks.example") else none
  newRequest _ _ := .ok ()
  parseTemplate _ := .ok ()
  quote s := s

end Mailrelay
