/-
  The rule form (`parseRuleForm` in `internal/webui/handler.go`), and the
  requests that change rules, each executed alone.

  A form is checked by `Validate` before the rule has a position; a file is
  checked with its positions.  So stored rules are valid as long as positions
  are (`PositionsOK`), and a create takes the greatest position plus one, or
  zero if that could not be read.

  * `parseRuleForm_valid`: what is known of a form that is accepted;
  * `change_effect`: what a request does to the table;
  * `creates_last_iff`: the main result.
-/
import Mailrelay.Storage.Import
import Mailrelay.Rules.Transfer
import Mailrelay.Webui.Reload
import Mailrelay.Webui.Settings

namespace Mailrelay

open Lib

/-! ## The form -/

/-- The values of the form. -/
structure RuleInput where
  name : String
  webhookUrl : String
  webhookMethod : String
  payloadTemplate : String
  webhookHeaders : String
  clearSigningSecret : String
  signingSecret : String
  timeout : String
  maxRetries : String
  initialWait : String
  maxWait : String
  retryOnTimeout : String
  matchMode : String
  condField : List String
  condPattern : List String
  condHeader : List String
  deriving DecidableEq, Repr

/-- Set a key of a map, whose entries are in the order of the keys. -/
def setKey (e : String × String) : List (String × String) → List (String × String)
  | [] => [e]
  | e' :: l => if e.1 = e'.1 then e :: l else if e.1 < e'.1 then e :: e' :: l else e' :: setKey e l

section
variable (lib : RuleLib)

/-- The loop over the lines of `webhook_headers`. -/
def parseHeaders (headers : List (String × String)) : List String → Except String (List (String × String))
  | [] => .ok headers
  | line :: lines =>
    let line := trimSpace line
    if line = "" then parseHeaders headers lines
    else
      match cut ':' line with
      | none => .error ("Invalid header format: " ++ lib.quote line ++ " (expected Key: Value)")
      | some (key, value) => parseHeaders (setKey (trimSpace key, trimSpace value) headers) lines

/-- A number that may be left out. -/
def parseOverride (least : ℤ) (message value : String) : Except String (Option ℤ) :=
  let value := trimSpace value
  if value = "" then .ok none
  else do
    let n ← parseAtLeast least message value
    return some n

/-- The loop over the conditions; a missing pattern or header is empty. -/
def parseConditions : List String → List String → List String → Except String (List MatchCondition)
  | [], _, _ => .ok []
  | field :: fields, patterns, headerKeys =>
    let field := trimSpace field
    let pattern := trimSpace (patterns.headD "")
    let headerKey := trimSpace (headerKeys.headD "")
    if field = "" ∨ pattern = "" then parseConditions fields patterns.tail headerKeys.tail
    else do
      check (field = "header" ∧ headerKey = "") "Header conditions require a header name."
      let conditions ← parseConditions fields patterns.tail headerKeys.tail
      return ⟨field, pattern, if field = "header" then headerKey else ""⟩ :: conditions

def parseTemplate (payloadTemplate : String) : Except String Unit :=
  if trimSpace payloadTemplate = "" then .ok ()
  else
    match lib.parseTemplate payloadTemplate with
    | .error e => .error ("Invalid payload template: " ++ e)
    | .ok () => .ok ()

/-- The secret fields of the form. -/
def RuleInput.secret (input : RuleInput) : SecretField :=
  ⟨input.clearSigningSecret = "on", input.signingSecret⟩

/-- The part of `parseRuleForm` from the URL to the overrides. -/
def parseWebhook (input : RuleInput) : Except String WebhookConfig := do
  let url := trimSpace input.webhookUrl
  check (url = "") "Webhook URL is required."
  let method := trimSpace input.webhookMethod
  parseTemplate lib input.payloadTemplate
  let headersRaw := trimSpace input.webhookHeaders
  let headers ← if headersRaw = "" then .ok [] else parseHeaders lib [] (split '\n' headersRaw)
  let timeout ← parseOverride 0
    "Webhook timeout must be 0 (no timeout) or a positive number of seconds." input.timeout
  let maxRetries ← parseOverride 0 "Webhook max retries must be a non-negative number." input.maxRetries
  let initialWait ← parseOverride 1 "Webhook initial wait must be at least 1 second." input.initialWait
  let maxWait ← parseOverride 1 "Webhook max wait must be at least 1 second." input.maxWait
  check (initialWait.any fun n => maxWait.any fun m => m < n)
    "Webhook initial wait cannot exceed max wait."
  let retryOnTimeout := trimSpace input.retryOnTimeout
  return ⟨ruleSigningSecret input.secret "", url, if method = "" then "POST" else method, headers,
    input.payloadTemplate, timeout.map Int64.ofInt, maxRetries, initialWait.map Int64.ofInt,
    maxWait.map Int64.ofInt, if retryOnTimeout = "" then none else some (retryOnTimeout = "yes")⟩

def parseRuleForm (input : RuleInput) : Except String RuleForm := do
  let name := trimSpace input.name
  check (name = "") "Rule name is required."
  let wh ← parseWebhook lib input
  let mode := if trimSpace input.matchMode = "any" then "any" else "all"
  let conditions ← parseConditions input.condField input.condPattern input.condHeader
  validate lib ⟨0, name, false, ⟨mode, conditions⟩, wh, 0, 0, 0⟩
  return ⟨name, ⟨mode, conditions⟩, wh, input.secret⟩

end

/-- **What is known of a form that is accepted.** -/
theorem parseRuleForm_valid {lib : RuleLib} {input : RuleInput} {form : RuleForm}
    (h : parseRuleForm lib input = .ok form) :
    trimSpace form.name ≠ "" ∧ validateSettings lib form.webhook form.«match» = .ok () := by
  obtain ⟨_, _, h⟩ := bind_ok.1 h
  obtain ⟨wh, _, h⟩ := bind_ok.1 h
  obtain ⟨conditions, _, h⟩ := bind_ok.1 h
  obtain ⟨_, hvalid, h⟩ := bind_ok.1 h
  cases h
  exact ⟨(validate_eq.1 hvalid).1, (validate_eq.1 hvalid).2.2⟩

/-! ## Requests -/

/-- A request that changes rules. -/
inductive RulesChange where
  /-- `lost` if `NextRulePosition` fails -/
  | create (input : RuleInput) (lost : Bool) (stamp : Uuid × ℤ)
  | update (id : Uuid) (input : RuleInput) (now : ℤ)
  | toggle (id : Uuid) (now : ℤ)
  | delete (id : Uuid)
  | «import» (data : String) (replace : Bool) (stamp : ℕ → Uuid × ℤ)

section
variable (lib : TransferLib) (ruleLib : RuleLib)

/-- The position of a new rule; the error of `NextRulePosition` is dropped. -/
def createPosition (lost : Bool) (t : RulesTable) : ℤ := if lost then 0 else nextRulePosition t

/-- The table after a request, if it succeeds. -/
def RulesTable.change (t : RulesTable) : RulesChange → Option RulesTable
  | .create input lost stamp => do
    let form ← (parseRuleForm ruleLib input).toOption
    (saveRule (RulesWorld.newRule form (createPosition lost t)) stamp.1 stamp.2 t).toOption
  | .update id input now => do
    let existing ← getRule id t
    let form ← (parseRuleForm ruleLib input).toOption
    (updateRule (RulesWorld.editRule existing form) now t).toOption
  | .toggle id now => do
    let rule ← getRule id t
    (updateRule { rule with enabled := !rule.enabled } now t).toOption
  | .delete id => some (deleteRule id t)
  | .import data replace stamp => do
    let items ← (decode lib ruleLib data).toOption
    (importRules (items.map ImportItem.rule) replace stamp t).toOption

end

/-- The table, and for each create its position and the positions before it. -/
structure RulesHistory where
  rules : RulesTable
  creates : List (ℤ × List ℤ)

namespace RulesHistory

def init : RulesHistory := ⟨.empty, []⟩

/-- What a request adds to the history. -/
def record (t : RulesTable) : RulesChange → List (ℤ × List ℤ)
  | .create _ lost _ => [(createPosition lost t, t.table.rows.map fun r => r.position)]
  | _ => []

def step (lib : TransferLib) (ruleLib : RuleLib) (w : RulesHistory) (e : RulesChange) :
    Option RulesHistory :=
  (w.rules.change lib ruleLib e).map fun t => ⟨t, record w.rules e ++ w.creates⟩

/-- Every new rule was put after all others. -/
def CreatesLast (w : RulesHistory) : Prop := ∀ c ∈ w.creates, ∀ p ∈ c.2, p < c.1

/-- A create finds no rule, or reads a greatest position below the last `int`. -/
def Placed (w : RulesHistory) : RulesChange → Prop
  | .create _ lost _ =>
    w.rules.table.rows = [] ∨ (lost = false ∧ ∀ r ∈ w.rules.table.rows, r.position ≠ maxInt64)
  | _ => True

end RulesHistory

/-! ## Valid tables -/

/-- A rule that `ValidateImport` accepts, with a position that is an `int`. -/
def RuleSettings.OK (lib : RuleLib) (item : TransferRule) : Prop :=
  validate lib item.toRecord = .ok () ∧ item.position ≤ maxInt64

def RulesTable.OK (lib : RuleLib) (t : RulesTable) : Prop := ∀ r ∈ t.table.rows, (portable r).OK lib

section
variable {lib : TransferLib} {ruleLib : RuleLib} {t t' : RulesTable}

theorem ok_iff {item : TransferRule} : item.OK ruleLib ↔
    trimSpace item.name ≠ "" ∧ (0 ≤ item.position ∧ item.position ≤ maxInt64) ∧
      validateSettings ruleLib item.webhook item.«match» = .ok () := by
  unfold RuleSettings.OK
  rw [validate_eq]
  constructor
  · rintro ⟨⟨hname, hposition, hsettings⟩, hmax⟩
    exact ⟨hname, ⟨hposition, hmax⟩, hsettings⟩
  · rintro ⟨hname, ⟨hposition, hmax⟩, hsettings⟩
    exact ⟨⟨hname, hposition, hsettings⟩, hmax⟩

theorem toOption_eq_some {ε α : Type} {x : Except ε α} {a : α} : x.toOption = some a ↔ x = .ok a := by
  cases x <;> simp [Except.toOption]

/-- **Where a new rule goes**: after all others iff there is none, or the
    greatest position is read and is not the last one. -/
theorem createPosition_gt_iff (h : t.OK ruleLib) {lost : Bool} :
    (∀ r ∈ t.table.rows, r.position < createPosition lost t) ↔
      t.table.rows = [] ∨ (lost = false ∧ ∀ r ∈ t.table.rows, r.position ≠ maxInt64) := by
  have hrange : ∀ r ∈ t.table.rows, 0 ≤ r.position ∧ r.position ≤ maxInt64 :=
    fun r hr => (ok_iff.1 (h r hr)).2.1
  unfold createPosition
  rcases nextRulePosition_cases t with ⟨hempty, -⟩ | ⟨r₀, hr₀, hle, hnext⟩
  · simp [hempty]
  · have hne : t.table.rows ≠ [] := List.ne_nil_of_mem hr₀
    rw [hnext]
    cases lost with
    | true =>
      simp only [hne, if_true, Bool.true_eq_false, false_and, or_false, iff_false, not_forall]
      exact ⟨r₀, hr₀, by have := hrange r₀ hr₀; omega⟩
    | false =>
      simp only [hne, Bool.false_eq_true, if_false, true_and, false_or]
      constructor
      · intro hlt r hr he
        have h₁ := hlt r hr
        have h₂ := wrap64_le (r₀.position + 1)
        omega
      · intro hlast r hr
        have h₀ := hrange r₀ hr₀
        have h₁ := hlast r₀ hr₀
        rw [wrap64_of_mem (by unfold minInt64; omega) (by omega)]
        have := hle r hr
        omega

theorem createPosition_range (h : t.OK ruleLib) {lost : Bool}
    (hgt : ∀ r ∈ t.table.rows, r.position < createPosition lost t) :
    0 ≤ createPosition lost t ∧ createPosition lost t ≤ maxInt64 := by
  constructor
  · cases hrows : t.table.rows with
    | nil => simp [createPosition, nextRulePosition, hrows]
    | cons r l =>
      have hr : r ∈ t.table.rows := by simp [hrows]
      have h₁ := hgt r hr
      have h₂ := (ok_iff.1 (h r hr)).2.1.1
      exact le_trans h₂ h₁.le
  · unfold createPosition nextRulePosition
    split_ifs
    · decide
    · split
      · decide
      · exact wrap64_le _

section
variable {input : RuleInput} {form : RuleForm} (hform : parseRuleForm ruleLib input = .ok form)
include hform

theorem ok_newRule {position : ℤ} (h : 0 ≤ position ∧ position ≤ maxInt64) :
    (portable (RulesWorld.newRule form position)).OK ruleLib := by
  obtain ⟨hname, hsettings⟩ := parseRuleForm_valid hform
  exact ok_iff.2 ⟨hname, h, (validateSettings_secret _ _ _).trans hsettings⟩

theorem ok_editRule {existing : RuleRecord} (h : (portable existing).OK ruleLib) :
    (portable (RulesWorld.editRule existing form)).OK ruleLib := by
  obtain ⟨hname, hsettings⟩ := parseRuleForm_valid hform
  exact ok_iff.2 ⟨hname, (ok_iff.1 h).2.1, (validateSettings_secret _ _ _).trans hsettings⟩

end

theorem ok_saveRule (h : t.OK ruleLib) {rule : RuleRecord} {id : Uuid} {now : ℤ}
    (hrule : (portable rule).OK ruleLib) (hsave : saveRule rule id now t = .ok t') : t'.OK ruleLib := by
  intro r hr
  rw [StoredRules.insert_ok hsave] at hr
  rcases List.mem_append.1 hr with hr | hr
  · exact h r hr
  · rw [List.mem_singleton.1 hr]
    exact hrule

theorem ok_updateRule (h : t.OK ruleLib) {rule : RuleRecord} {now : ℤ}
    (hrule : (portable rule).OK ruleLib) (hupdate : updateRule rule now t = .ok t') : t'.OK ruleLib := by
  intro r' hr'
  rw [StoredRules.update_ok hupdate] at hr'
  obtain ⟨r, hr, rfl⟩ := List.mem_map.1 hr'
  split_ifs
  · exact hrule
  · exact h r hr

theorem ok_importRules (h : t.OK ruleLib) {items : List TransferRule} {replace : Bool}
    {stamp : ℕ → Uuid × ℤ} (hitems : ∀ item ∈ items, item.OK ruleLib)
    (hn : (items.map fun item => item.name).Nodup)
    (himport : importRules items replace stamp t = .ok t') : t'.OK ruleLib := by
  intro r hr
  rcases (upsertRules_settings hn himport (portable r)).1 ⟨r, hr, rfl⟩ with hmem | ⟨-, r₀, hr₀, heq⟩
  · exact hitems _ hmem
  · rw [← heq]
    cases replace with
    | false => exact h r₀ hr₀
    | true => exact h r₀ (List.mem_of_mem_filter hr₀)

theorem ok_of_decode {data : String} {items : List ImportItem}
    (h : decode lib ruleLib data = .ok items) :
    (∀ item ∈ items.map ImportItem.rule, item.OK ruleLib) ∧
      ((items.map ImportItem.rule).map fun item => item.name).Nodup := by
  obtain ⟨hvalid, hn⟩ := validateImport_ok.1 (validateImport_of_decode h)
  refine ⟨fun item hitem => ⟨hvalid item hitem, ?_⟩, hn⟩
  obtain ⟨i, hi, rfl⟩ := List.mem_map.1 hitem
  exact (position_of_decode h hi).2

/-- **What a request does to a valid table**: it stays valid if a new rule goes
    after all others. -/
theorem ok_change (h : t.OK ruleLib) {e : RulesChange} (hplaced : RulesHistory.Placed ⟨t, []⟩ e)
    (hchange : t.change lib ruleLib e = some t') : t'.OK ruleLib := by
  cases e with
  | create input lost stamp =>
    obtain ⟨form, hform, hchange⟩ := Option.bind_eq_some_iff.1 hchange
    have hposition := createPosition_range h ((createPosition_gt_iff h).2 hplaced)
    have hrule := ok_newRule (toOption_eq_some.1 hform) hposition
    exact ok_saveRule h hrule (toOption_eq_some.1 hchange)
  | update id input now =>
    obtain ⟨existing, hget, hchange⟩ := Option.bind_eq_some_iff.1 hchange
    obtain ⟨form, hform, hchange⟩ := Option.bind_eq_some_iff.1 hchange
    have hrule := ok_editRule (toOption_eq_some.1 hform) (h existing (Table.mem_of_get? hget))
    exact ok_updateRule h hrule (toOption_eq_some.1 hchange)
  | toggle id now =>
    obtain ⟨rule, hget, hchange⟩ := Option.bind_eq_some_iff.1 hchange
    have hrule : (portable { rule with enabled := !rule.enabled }).OK ruleLib :=
      h rule (Table.mem_of_get? hget)
    exact ok_updateRule h hrule (toOption_eq_some.1 hchange)
  | delete id =>
    cases hchange
    exact fun r hr => h r (List.mem_of_mem_filter hr)
  | «import» data replace stamp =>
    obtain ⟨items, hitems, hchange⟩ := Option.bind_eq_some_iff.1 hchange
    obtain ⟨hok, hn⟩ := ok_of_decode (toOption_eq_some.1 hitems)
    exact ok_importRules h hok hn (toOption_eq_some.1 hchange)

end

/-! ## Runs -/

namespace RulesHistory

section
variable {lib : TransferLib} {ruleLib : RuleLib} {w w' : RulesHistory} {e : RulesChange}

theorem step_ok (h : w.rules.OK ruleLib) (hplaced : w.Placed e)
    (hs : w.step lib ruleLib e = some w') : w'.rules.OK ruleLib := by
  obtain ⟨t, ht, rfl⟩ := Option.map_eq_some_iff.1 hs
  exact ok_change h hplaced ht

theorem step_creates (hs : w.step lib ruleLib e = some w') :
    w'.creates = record w.rules e ++ w.creates := by
  obtain ⟨t, -, rfl⟩ := Option.map_eq_some_iff.1 hs
  rfl

/-- A create is after all others iff it is placed. -/
theorem placed_iff (h : w.rules.OK ruleLib) :
    w.Placed e ↔ ∀ c ∈ record w.rules e, ∀ p ∈ c.2, p < c.1 := by
  cases e with
  | create input lost stamp =>
    simp only [record, List.mem_singleton, forall_eq, List.forall_mem_map]
    exact (createPosition_gt_iff h).symm
  | update id input now => simp [Placed, record]
  | toggle id now => simp [Placed, record]
  | delete id => simp [Placed, record]
  | «import» data replace stamp => simp [Placed, record]

theorem createsLast_step (h : w.rules.OK ruleLib) (hs : w.step lib ruleLib e = some w') :
    w'.CreatesLast ↔ w.Placed e ∧ w.CreatesLast := by
  unfold CreatesLast
  rw [step_creates hs, placed_iff h]
  simp only [List.mem_append, or_imp, forall_and]

/-- Creates of the past stay. -/
theorem createsLast_of_run {P : RulesHistory → RulesChange → Prop} {es : List RulesChange}
    (h : Run (step lib ruleLib) P w es w') (hw' : w'.CreatesLast) : w.CreatesLast := by
  induction h with
  | nil => exact hw'
  | cons _ hs _ ih =>
    intro c hc
    refine ih hw' c ?_
    rw [step_creates hs]
    exact List.mem_append_right _ hc

theorem ok_of_placed {es : List RulesChange} (h : Run (step lib ruleLib) Placed w es w')
    (hw : w.rules.OK ruleLib) (hlast : w.CreatesLast) : w'.rules.OK ruleLib ∧ w'.CreatesLast := by
  refine h.inv (I := fun w => w.rules.OK ruleLib ∧ w.CreatesLast) ?_ ⟨hw, hlast⟩
  rintro s e s' ⟨hok, hlast⟩ hp hs
  exact ⟨step_ok hok hp hs, (createsLast_step hok hs).2 ⟨hp, hlast⟩⟩

theorem placed_of_createsLast {es : List RulesChange}
    (h : Run (step lib ruleLib) (fun _ _ => True) w es w') (hw : w.rules.OK ruleLib)
    (hw' : w'.CreatesLast) : Run (step lib ruleLib) Placed w es w' := by
  induction h with
  | nil => exact .nil
  | cons _ hs hrun ih =>
    have hp := ((createsLast_step hw hs).1 (createsLast_of_run hrun hw')).1
    exact .cons hp hs (ih (step_ok hw hp hs) hw')

end

/-- **Rules stay valid and new rules come last** in a run from the empty table
    iff each create finds no rule or reads a greatest position that is not the
    last `int`. -/
theorem creates_last_iff {lib : TransferLib} {ruleLib : RuleLib} {es : List RulesChange}
    {w : RulesHistory} (h : Run (step lib ruleLib) (fun _ _ => True) init es w) :
    ((w.rules.table.rows.map fun r => r.name).Nodup ∧
        (∀ r ∈ w.rules.table.rows, validate ruleLib r = .ok ()) ∧
        validateImport ruleLib ((listRules w.rules).map portable) = .ok () ∧ w.CreatesLast) ↔
      Run (step lib ruleLib) Placed init es w := by
  have hinit : init.rules.OK ruleLib := fun r hr => by cases hr
  have hlast : init.CreatesLast := fun c hc => by cases hc
  constructor
  · rintro ⟨-, -, -, hw⟩
    exact placed_of_createsLast h hinit hw
  · intro hrun
    obtain ⟨hok, hw⟩ := ok_of_placed hrun hinit hlast
    have hvalid : ∀ r ∈ w.rules.table.rows, validate ruleLib r = .ok () := fun r hr => (hok r hr).1
    refine ⟨w.rules.names, hvalid, validateImport_ok.2 ⟨?_, ?_⟩, hw⟩
    · intro item hitem
      obtain ⟨r, hr, rfl⟩ := List.mem_map.1 hitem
      exact hvalid r ((perm_listRules _).subset hr)
    · rw [List.map_map]
      exact ((perm_listRules w.rules).map _).nodup_iff.2 w.rules.names

/-- A form for a rule that catches everything. -/
def ruleInput (name : String) : RuleInput where
  name := name
  webhookUrl := "https://hooks.example/mail"
  webhookMethod := ""
  payloadTemplate := ""
  webhookHeaders := ""
  clearSigningSecret := ""
  signingSecret := ""
  timeout := "30"
  maxRetries := ""
  initialWait := ""
  maxWait := ""
  retryOnTimeout := ""
  matchMode := "all"
  condField := []
  condPattern := []
  condHeader := []

/-- Rules are created before and after an import, a toggle and a deletion. -/
def sampleChanges : List RulesChange :=
  [.create (ruleInput "alert") false (1, 10), .import (archiveJson "3") false fun i => (i + 2, 20),
    .create (ruleInput "billing") false (7, 30), .toggle 2 40, .delete 1,
    .create (ruleInput "alert") false (8, 50)]

instance (w : RulesHistory) : ∀ c : RulesChange, Decidable (w.Placed c)
  | .create _ _ _ => inferInstanceAs (Decidable (_ ∨ _))
  | .update _ _ _ | .toggle _ _ | .delete _ | .import _ _ _ => .isTrue trivial

theorem creates_last_sample : ∃ w,
    exec (step (archiveLib 3 "3" "3") sampleRuleLib) init sampleChanges = some w ∧
      w.creates = [(5, [3, 4]), (4, [0, 3]), (0, [])] ∧ (w.rules.table.rows.map fun r => r.name).Nodup ∧
      (∀ r ∈ w.rules.table.rows, validate sampleRuleLib r = .ok ()) ∧
      validateImport sampleRuleLib ((listRules w.rules).map portable) = .ok () ∧ w.CreatesLast := by
  have hs : (execIf (step (archiveLib 3 "3" "3") sampleRuleLib) (fun w c => decide (w.Placed c)) init
      sampleChanges).map (fun w => w.creates) = some [(5, [3, 4]), (4, [0, 3]), (0, [])] := by
    decide +kernel
  obtain ⟨w, hw, hcreates⟩ := Option.map_eq_some_iff.1 hs
  have hplaced : Run (step (archiveLib 3 "3" "3") sampleRuleLib) Placed init sampleChanges w :=
    Run.of_execIf (fun _ _ => of_decide_eq_true) hw
  have hrun := hplaced.imp (Q := fun _ _ => True) fun _ _ _ => trivial
  exact ⟨w, hplaced.exec_eq, hcreates, (creates_last_iff hrun).2 hplaced⟩

/-- The libraries on a file with the last position. -/
def lastLib : TransferLib := archiveLib maxInt64 "9223372036854775807" "9.223372036854776e+18"

/-- After a rule with the last position, a new one gets the first. -/
theorem create_wraps_around :
    (exec (step lastLib sampleRuleLib) init
        [.import (archiveJson "9223372036854775807") false fun i => (i, 10),
          .create (ruleInput "alert") false (7, 20)]).map
        (fun w => (w.creates, w.rules.table.rows.map fun r => validate sampleRuleLib r)) =
      some ([(minInt64, [maxInt64])], [.ok (), .error "position must be non-negative"]) := by
  decide +kernel

end RulesHistory

end Mailrelay
