/-
  The import of a rules file and its preview (`handleRulesImport` in
  `internal/webui/rules_transfer.go`).

  The preview compares decoded values with stored ones: conditions by their
  JSON, webhooks by `reflect.DeepEqual`, which tells an empty map from a nil
  one.  The database compares JSON texts, where both are left out.  So a file
  with `headers: {}` is announced as a change that the import does not make.

  * `previewItems_eq`: the preview, item by item;
  * `storedSettings_import`: what an import leaves under each name;
  * `previewChange_eq_iff`: when one entry is right;
  * `preview_describes_iff`: the main result.
-/
import Mailrelay.Rules.Transfer
import Mailrelay.Storage.Import

namespace Mailrelay

open Lib

/-! ## The preview -/

/-- A setting of a rule. -/
inductive Setting where
  | enabled | position | «match» | webhook
  deriving DecidableEq, Repr

inductive ChangeAction where
  | created | unchanged | updated | deleted
  deriving DecidableEq, Repr

structure ImportChange where
  name : String
  action : ChangeAction
  fields : List Setting
  deriving DecidableEq, Repr

theorem encodeMatch_inj {a b : MatcherConfig} : encodeMatch a = encodeMatch b ↔ a = b := by
  constructor
  · intro h
    have ha := decodeMatch_encodeMatch id a
    rw [h, decodeMatch_encodeMatch id b] at ha
    exact (Except.ok.inj ha).symm
  · rintro rfl
    rfl

instance (a b : MatcherConfig) : Decidable (encodeMatch a = encodeMatch b) :=
  decidable_of_iff (a = b) encodeMatch_inj.symm

/-- The settings that a list of changes names. -/
def settingsList (enabled position «match» webhook : Bool) : List Setting :=
  (if enabled then [.enabled] else []) ++ (if position then [.position] else []) ++
    (if «match» then [.«match»] else []) ++ (if webhook then [.webhook] else [])

def changeOf (name : String) (fields : List Setting) : ImportChange :=
  ⟨name, if fields = [] then .unchanged else .updated, fields⟩

/-- The entry of an item, where `existing` are the rules. -/
def previewChange (existing : List RuleRecord) (item : ImportItem) : ImportChange :=
  match existing.find? fun r => r.name == item.name with
  | none => ⟨item.name, .created, []⟩
  | some old =>
    changeOf item.name (settingsList (old.enabled ≠ item.enabled) (old.position ≠ item.position)
      (encodeMatch old.«match» ≠ encodeMatch item.«match») (old.webhook.stored ≠ item.webhook))

/-- The loop over the items, and the rules that it leaves over. -/
def previewItems (existing : List RuleRecord) :
    List ImportItem → List ImportChange × List RuleRecord
  | [] => ([], existing)
  | item :: items =>
    let rest := previewItems (existing.filter fun r => r.name ≠ item.name) items
    (previewChange existing item :: rest.1, rest.2)

/-- The change list of `handleRulesImport`. -/
def previewImport (items : List ImportItem) (replace : Bool) (t : RulesTable) : List ImportChange :=
  let records := listRules t
  let (changes, existing) := previewItems records items
  if replace then
    changes ++ (records.filter fun r => r.name ∈ existing.map fun r => r.name).map
      fun r => ⟨r.name, .deleted, []⟩
  else changes

/-! ## The request -/

structure ImportRequest where
  /-- the body, if it can be read and is not over 2 MiB -/
  body : Option String
  mode : String
  apply : Bool

inductive ImportResponse where
  | error (code : ℕ) (text : String)
  /-- 400, with the text of the error -/
  | notDecoded (e : TransferError)
  | changes (l : List ImportChange)
  deriving DecidableEq

section
variable (lib : TransferLib) (ruleLib : RuleLib)

/-- `handleRulesImport` up to the reload of the engine. -/
def handleRulesImport (request : ImportRequest) (stamp : ℕ → Uuid × ℤ) (t : RulesTable) :
    ImportResponse × RulesTable :=
  match request.body with
  | none => (.error 400 "Rules file exceeds 2 MiB or could not be read", t)
  | some data =>
    match decode lib ruleLib data with
    | .error e => (.notDecoded e, t)
    | .ok items =>
      if request.mode ≠ "merge" ∧ request.mode ≠ "replace" then
        (.error 400 "mode must be merge or replace", t)
      else
        let changes := previewImport items (request.mode = "replace") t
        if request.apply then
          match importRules (items.map ImportItem.rule) (request.mode = "replace") stamp t with
          | .error _ => (.error 500 "Could not import rules", t)
          | .ok t' => (.changes changes, t')
        else (.changes changes, t)

end

/-! ## What the import changes -/

/-- The settings stored under a name. -/
def storedSettings (t : RulesTable) (name : String) : Option TransferRule :=
  (t.table.rows.find? fun r => r.name == name).map portable

/-- What happened to the rule of a name. -/
def actualChange (t t' : RulesTable) (name : String) : ImportChange :=
  match storedSettings t name, storedSettings t' name with
  | none, _ => ⟨name, .created, []⟩
  | some _, none => ⟨name, .deleted, []⟩
  | some old, some new =>
    changeOf name (settingsList (old.enabled ≠ new.enabled) (old.position ≠ new.position)
      (old.«match» ≠ new.«match») (old.webhook ≠ new.webhook))

/-- What an import changed: one entry per item and, in replace mode, one per
    rule that the file does not name. -/
def actualChanges (t t' : RulesTable) (items : List ImportItem) (replace : Bool) : List ImportChange :=
  (items.map fun item => actualChange t t' item.name) ++
    (if replace then
      ((listRules t).filter fun r => r.name ∉ items.map fun item => item.name).map
        fun r => actualChange t t' r.name
    else [])

/-! ## The preview, item by item -/

theorem previewChange_filter {existing : List RuleRecord} {item item' : ImportItem}
    (h : item'.name ≠ item.name) :
    previewChange (existing.filter fun r => r.name ≠ item.name) item' = previewChange existing item' := by
  have hfind : (existing.filter fun r => r.name ≠ item.name).find? (fun r => r.name == item'.name) =
      existing.find? fun r => r.name == item'.name := by
    rw [List.find?_filter]
    congr 1
    funext r
    by_cases hr : r.name = item'.name
    · simp [hr, h]
    · simp [hr]
  unfold previewChange
  rw [hfind]

theorem previewItems_eq {existing : List RuleRecord} {items : List ImportItem}
    (hn : (items.map fun item => item.name).Nodup) :
    previewItems existing items = (items.map (previewChange existing),
      existing.filter fun r => r.name ∉ items.map fun item => item.name) := by
  induction items generalizing existing with
  | nil => simp [previewItems]
  | cons item items ih =>
    obtain ⟨hitem, hn⟩ := List.nodup_cons.1 hn
    simp only [previewItems, ih hn, List.map_cons, Prod.mk.injEq, List.cons.injEq, true_and]
    constructor
    · refine List.map_congr_left fun item' hi => previewChange_filter fun he => hitem ?_
      exact List.mem_map.2 ⟨item', hi, he⟩
    · rw [List.filter_filter]
      congr 1
      funext r
      rw [Bool.eq_iff_iff]
      simp [and_comm]

/-! ## Rules by name -/

section
variable {t : RulesTable} {name : String}

theorem find?_name {l : List RuleRecord} (hl : l.Perm t.table.rows) {r : RuleRecord} :
    l.find? (fun r => r.name == name) = some r ↔ r ∈ t.table.rows ∧ r.name = name := by
  rw [← hl.mem_iff]
  exact find?_key_eq_some fun _ h _ h' => t.eq_of_name (hl.subset h) (hl.subset h')

theorem find?_name_eq {l : List RuleRecord} (hl : l.Perm t.table.rows) :
    l.find? (fun r => r.name == name) = t.table.rows.find? fun r => r.name == name := by
  ext r
  rw [find?_name hl, find?_name (List.Perm.refl _)]

theorem storedSettings_eq_some {x : TransferRule} :
    storedSettings t name = some x ↔ (∃ r ∈ t.table.rows, portable r = x) ∧ x.name = name := by
  unfold storedSettings
  rw [Option.map_eq_some_iff]
  constructor
  · rintro ⟨r, hr, rfl⟩
    obtain ⟨hr, hname⟩ := (find?_name (List.Perm.refl _)).1 hr
    exact ⟨⟨r, hr, rfl⟩, hname⟩
  · rintro ⟨⟨r, hr, rfl⟩, hname⟩
    exact ⟨r, (find?_name (List.Perm.refl _)).2 ⟨hr, hname⟩, rfl⟩

end

/-! ## After the import -/

section
variable {stamp : ℕ → Uuid × ℤ} {items : List ImportItem} {t t' : RulesTable} {replace : Bool}

theorem storedSettings_import (hn : (items.map fun item => item.name).Nodup)
    (h : importRules (items.map ImportItem.rule) replace stamp t = .ok t') {item : ImportItem}
    (hitem : item ∈ items) : storedSettings t' item.name = some item.rule := by
  have hn' : ((items.map ImportItem.rule).map fun x => x.name).Nodup := by rwa [List.map_map]
  refine storedSettings_eq_some.2 ⟨?_, rfl⟩
  rw [upsertRules_settings hn' h]
  exact .inl (List.mem_map_of_mem hitem)

theorem storedSettings_replaced (hn : (items.map fun item => item.name).Nodup)
    (h : importRules (items.map ImportItem.rule) true stamp t = .ok t') {name : String}
    (hname : name ∉ items.map fun item => item.name) : storedSettings t' name = none := by
  have hn' : ((items.map ImportItem.rule).map fun x => x.name).Nodup := by rwa [List.map_map]
  rw [Option.eq_none_iff_forall_ne_some]
  intro x hx
  obtain ⟨hrow, rfl⟩ := storedSettings_eq_some.1 hx
  rcases (upsertRules_settings hn' h x).1 hrow with hmem | ⟨-, r, hr, -⟩
  · obtain ⟨item, hi, rfl⟩ := List.mem_map.1 hmem
    exact hname (List.mem_map.2 ⟨item, hi, rfl⟩)
  · simp [StoredRules.delete, Table.delete] at hr

end

/-- A rule that the file does not name is deleted in replace mode. -/
theorem actualChange_deleted {stamp : ℕ → Uuid × ℤ} {items : List ImportItem} {t t' : RulesTable}
    (hn : (items.map fun item => item.name).Nodup)
    (h : importRules (items.map ImportItem.rule) true stamp t = .ok t') {r : RuleRecord}
    (hr : r ∈ (listRules t).filter fun r => r.name ∉ items.map fun item => item.name) :
    actualChange t t' r.name = ⟨r.name, .deleted, []⟩ := by
  obtain ⟨hr, hname⟩ := List.mem_filter.1 hr
  have hold : storedSettings t r.name = some (portable r) :=
    storedSettings_eq_some.2 ⟨⟨r, (perm_listRules t).subset hr, rfl⟩, rfl⟩
  unfold actualChange
  rw [hold, storedSettings_replaced hn h (of_decide_eq_true hname)]

/-! ## Main result -/

/-- `reflect.DeepEqual` of a stored webhook and a decoded one. -/
theorem stored_eq_iff {w : WebhookConfig} {g : GoWebhook} :
    w.stored = g ↔ w = g.config ∧ g.headers ≠ some [] := by
  constructor
  · rintro rfl
    refine ⟨rfl, ?_⟩
    simp only [WebhookConfig.stored]
    split_ifs with hw
    · simp
    · simpa using hw
  · obtain ⟨config, headers, hagree⟩ := g
    rintro ⟨rfl, hne⟩
    unfold WebhookConfig.stored
    cases headers with
    | none => simp_all
    | some l =>
      have hl : l ≠ [] := by
        rintro rfl
        exact hne rfl
      have hagree' : w.headers = l := hagree
      simp [hagree', hl]

theorem settingsList_inj {e p m w w' : Bool} : settingsList e p m w = settingsList e p m w' ↔ w = w' := by
  cases w <;> cases w' <;> simp [settingsList]

theorem changeOf_inj {name : String} {l l' : List Setting} :
    changeOf name l = changeOf name l' ↔ l = l' := by
  constructor
  · intro h
    exact congrArg ImportChange.fields h
  · rintro rfl
    rfl

/-- The item gives the stored webhook, with an empty map of headers. -/
def Misread (t : RulesTable) (item : ImportItem) : Prop :=
  item.webhook.headers = some [] ∧
    ∃ r ∈ t.table.rows, r.name = item.name ∧ r.webhook = item.webhook.config

/-- **When one entry is right.** -/
theorem previewChange_eq_iff {t t' : RulesTable} {item : ImportItem}
    (h : storedSettings t' item.name = some item.rule) :
    previewChange (listRules t) item = actualChange t t' item.name ↔ ¬ Misread t item := by
  unfold previewChange actualChange storedSettings
  rw [find?_name_eq (perm_listRules t)]
  have h' : (t'.table.rows.find? fun r => r.name == item.name).map portable = some item.rule := h
  rw [h']
  cases hold : t.table.rows.find? fun r => r.name == item.name with
  | none =>
    refine iff_of_true rfl ?_
    rintro ⟨-, r, hr, hname, -⟩
    exact absurd (List.find?_eq_none.1 hold r hr) (by simp [hname])
  | some old =>
    obtain ⟨hmem, hname⟩ := (find?_name (List.Perm.refl _)).1 hold
    have hmis : Misread t item ↔ item.webhook.headers = some [] ∧ old.webhook = item.webhook.config := by
      constructor
      · rintro ⟨hh, r, hr, hn, hw⟩
        rw [t.eq_of_name hmem hr (hname.trans hn.symm)]
        exact ⟨hh, hw⟩
      · rintro ⟨hh, hw⟩
        exact ⟨hh, old, hmem, hname, hw⟩
    rw [hmis]
    have hmatch : decide (encodeMatch old.«match» ≠ encodeMatch item.«match») =
        decide (old.«match» ≠ item.«match») := by
      simp [encodeMatch_inj]
    have hpreview : changeOf item.name (settingsList (old.enabled ≠ item.enabled)
          (old.position ≠ item.position) (encodeMatch old.«match» ≠ encodeMatch item.«match»)
          (old.webhook.stored ≠ item.webhook)) =
        changeOf item.name (settingsList (old.enabled ≠ item.enabled) (old.position ≠ item.position)
          (old.«match» ≠ item.«match») (old.webhook ≠ item.webhook.config)) ↔
        (old.webhook.stored = item.webhook ↔ old.webhook = item.webhook.config) := by
      rw [changeOf_inj, hmatch, settingsList_inj, decide_eq_decide, not_iff_not]
    refine hpreview.trans ?_
    rw [stored_eq_iff]
    tauto

section
variable {lib : TransferLib} {ruleLib : RuleLib} {data : String} {items : List ImportItem}

theorem previewImport_eq {replace : Bool} {t : RulesTable} (hn : (items.map fun item => item.name).Nodup) :
    previewImport items replace t = items.map (previewChange (listRules t)) ++
      (if replace then
        ((listRules t).filter fun r => r.name ∉ items.map fun item => item.name).map
          fun r => ⟨r.name, .deleted, []⟩
      else []) := by
  have hfilter : (listRules t).filter (fun r => r.name ∈ ((listRules t).filter fun r =>
        r.name ∉ items.map fun item => item.name).map fun r => r.name) =
      (listRules t).filter fun r => r.name ∉ items.map fun item => item.name := by
    refine List.filter_congr fun r hr => ?_
    rw [decide_eq_decide]
    constructor
    · intro h
      obtain ⟨r', hr', hname⟩ := List.mem_map.1 h
      rw [← hname]
      simpa using (List.mem_filter.1 hr').2
    · intro h
      exact List.mem_map.2 ⟨r, List.mem_filter.2 ⟨hr, by simpa using h⟩, rfl⟩
  simp only [previewImport, previewItems_eq hn]
  cases replace with
  | false => simp
  | true => simp only [if_true, hfilter]

/-- The text of the mode. -/
def importMode (replace : Bool) : String := if replace then "replace" else "merge"

theorem handleRulesImport_eq (h : decode lib ruleLib data = .ok items) {replace : Bool} {apply : Bool}
    {stamp : ℕ → Uuid × ℤ} {t t' : RulesTable}
    (himport : importRules (items.map ImportItem.rule) replace stamp t = .ok t') :
    handleRulesImport lib ruleLib ⟨some data, importMode replace, apply⟩ stamp t =
      (.changes (previewImport items replace t), if apply then t' else t) := by
  have hmode : decide (importMode replace = "replace") = replace := by
    cases replace <;> decide
  have hvalid : ¬ (importMode replace ≠ "merge" ∧ importMode replace ≠ "replace") := by
    cases replace <;> decide
  simp only [handleRulesImport, h, if_neg hvalid, hmode, himport]
  cases apply <;> rfl

/-- **The preview describes the import** iff no item of the file gives an
    existing rule its own webhook with an empty map of headers. -/
theorem preview_describes_iff (hdecode : decode lib ruleLib data = .ok items) (replace : Bool)
    (t : RulesTable) {stamp : ℕ → Uuid × ℤ} (hids : ∀ i j, (stamp i).1 = (stamp j).1 → i = j)
    (hfresh : ∀ r ∈ t.table.rows, ∀ j, r.id ≠ (stamp j).1) :
    ∃ changes t',
      handleRulesImport lib ruleLib ⟨some data, importMode replace, false⟩ stamp t =
        (.changes changes, t) ∧
      handleRulesImport lib ruleLib ⟨some data, importMode replace, true⟩ stamp t =
        (.changes changes, t') ∧
      (changes = actualChanges t t' items replace ↔ ∀ item ∈ items, ¬ Misread t item) := by
  have hn : (items.map fun item => item.name).Nodup := by
    have := (validateImport_ok.1 (validateImport_of_decode hdecode)).2
    rwa [List.map_map] at this
  obtain ⟨t', himport⟩ : ∃ t', importRules (items.map ImportItem.rule) replace stamp t = .ok t' := by
    refine upsertRules_total hids _ 0 _ fun r hr j _ => hfresh r ?_ j
    cases replace with
    | false => exact hr
    | true => exact List.mem_of_mem_filter hr
  refine ⟨_, t', handleRulesImport_eq hdecode himport, handleRulesImport_eq hdecode himport, ?_⟩
  have hdeleted : (if replace then
        ((listRules t).filter fun r => r.name ∉ items.map fun item => item.name).map
          fun r => (⟨r.name, .deleted, []⟩ : ImportChange)
      else []) =
      if replace then
        ((listRules t).filter fun r => r.name ∉ items.map fun item => item.name).map
          fun r => actualChange t t' r.name
      else [] := by
    cases replace with
    | false => rfl
    | true => exact List.map_congr_left fun r hr => (actualChange_deleted hn himport hr).symm
  unfold actualChanges
  rw [previewImport_eq hn, hdeleted, List.append_left_inj, List.map_inj_left]
  exact forall₂_congr fun item hitem => previewChange_eq_iff (storedSettings_import hn himport hitem)

end

def archiveTable : RulesTable :=
  ⟨⟨[archiveRule 3], List.nodup_singleton _⟩, List.nodup_singleton _⟩

/-- The item of the file of `archiveRule 3`. -/
def archiveItem : ImportItem := ⟨"archive", true, 3, ⟨"", []⟩, (archiveRule 3).webhook.stored⟩

theorem preview_describes_archive : ∃ changes t',
    handleRulesImport (archiveLib 3 "3" "3") sampleRuleLib ⟨some (archiveYaml "3"), importMode true, false⟩
        (fun i => (i + 2, i)) archiveTable = (.changes changes, archiveTable) ∧
      handleRulesImport (archiveLib 3 "3" "3") sampleRuleLib ⟨some (archiveYaml "3"), importMode true, true⟩
        (fun i => (i + 2, i)) archiveTable = (.changes changes, t') ∧
      (changes = actualChanges archiveTable t' [archiveItem] true ↔
        ∀ item ∈ [archiveItem], ¬ Misread archiveTable item) :=
  preview_describes_iff (by decide +kernel) true archiveTable (fun i j h => Nat.add_right_cancel h)
    (by
      intro r hr j
      rw [List.mem_singleton.1 hr]
      exact (show (1 : ℕ) ≠ j + 2 by omega))

/-- The same rule in a file, with an empty map of headers. -/
def emptyHeadersYaml : String :=
  "version: 1\nrules:\n  - name: archive\n    enabled: true\n    position: 3\n    webhook:\n" ++
    "      url: https://hooks.example/mail\n      method: POST\n      headers: \x7b\x7d\n      timeout: 30\n"

def emptyHeadersLib : TransferLib where
  marshalIndent _ := ""
  marshalYaml _ := .ok ""
  documents data :=
    if data = emptyHeadersYaml then
      [.ok (.obj [("version", .num (.int 1)), ("rules", .arr [.obj [("name", .str "archive"),
        ("enabled", .bool true), ("position", .num (.int 3)),
        ("webhook", .obj [("url", .str "https://hooks.example/mail"), ("method", .str "POST"),
          ("headers", .obj []), ("timeout", .num (.int 30))])]])])]
    else []

/-- A change is announced that the import does not make. -/
theorem preview_announces_no_change :
    (handleRulesImport emptyHeadersLib sampleRuleLib ⟨some emptyHeadersYaml, "merge", false⟩
        (fun i => (i + 2, i)) archiveTable).1 = .changes [⟨"archive", .updated, [.webhook]⟩] ∧
      storedSettings (handleRulesImport emptyHeadersLib sampleRuleLib
        ⟨some emptyHeadersYaml, "merge", true⟩ (fun i => (i + 2, i)) archiveTable).2 "archive" =
        storedSettings archiveTable "archive" := by
  decide +kernel

end Mailrelay
