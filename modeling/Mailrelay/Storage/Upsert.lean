/-
  Imports as merges by name (`ImportRules` in
  `internal/storage/rules_transfer.go`), with statements that may fail.

  `importStatements` is the transaction, `BEGIN` and `COMMIT` included; any
  statement may fail, and then the table stays as it was.

  The columns for matchers and webhooks hold what `json.Marshal` writes
  (`RuleCodec`), and the statement of an item compares these texts.  Two texts
  may be read as one value: `json.Marshal` writes a byte that is no UTF-8 as an
  escape, which is read as U+FFFD, and writes that character as it is.

  * `importRulesTx_none`: without failures this is `importRules`;
  * `Merged`: what a merge makes of the old rows;
  * `importRules_shows`: an import of texts, read back, is the import of the values;
  * `import_upserts_iff`: the main result.
-/
import Mailrelay.Storage.Import

namespace Mailrelay

open Lib

section
variable {M W : Type}

/-! ## Statements -/

/-- Statements one after the other; the fuse is the number of those that run. -/
def runStatements : Option ℕ → List (StoredRules M W → Except DbError (StoredRules M W)) → StoredRules M W →
    Except DbError (StoredRules M W)
  | _, [], t => .ok t
  | some 0, _ :: _, _ => .error .io
  | fuse, f :: fs, t => do
    let t ← f t
    runStatements (fuse.map (· - 1)) fs t

theorem runStatements_ok {fuse : Option ℕ} {fs : List (StoredRules M W → Except DbError (StoredRules M W))}
    {t t' : StoredRules M W} (h : runStatements fuse fs t = .ok t') : runStatements none fs t = .ok t' := by
  induction fs generalizing fuse t with
  | nil =>
    simp only [runStatements] at h ⊢
    exact h
  | cons f fs ih =>
    rcases fuse with _ | _ | n
    · exact h
    · simp [runStatements] at h
    · rw [runStatements] at h ⊢
      · obtain ⟨t₁, h₁, h₂⟩ := bind_ok.1 h
        exact bind_ok.2 ⟨t₁, h₁, ih h₂⟩
      all_goals simp

theorem runStatements_append (fs gs : List (StoredRules M W → Except DbError (StoredRules M W)))
    (t : StoredRules M W) :
    runStatements none (fs ++ gs) t = (runStatements none fs t).bind (runStatements none gs) := by
  induction fs generalizing t with
  | nil => simp [runStatements, Except.bind]
  | cons f fs ih =>
    simp only [List.cons_append, runStatements, Option.map_none]
    rcases f t with e | t₁
    · rfl
    · exact ih t₁

theorem portable_nodup (t : StoredRules M W) : (t.table.rows.map portable).Nodup := by
  have hname : t.table.rows.map (fun r => r.name) = (t.table.rows.map portable).map fun x => x.name := by
    rw [List.map_map]
    rfl
  exact List.Nodup.of_map _ (hname ▸ t.names)

theorem mem_portable {t : StoredRules M W} {x : RuleSettings M W} :
    x ∈ t.table.rows.map portable ↔ ∃ r ∈ t.table.rows, portable r = x := List.mem_map

theorem item_unique {items : List (RuleSettings M W)}
    (hn : (items.map fun item => item.name).Nodup) {x y : RuleSettings M W} (hx : x ∈ items)
    (hy : y ∈ items) (h : x.name = y.name) : x = y :=
  List.inj_on_of_nodup_map hn hx hy h

variable [DecidableEq M] [DecidableEq W]

def upsertStatements (stamp : ℕ → Uuid × ℤ) (i : ℕ) (items : List (RuleSettings M W)) :
    List (StoredRules M W → Except DbError (StoredRules M W)) :=
  (items.zipIdx i).map fun p => upsertRule p.1 (stamp p.2).1 (stamp p.2).2

/-- `BEGIN`, the deletion, the items and `COMMIT`. -/
def importStatements (items : List (RuleSettings M W)) (replace : Bool) (stamp : ℕ → Uuid × ℤ) :
    List (StoredRules M W → Except DbError (StoredRules M W)) :=
  .ok :: (if replace then [fun t => .ok (t.delete fun _ => true)] else []) ++
    upsertStatements stamp 0 items ++ [.ok]

/-- `ImportRules`; `defer tx.Rollback()` undoes it on an error. -/
def importRulesTx (items : List (RuleSettings M W)) (replace : Bool) (stamp : ℕ → Uuid × ℤ)
    (fuse : Option ℕ) (t : StoredRules M W) : Except DbError Unit × StoredRules M W :=
  match runStatements fuse (importStatements items replace stamp) t with
  | .ok t' => (.ok (), t')
  | .error e => (.error e, t)

theorem runStatements_upsert (stamp : ℕ → Uuid × ℤ) (i : ℕ) (items : List (RuleSettings M W))
    (t : StoredRules M W) :
    runStatements none (upsertStatements stamp i items) t = upsertRules stamp i items t := by
  induction items generalizing i t with
  | nil => simp [upsertStatements, runStatements, upsertRules]
  | cons item items ih =>
    simp only [upsertStatements, List.zipIdx_cons, List.map_cons, runStatements, Option.map_none,
      upsertRules]
    rcases upsertRule item (stamp i).1 (stamp i).2 t with e | t₁
    · rfl
    · exact ih (i + 1) t₁

/-- **Without failures this is `importRules`.** -/
theorem importRulesTx_none (items : List (RuleSettings M W)) (replace : Bool) (stamp : ℕ → Uuid × ℤ)
    (t : StoredRules M W) :
    runStatements none (importStatements items replace stamp) t = importRules items replace stamp t := by
  have hcommit : ∀ x : Except DbError (StoredRules M W), x.bind (runStatements none [.ok]) = x := by
    intro x
    cases x <;> rfl
  rw [importStatements, runStatements_append, hcommit, List.cons_append, importRules]
  cases replace with
  | false => exact runStatements_upsert stamp 0 items t
  | true => exact runStatements_upsert stamp 0 items (t.delete fun _ => true)

/-- **An import that succeeds is `importRules`.** -/
theorem importRulesTx_ok {items : List (RuleSettings M W)} {replace : Bool} {stamp : ℕ → Uuid × ℤ}
    {fuse : Option ℕ} {t t' : StoredRules M W}
    (h : importRulesTx items replace stamp fuse t = (.ok (), t')) :
    importRules items replace stamp t = .ok t' := by
  unfold importRulesTx at h
  split at h
  · next t₁ hrun =>
    obtain ⟨-, rfl⟩ := Prod.mk.inj h
    rw [← importRulesTx_none]
    exact runStatements_ok hrun
  · cases h

theorem importRulesTx_error {items : List (RuleSettings M W)} {replace : Bool} {stamp : ℕ → Uuid × ℤ}
    {fuse : Option ℕ} {t t' : StoredRules M W} {e : DbError}
    (h : importRulesTx items replace stamp fuse t = (.error e, t')) : t' = t := by
  unfold importRulesTx at h
  split at h
  · cases h
  · exact (Prod.mk.inj h).2.symm

/-- With fresh ids and no failure an import succeeds. -/
theorem importRulesTx_total (items : List (RuleSettings M W)) (replace : Bool) {stamp : ℕ → Uuid × ℤ}
    (hids : ∀ i j, (stamp i).1 = (stamp j).1 → i = j) {t : StoredRules M W}
    (hfresh : ∀ r ∈ t.table.rows, ∀ j, r.id ≠ (stamp j).1) :
    ∃ t', importRulesTx items replace stamp none t = (.ok (), t') := by
  have hstart : ∀ r ∈ (if replace then t.delete fun _ => true else t).table.rows, ∀ j, 0 ≤ j →
      r.id ≠ (stamp j).1 := by
    intro r hr j _
    split_ifs at hr
    · exact hfresh r (List.mem_of_mem_filter hr) j
    · exact hfresh r hr j
  obtain ⟨t', ht'⟩ := upsertRules_total hids items 0 _ hstart
  refine ⟨t', ?_⟩
  rw [importRulesTx, importRulesTx_none, importRules, ht']

/-! ## Rows that stay -/

/-- An item leaves a row alone that has another name, or its settings. -/
theorem upsertRule_keeps {item : RuleSettings M W} {stamp : ℕ → Uuid × ℤ} {i : ℕ} {t t' : StoredRules M W}
    (h : upsertRule item (stamp i).1 (stamp i).2 t = .ok t') {r : StoredRule M W} (hr : r ∈ t.table.rows)
    (hitem : r.name = item.name → portable r = item) : r ∈ t'.table.rows := by
  rcases upsertRule_ok h with ⟨-, hrows⟩ | ⟨-, hrows⟩
  · rw [hrows]
    exact List.mem_append_left _ hr
  · rw [hrows]
    refine List.mem_map.2 ⟨r, hr, if_neg ?_⟩
    rintro ⟨hn, hne⟩
    exact hne (hitem hn)

theorem upsertRules_keeps {stamp : ℕ → Uuid × ℤ} {items : List (RuleSettings M W)} {i : ℕ}
    {t t' : StoredRules M W}
    (h : upsertRules stamp i items t = .ok t') {r : StoredRule M W} (hr : r ∈ t.table.rows)
    (hitems : ∀ item ∈ items, r.name = item.name → portable r = item) : r ∈ t'.table.rows := by
  induction items generalizing i t with
  | nil =>
    cases h
    exact hr
  | cons item items ih =>
    obtain ⟨t₁, h₁, h₂⟩ := bind_ok.1 h
    rw [List.forall_mem_cons] at hitems
    exact ih h₂ (upsertRule_keeps h₁ hr hitems.1) hitems.2

/-- An item that updates a row keeps its identity. -/
theorem upsertRule_identity {item : RuleSettings M W} {stamp : ℕ → Uuid × ℤ} {i : ℕ}
    {t t' : StoredRules M W}
    (h : upsertRule item (stamp i).1 (stamp i).2 t = .ok t') {r : StoredRule M W} (hr : r ∈ t.table.rows) :
    ∃ r' ∈ t'.table.rows, r'.name = r.name ∧ r'.id = r.id ∧ r'.createdAt = r.createdAt := by
  rcases upsertRule_ok h with ⟨-, hrows⟩ | ⟨-, hrows⟩
  · rw [hrows]
    exact ⟨r, List.mem_append_left _ hr, rfl, rfl, rfl⟩
  · rw [hrows]
    refine ⟨_, List.mem_map_of_mem hr, ?_⟩
    split_ifs
    · exact ⟨rfl, rfl, rfl⟩
    · exact ⟨rfl, rfl, rfl⟩

theorem upsertRules_identity {stamp : ℕ → Uuid × ℤ} {items : List (RuleSettings M W)} {i : ℕ}
    {t t' : StoredRules M W}
    (h : upsertRules stamp i items t = .ok t') {r : StoredRule M W} (hr : r ∈ t.table.rows) :
    ∃ r' ∈ t'.table.rows, r'.name = r.name ∧ r'.id = r.id ∧ r'.createdAt = r.createdAt := by
  induction items generalizing i t r with
  | nil =>
    cases h
    exact ⟨r, hr, rfl, rfl, rfl⟩
  | cons item items ih =>
    obtain ⟨t₁, h₁, h₂⟩ := bind_ok.1 h
    obtain ⟨r₁, hr₁, hn₁, hid₁, hc₁⟩ := upsertRule_identity h₁ hr
    obtain ⟨r', hr', hn', hid', hc'⟩ := ih h₂ hr₁
    exact ⟨r', hr', hn'.trans hn₁, hid'.trans hid₁, hc'.trans hc₁⟩

/-! ## Merges -/

/-- What a merge of the items makes of the rules. -/
structure Merged (items : List (RuleSettings M W)) (t t' : StoredRules M W) : Prop where
  names : ∀ name, (∃ r ∈ t'.table.rows, r.name = name) ↔
    (∃ r ∈ t.table.rows, r.name = name) ∨ ∃ item ∈ items, item.name = name
  stored : ∀ item ∈ items, ∃ r ∈ t'.table.rows, portable r = item
  unnamed : ∀ r ∈ t.table.rows, (∀ item ∈ items, r.name ≠ item.name) → r ∈ t'.table.rows
  identity : ∀ r ∈ t.table.rows, ∀ r' ∈ t'.table.rows, r'.name = r.name →
    r'.id = r.id ∧ r'.createdAt = r.createdAt
  /-- a rule with the settings of its item stays, its `updated_at` included -/
  equal : ∀ r ∈ t.table.rows, portable r ∈ items → r ∈ t'.table.rows

section
variable {stamp : ℕ → Uuid × ℤ} {items : List (RuleSettings M W)} {i : ℕ} {t t' : StoredRules M W}

theorem upsertRules_merged (hn : (items.map fun item => item.name).Nodup)
    (h : upsertRules stamp i items t = .ok t') : Merged items t t' := by
  have hsettings := upsertRules_settings hn h
  refine ⟨fun name => ?_, fun item hi => (hsettings item).2 (.inl hi), fun r hr hr' => ?_,
    fun r hr r' hr' hname => ?_, fun r hr hitem => ?_⟩
  · constructor
    · rintro ⟨r, hr, rfl⟩
      rcases (hsettings (portable r)).1 ⟨r, hr, rfl⟩ with hx | ⟨-, r₀, hr₀, he⟩
      · exact .inr ⟨_, hx, rfl⟩
      · exact .inl ⟨r₀, hr₀, congrArg RuleSettings.name he⟩
    · rintro (⟨r, hr, rfl⟩ | ⟨item, hi, rfl⟩)
      · obtain ⟨r', hr', hname, -⟩ := upsertRules_identity h hr
        exact ⟨r', hr', hname⟩
      · obtain ⟨r, hr, he⟩ := (hsettings item).2 (.inl hi)
        exact ⟨r, hr, congrArg RuleSettings.name he⟩
  · exact upsertRules_keeps h hr fun item hi he => absurd he (hr' item hi)
  · obtain ⟨r₁, hr₁, hname₁, hid, hcreated⟩ := upsertRules_identity h hr
    rw [t'.eq_of_name hr' hr₁ (hname.trans hname₁.symm)]
    exact ⟨hid, hcreated⟩
  · exact upsertRules_keeps h hr fun item hi he => item_unique hn hitem hi he

/-- An item that is stored already changes nothing. -/
theorem upsertRule_stored (item : RuleSettings M W) (id : Uuid) (now : ℤ)
    (h : ∃ r ∈ t.table.rows, portable r = item) : upsertRule item id now t = .ok t := by
  obtain ⟨r, hr, rfl⟩ := h
  obtain ⟨t', ht'⟩ : ∃ t', upsertRule (portable r) id now t = .ok t' := by
    have hmem : (portable r).name ∈ t.table.rows.map fun r => r.name := List.mem_map.2 ⟨r, hr, rfl⟩
    unfold upsertRule
    rw [if_pos hmem]
    exact StoredRules.update_of_names fun _ => rfl
  rw [ht']
  have hrows : t'.table.rows = t.table.rows := by
    rcases @upsertRule_ok M W _ _ (portable r) (fun _ => (id, now)) 0 _ _ ht' with ⟨hnew, -⟩ | ⟨-, hrows⟩
    · exact absurd rfl (hnew r hr)
    · rw [hrows]
      conv_rhs => rw [← List.map_id t.table.rows]
      refine List.map_congr_left fun r' hr' => if_neg ?_
      rintro ⟨hname, hne⟩
      exact hne (by rw [t.eq_of_name hr' hr hname])
  exact congrArg Except.ok (StoredRules.ext' (Table.ext hrows))

/-- **Items that are stored already change nothing.** -/
theorem upsertRules_stored (h : ∀ item ∈ items, ∃ r ∈ t.table.rows, portable r = item) (i : ℕ) :
    upsertRules stamp i items t = .ok t := by
  induction items generalizing i with
  | nil => rfl
  | cons item items ih =>
    rw [List.forall_mem_cons] at h
    exact bind_ok.2 ⟨t, upsertRule_stored item _ _ h.1, ih h.2 (i + 1)⟩

/-- **Merges of different names commute**, up to ids and times. -/
theorem upsertRules_comm {items' : List (RuleSettings M W)} {stamp₁ stamp₂ stamp₃ stamp₄ : ℕ → Uuid × ℤ}
    {t₁ t₂ t₃ t₄ : StoredRules M W} (hn : (items.map fun item => item.name).Nodup)
    (hn' : (items'.map fun item => item.name).Nodup)
    (hdisj : ∀ item ∈ items, ∀ item' ∈ items', item.name ≠ item'.name)
    (h₁ : upsertRules stamp₁ 0 items t = .ok t₁) (h₂ : upsertRules stamp₂ 0 items' t₁ = .ok t₂)
    (h₃ : upsertRules stamp₃ 0 items' t = .ok t₃) (h₄ : upsertRules stamp₄ 0 items t₃ = .ok t₄) :
    (t₂.table.rows.map portable).Perm (t₄.table.rows.map portable) := by
  rw [List.perm_ext_iff_of_nodup (portable_nodup t₂) (portable_nodup t₄)]
  intro x
  rw [mem_portable, mem_portable, upsertRules_settings hn' h₂, upsertRules_settings hn h₁,
    upsertRules_settings hn h₄, upsertRules_settings hn' h₃]
  have hx : x ∈ items → ∀ item' ∈ items', x.name ≠ item'.name := hdisj x
  have hx' : x ∈ items' → ∀ item ∈ items, x.name ≠ item.name :=
    fun h item hi he => hdisj item hi x h he.symm
  tauto

/-- **A replacement stores exactly the items.** -/
theorem importRules_replaces (hn : (items.map fun item => item.name).Nodup)
    (h : importRules items true stamp t = .ok t') : (t'.table.rows.map portable).Perm items := by
  rw [importRules, if_pos rfl] at h
  have hempty : (t.delete fun _ => true).table.rows = [] := by
    change t.table.rows.filter (fun r => !true) = []
    simp
  rw [List.perm_ext_iff_of_nodup (portable_nodup t') (List.Nodup.of_map _ hn)]
  intro x
  rw [mem_portable, upsertRules_settings hn h, hempty]
  simp

end

end

/-! ## Columns -/

/-- `json.Marshal` and `json.Unmarshal`, of matchers and webhooks. -/
structure RuleCodec where
  marshalMatch : MatcherConfig → String
  marshalWebhook : WebhookConfig → String
  unmarshalMatch : String → Option MatcherConfig
  unmarshalWebhook : String → Option WebhookConfig

/-- A row with the texts in its columns. -/
abbrev RuleRow := StoredRule String String

abbrev RuleRows := StoredRules String String

namespace RuleCodec

variable (c : RuleCodec)

/-- What `ImportRules` writes for an item. -/
def columns (item : TransferRule) : RuleSettings String String :=
  ⟨item.name, item.enabled, item.position, c.marshalMatch item.«match», c.marshalWebhook item.webhook⟩

/-- The settings that are read from the columns. -/
def settings (x : RuleSettings String String) : Option TransferRule := do
  let m ← c.unmarshalMatch x.«match»
  let w ← c.unmarshalWebhook x.webhook
  return ⟨x.name, x.enabled, x.position, m, w⟩

/-- `scanRule` -/
def scanRule (r : RuleRow) : Option RuleRecord := do
  let m ← c.unmarshalMatch r.«match»
  let w ← c.unmarshalWebhook r.webhook
  return ⟨r.id, r.name, r.enabled, m, w, r.position, r.createdAt, r.updatedAt⟩

/-- The texts of the item are read as they were written. -/
def Reads (item : TransferRule) : Prop := c.settings (c.columns item) = some item

end RuleCodec

section
variable {c : RuleCodec}

theorem scanRule_portable (r : RuleRow) : (c.scanRule r).map portable = c.settings (portable r) := by
  unfold RuleCodec.scanRule RuleCodec.settings portable
  cases c.unmarshalMatch r.«match» with
  | none => rfl
  | some m =>
    cases c.unmarshalWebhook r.webhook with
    | none => rfl
    | some w => rfl

/-- The name is a column of its own. -/
theorem settings_name {x : RuleSettings String String} {item : TransferRule}
    (h : c.settings x = some item) : item.name = x.name := by
  obtain ⟨m, -, h⟩ := Option.bind_eq_some_iff.1 h
  obtain ⟨w, -, h⟩ := Option.bind_eq_some_iff.1 h
  exact (congrArg RuleSettings.name (Option.some.inj h)).symm

theorem columns_names (items : List TransferRule) :
    (items.map c.columns).map (fun x => x.name) = items.map fun item => item.name := by
  rw [List.map_map]
  rfl

/-! ## Values -/

/-- The row is read as the record, but for the time of its last change. -/
def RowShows (c : RuleCodec) (r : RuleRow) (v : RuleRecord) : Prop :=
  c.scanRule r = some { v with updatedAt := r.updatedAt }

theorem RowShows.settings {r : RuleRow} {v : RuleRecord} (h : RowShows c r v) :
    c.settings (portable r) = some (portable v) := by
  rw [← scanRule_portable, h]
  rfl

theorem shows_iff {r : RuleRow} {v : RuleRecord} :
    RowShows c r v ↔ r.id = v.id ∧ r.createdAt = v.createdAt ∧
      c.settings (portable r) = some (portable v) := by
  cases v
  unfold RowShows RuleCodec.scanRule RuleCodec.settings portable
  cases c.unmarshalMatch r.«match» with
  | none => simp
  | some m =>
    cases c.unmarshalWebhook r.webhook with
    | none => simp
    | some w =>
      simp only [Option.bind_eq_bind, Option.bind_some, Option.pure_def, Option.some.injEq,
        StoredRule.mk.injEq, RuleSettings.mk.injEq]
      tauto

theorem RowShows.name {r : RuleRow} {v : RuleRecord} (h : RowShows c r v) : v.name = r.name :=
  settings_name h.settings

theorem shows_names {rows : List RuleRow} {records : List RuleRecord}
    (h : List.Forall₂ (RowShows c) rows records) :
    rows.map (fun r => r.name) = records.map fun v => v.name := by
  induction h with
  | nil => rfl
  | cons hrow _ ih => rw [List.map_cons, List.map_cons, hrow.name, ih]

/-- An item does the same to a row and to the record it shows, but for the time
    of the change. -/
theorem RowShows.merged {r : RuleRow} {v : RuleRecord} {item : TransferRule} (h : RowShows c r v)
    (hread : c.Reads item) (now : ℤ) :
    RowShows c
      (if r.name = item.name ∧ portable r ≠ c.columns item then mergedRow (c.columns item) now r else r)
      (if v.name = item.name ∧ portable v ≠ item then mergedRow item now v else v) := by
  obtain ⟨hid, hcreated, hsettings⟩ := shows_iff.1 h
  have hname := h.name
  by_cases hn : r.name = item.name
  · have hitem : v.name = item.name := hname.trans hn
    have hnew : c.settings (portable (mergedRow (c.columns item) now r)) = some item := by
      rw [portable_mergedRow (show r.name = (c.columns item).name from hn)]
      exact hread
    by_cases hv : portable v = item
    · rw [if_neg (show ¬(v.name = item.name ∧ portable v ≠ item) from fun hc => hc.2 hv)]
      split_ifs
      · exact shows_iff.2 ⟨hid, hcreated, by rw [hnew, hv]⟩
      · exact h
    · -- other values have other texts
      have hr : portable r ≠ c.columns item := by
        intro hr
        rw [hr, hread, Option.some.injEq] at hsettings
        exact hv hsettings.symm
      rw [if_pos ⟨hn, hr⟩, if_pos ⟨hitem, hv⟩]
      refine shows_iff.2 ⟨hid, hcreated, ?_⟩
      rw [hnew, portable_mergedRow hitem]
  · rw [if_neg fun hc => hn hc.1, if_neg fun hc => hn (hname.symm.trans hc.1)]
    exact h

theorem upsertRule_shows {item : TransferRule} {stamp : ℕ → Uuid × ℤ} {i : ℕ} {t t' : RuleRows}
    {u u' : RulesTable} (h : List.Forall₂ (RowShows c) t.table.rows u.table.rows) (hread : c.Reads item)
    (ht : upsertRule (c.columns item) (stamp i).1 (stamp i).2 t = .ok t')
    (hu : upsertRule item (stamp i).1 (stamp i).2 u = .ok u') :
    List.Forall₂ (RowShows c) t'.table.rows u'.table.rows := by
  have hmem : (∃ r ∈ t.table.rows, r.name = item.name) ↔ ∃ v ∈ u.table.rows, v.name = item.name := by
    rw [← List.mem_map, shows_names h, List.mem_map]
  rcases upsertRule_ok ht with ⟨hnew, hrows⟩ | ⟨hold, hrows⟩
  · rcases upsertRule_ok hu with ⟨-, hrows'⟩ | ⟨hold', -⟩
    · rw [hrows, hrows']
      refine List.rel_append h (.cons (shows_iff.2 ⟨rfl, rfl, hread⟩) .nil)
    · obtain ⟨r, hr, he⟩ := hmem.2 hold'
      exact absurd he (hnew r hr)
  · rcases upsertRule_ok hu with ⟨hnew', -⟩ | ⟨-, hrows'⟩
    · obtain ⟨v, hv, he⟩ := hmem.1 hold
      exact absurd he (hnew' v hv)
    · rw [hrows, hrows', List.forall₂_map_left_iff, List.forall₂_map_right_iff]
      exact h.imp fun r v hrow => hrow.merged hread (stamp i).2

theorem upsertRules_shows {items : List TransferRule} {stamp : ℕ → Uuid × ℤ} {i : ℕ} {t t' : RuleRows}
    {u u' : RulesTable} (h : List.Forall₂ (RowShows c) t.table.rows u.table.rows)
    (hread : ∀ item ∈ items, c.Reads item) (ht : upsertRules stamp i (items.map c.columns) t = .ok t')
    (hu : upsertRules stamp i items u = .ok u') :
    List.Forall₂ (RowShows c) t'.table.rows u'.table.rows := by
  induction items generalizing i t u with
  | nil =>
    cases ht
    cases hu
    exact h
  | cons item items ih =>
    rw [List.forall_mem_cons] at hread
    obtain ⟨t₁, ht₁, ht⟩ := bind_ok.1 ht
    obtain ⟨u₁, hu₁, hu⟩ := bind_ok.1 hu
    exact ih (upsertRule_shows h hread.1 ht₁ hu₁) hread.2 ht hu

/-- **An import of texts, read back, is the import of the values**, but for the
    times of the changes. -/
theorem importRules_shows {items : List TransferRule} {replace : Bool} {stamp : ℕ → Uuid × ℤ}
    {t t' : RuleRows} {u u' : RulesTable} (h : List.Forall₂ (RowShows c) t.table.rows u.table.rows)
    (hread : ∀ item ∈ items, c.Reads item) (ht : importRules (items.map c.columns) replace stamp t = .ok t')
    (hu : importRules items replace stamp u = .ok u') :
    List.Forall₂ (RowShows c) t'.table.rows u'.table.rows := by
  refine upsertRules_shows ?_ hread ht hu
  cases replace with
  | false => exact h
  | true =>
    have hempty {M W : Type} (t : StoredRules M W) : (t.delete fun _ => true).table.rows = [] := by
      change t.table.rows.filter (fun _ => !true) = []
      simp
    rw [if_pos rfl, if_pos rfl, hempty, hempty]
    exact .nil

/-! ## Imports -/

/-- What a merge of the items makes of the stored rules, as they are read. -/
structure MergedByName (c : RuleCodec) (items : List TransferRule) (t t' : RuleRows) : Prop where
  names : ∀ name, (∃ r ∈ t'.table.rows, r.name = name) ↔
    (∃ r ∈ t.table.rows, r.name = name) ∨ ∃ item ∈ items, item.name = name
  carried : ∀ item ∈ items, ∃ r ∈ t'.table.rows, (c.scanRule r).map portable = some item
  unnamed : ∀ r ∈ t.table.rows, (∀ item ∈ items, r.name ≠ item.name) → r ∈ t'.table.rows
  identity : ∀ r ∈ t.table.rows, ∃ r' ∈ t'.table.rows,
    r'.name = r.name ∧ r'.id = r.id ∧ r'.createdAt = r.createdAt
  /-- a rule that is read as an item of its own keeps `updated_at` -/
  equal : ∀ r ∈ t.table.rows, ∀ item ∈ items, (c.scanRule r).map portable = some item →
    ∃ r' ∈ t'.table.rows, r'.name = r.name ∧ r'.updatedAt = r.updatedAt

/-- **Imports are merges by name**: idempotent, commuting for different names,
    and all or nothing. -/
structure UpsertsByName (c : RuleCodec) (items : List TransferRule) (stamp : ℕ → Uuid × ℤ) (t : RuleRows) :
    Prop where
  merge : ∀ fuse t', importRulesTx (items.map c.columns) false stamp fuse t = (.ok (), t') →
    MergedByName c items t t'
  again : ∀ fuse t', importRulesTx (items.map c.columns) false stamp fuse t = (.ok (), t') →
    ∀ stamp' fuse', (importRulesTx (items.map c.columns) false stamp' fuse' t').2 = t'
  commutes : ∀ fuse t', importRulesTx (items.map c.columns) false stamp fuse t = (.ok (), t') →
    ∀ (items' : List TransferRule) stamp₂ fuse₂ t₂ stamp₃ fuse₃ t₃ stamp₄ fuse₄ t₄,
      (items'.map fun item => item.name).Nodup →
      (∀ item ∈ items, ∀ item' ∈ items', item.name ≠ item'.name) →
      importRulesTx (items'.map c.columns) false stamp₂ fuse₂ t' = (.ok (), t₂) →
      importRulesTx (items'.map c.columns) false stamp₃ fuse₃ t = (.ok (), t₃) →
      importRulesTx (items.map c.columns) false stamp₄ fuse₄ t₃ = (.ok (), t₄) →
      (t₂.table.rows.map portable).Perm (t₄.table.rows.map portable)
  replaces : ∀ fuse t', importRulesTx (items.map c.columns) true stamp fuse t = (.ok (), t') →
    (t'.table.rows.map fun r => (c.scanRule r).map portable).Perm (items.map some)
  fails : ∀ replace fuse e t',
    importRulesTx (items.map c.columns) replace stamp fuse t = (.error e, t') → t' = t

/-- A rule that is read as an item is stored with the texts of that item. -/
def WrittenAlike (c : RuleCodec) (items : List TransferRule) (t : RuleRows) : Prop :=
  ∀ r ∈ t.table.rows, ∀ item ∈ items, (c.scanRule r).map portable = some item → portable r = c.columns item

section
variable {items : List TransferRule} {stamp : ℕ → Uuid × ℤ} {t t' : RuleRows}

theorem columns_nodup (hn : (items.map fun item => item.name).Nodup) :
    ((items.map c.columns).map fun x => x.name).Nodup := by
  rw [columns_names]
  exact hn

theorem scanRule_of_columns {r : RuleRow} {item : TransferRule} (hread : c.Reads item)
    (h : portable r = c.columns item) : (c.scanRule r).map portable = some item := by
  rw [scanRule_portable, h]
  exact hread

/-- A merge, without the times of rules that stay. -/
theorem mergedByName (hn : (items.map fun item => item.name).Nodup) (hread : ∀ item ∈ items, c.Reads item)
    (hwritten : WrittenAlike c items t) (h : importRules (items.map c.columns) false stamp t = .ok t') :
    MergedByName c items t t' := by
  have hm : Merged (items.map c.columns) t t' := upsertRules_merged (columns_nodup hn) h
  refine ⟨fun name => ?_, fun item hi => ?_, fun r hr hne => hm.unnamed r hr fun x hx => ?_, fun r hr => ?_,
    fun r hr item hi hitem => ?_⟩
  · rw [hm.names]
    refine or_congr_right ?_
    constructor
    · rintro ⟨x, hx, rfl⟩
      obtain ⟨item, hi, rfl⟩ := List.mem_map.1 hx
      exact ⟨item, hi, rfl⟩
    · rintro ⟨item, hi, rfl⟩
      exact ⟨c.columns item, List.mem_map_of_mem hi, rfl⟩
  · obtain ⟨r, hr, he⟩ := hm.stored _ (List.mem_map_of_mem hi)
    exact ⟨r, hr, scanRule_of_columns (hread item hi) he⟩
  · obtain ⟨item, hi, rfl⟩ := List.mem_map.1 hx
    exact hne item hi
  · obtain ⟨r', hr', hname⟩ := (hm.names r.name).2 (.inl ⟨r, hr, rfl⟩)
    exact ⟨r', hr', hname, hm.identity r hr r' hr' hname⟩
  · have hsame : portable r ∈ items.map c.columns := by
      rw [hwritten r hr item hi hitem]
      exact List.mem_map_of_mem hi
    exact ⟨r, hm.equal r hr hsame, rfl, rfl⟩

/-- A rule with other texts than its item gets the time of the import. -/
theorem upsertRules_touches {items : List (RuleSettings String String)} {i : ℕ} {t t' : RuleRows}
    (hn : (items.map fun x => x.name).Nodup) (h : upsertRules stamp i items t = .ok t') {r : RuleRow}
    (hr : r ∈ t.table.rows) {x : RuleSettings String String} (hx : x ∈ items) (hname : r.name = x.name)
    (hne : portable r ≠ x) : ∃ r' ∈ t'.table.rows, r'.name = r.name ∧ ∃ j, r'.updatedAt = (stamp j).2 := by
  induction items generalizing i t with
  | nil => cases hx
  | cons y items ih =>
    obtain ⟨t₁, h₁, h₂⟩ := bind_ok.1 h
    obtain ⟨hy, hn⟩ := List.nodup_cons.1 hn
    rcases List.mem_cons.1 hx with rfl | hx
    · rcases upsertRule_ok h₁ with ⟨hnew, -⟩ | ⟨-, hrows⟩
      · exact absurd hname (hnew r hr)
      · refine ⟨mergedRow x (stamp i).2 r, upsertRules_keeps h₂ ?_ fun item hi he => ?_, rfl, i, rfl⟩
        · rw [hrows]
          exact List.mem_map.2 ⟨r, hr, if_pos ⟨hname, hne⟩⟩
        · exact absurd (List.mem_map.2 ⟨item, hi, he.symm.trans hname⟩) hy
    · refine ih hn h₂ (upsertRule_keeps h₁ hr fun he => ?_) hx
      exact absurd (List.mem_map.2 ⟨x, hx, hname.symm.trans he⟩) hy

end

/-- **Imports are merges by name exactly when rules that are read as an item
    are stored with its texts.**  The ids are new and the clock has moved on. -/
theorem import_upserts_iff {items : List TransferRule} (hn : (items.map fun item => item.name).Nodup)
    (hread : ∀ item ∈ items, c.Reads item) {stamp : ℕ → Uuid × ℤ}
    (hids : ∀ i j, (stamp i).1 = (stamp j).1 → i = j) {t : RuleRows}
    (hfresh : ∀ r ∈ t.table.rows, ∀ j, r.id ≠ (stamp j).1)
    (hclock : ∀ r ∈ t.table.rows, ∀ j, r.updatedAt ≠ (stamp j).2) :
    UpsertsByName c items stamp t ↔ WrittenAlike c items t := by
  have hn' := columns_nodup (c := c) hn
  constructor
  · intro hu r hr item hi hitem
    by_contra hne
    obtain ⟨t', ht'⟩ := importRulesTx_total (items.map c.columns) false hids hfresh
    obtain ⟨r', hr', hname', hupdated⟩ := (hu.merge none t' ht').equal r hr item hi hitem
    have hname : r.name = (c.columns item).name := by
      rw [scanRule_portable] at hitem
      exact (settings_name hitem).symm
    obtain ⟨r'', hr'', hname'', j, htime⟩ := upsertRules_touches hn' (importRulesTx_ok ht') hr
      (List.mem_map_of_mem hi) hname hne
    rw [t'.eq_of_name hr' hr'' (hname'.trans hname''.symm), htime] at hupdated
    exact hclock r hr j hupdated.symm
  · intro hwritten
    refine ⟨fun fuse t' h => mergedByName hn hread hwritten (importRulesTx_ok h), ?_, ?_,
      fun fuse t' h => ?_, fun replace fuse e t' h => importRulesTx_error h⟩
    · intro fuse t' h stamp' fuse'
      have hstored := (upsertRules_merged hn' (importRulesTx_ok h)).stored
      rcases hagain : importRulesTx (items.map c.columns) false stamp' fuse' t' with ⟨e | u, t''⟩
      · exact importRulesTx_error hagain
      · have hsame : importRules (items.map c.columns) false stamp' t' = .ok t' :=
          upsertRules_stored hstored 0
        rw [importRulesTx_ok hagain] at hsame
        cases hsame
        rfl
    · intro fuse t' h items' stamp₂ fuse₂ t₂ stamp₃ fuse₃ t₃ stamp₄ fuse₄ t₄ hn₂ hdisj h₂ h₃ h₄
      refine upsertRules_comm hn' (columns_nodup hn₂) (fun x hx x' hx' => ?_) (importRulesTx_ok h)
        (importRulesTx_ok h₂) (importRulesTx_ok h₃) (importRulesTx_ok h₄)
      obtain ⟨item, hi, rfl⟩ := List.mem_map.1 hx
      obtain ⟨item', hi', rfl⟩ := List.mem_map.1 hx'
      exact hdisj item hi item' hi'
    · have hperm := (importRules_replaces hn' (importRulesTx_ok h)).map c.settings
      have hitems : items.map (c.settings ∘ c.columns) = items.map some := List.map_congr_left hread
      rw [List.map_map, List.map_map, hitems] at hperm
      refine List.Perm.trans (List.Perm.of_eq ?_) hperm
      exact List.map_congr_left fun r _ => scanRule_portable r

end

/-- The columns of a rule with one pattern. -/
def cafeMatchText (pattern : String) : String :=
  "\x7b\"conditions\":[\x7b\"field\":\"subject\",\"pattern\":\"" ++ pattern ++ "\"\x7d]\x7d"

def mailHookText : String := "\x7b\"url\":\"https://hooks.example/mail\",\"method\":\"POST\"\x7d"

def cafeMatch : MatcherConfig := ⟨"", [⟨"subject", "caf\ufffd*", ""⟩]⟩

def mailHook : WebhookConfig :=
  ⟨"", "https://hooks.example/mail", "POST", [], "", none, none, none, none, none⟩

/-- `encoding/json`, on two matchers and a webhook. -/
def cafeCodec : RuleCodec where
  marshalMatch m := if m = cafeMatch then cafeMatchText "caf\ufffd*" else "\x7b\x7d"
  marshalWebhook _ := mailHookText
  unmarshalMatch s :=
    if s = cafeMatchText "caf\ufffd*" ∨ s = cafeMatchText "caf\\ufffd*" then some cafeMatch
    else if s = "\x7b\x7d" then some ⟨"", []⟩
    else none
  unmarshalWebhook s := if s = mailHookText then some mailHook else none

def cafeItem : TransferRule := ⟨"archive", true, 4, cafeMatch, mailHook⟩

def storedSample : RuleRows :=
  ⟨⟨[⟨1, "alerts", true, "\x7b\x7d", mailHookText, 3, 100, 100⟩,
      ⟨2, "archive", true, cafeMatchText "caf\ufffd*", mailHookText, 4, 101, 101⟩,
      ⟨3, "other", false, "\x7b\x7d", mailHookText, 5, 102, 102⟩], by decide⟩, by decide⟩

/-- One rule is changed, one is as it is stored, and one is new. -/
def mergedItems : List TransferRule :=
  [⟨"alerts", false, 3, ⟨"", []⟩, mailHook⟩, cafeItem, ⟨"bills", true, 6, ⟨"", []⟩, mailHook⟩]

theorem import_upserts_iff_merge :
    UpsertsByName cafeCodec mergedItems (fun i => (10 + i, 200 + i)) storedSample ∧
    (importRulesTx (mergedItems.map cafeCodec.columns) false (fun i => (10 + i, 200 + i)) none
        storedSample).2.table.rows.map
      (fun r => (r.id, r.name, r.enabled, r.updatedAt)) =
      [(1, "alerts", false, 200), (2, "archive", true, 101), (3, "other", false, 102),
        (12, "bills", true, 202)] := by
  have hread : ∀ item ∈ mergedItems, cafeCodec.Reads item := by
    simp only [mergedItems, RuleCodec.Reads, List.forall_mem_cons]
    exact ⟨by decide +kernel, by decide +kernel, by decide +kernel, nofun⟩
  have hrows : ∀ r ∈ storedSample.table.rows, r.id < 10 ∧ r.updatedAt < 200 := by decide +kernel
  have hwritten : WrittenAlike cafeCodec mergedItems storedSample := by
    unfold WrittenAlike
    decide +kernel
  refine ⟨(import_upserts_iff (by decide +kernel) hread (fun i j hij => ?_) (fun r hr j hid => ?_)
    fun r hr j htime => ?_).2 hwritten, by decide +kernel⟩
  · exact Nat.add_left_cancel hij
  · have hlt := (hrows r hr).1
    rw [hid] at hlt
    exact absurd hlt (Nat.not_lt.2 (Nat.le_add_right 10 j))
  · have hlt := (hrows r hr).2
    have hge : (200 : ℤ) ≤ 200 + j := by omega
    rw [htime] at hlt
    exact absurd hlt (not_lt.2 hge)

/-- A rule whose pattern was typed with the byte 0xFF, which is stored as an
    escape. -/
def escapedSample : RuleRows :=
  ⟨⟨[⟨2, "archive", true, cafeMatchText "caf\\ufffd*", mailHookText, 4, 101, 101⟩], List.nodup_singleton _⟩,
    List.nodup_singleton _⟩

/-- Its own export, merged again, gives it a new `updated_at`. -/
theorem escaped_rule_touched : (escapedSample.table.rows.map fun r => (cafeCodec.scanRule r).map portable) =
      [some cafeItem] ∧
    ¬UpsertsByName cafeCodec [cafeItem] (fun i => (10 + i, 200 + i)) escapedSample := by
  refine ⟨by decide +kernel, fun h => ?_⟩
  have hmerged := h.merge none _ rfl
  have hkept := hmerged.equal ⟨2, "archive", true, cafeMatchText "caf\\ufffd*", mailHookText, 4, 101, 101⟩
    (List.mem_singleton_self _) cafeItem (List.mem_singleton_self _) (by decide +kernel)
  revert hkept
  decide +kernel

end Mailrelay
