/-
  The `rules` table and its operations (`internal/storage/store.go`,
  `internal/storage/rules_transfer.go`).

  A table in this type has distinct ids (its primary key) and distinct names
  (`UNIQUE`).  Its columns for matchers and webhooks hold JSON texts; most of the
  model looks at them as the values that are read from them (`RulesTable`).  The
  order of `ListEnabledRules` is stable: rows that the `ORDER BY` leaves equal
  keep their rowid order.
-/
import Mathlib.Data.List.Sort
import Mailrelay.Storage.Db

namespace Mailrelay

open Lib

instance {M W : Type} : Keyed (StoredRule M W) Uuid := ⟨fun r => r.id⟩

structure StoredRules (M W : Type) where
  table : Table (StoredRule M W)
  names : (table.rows.map fun r => r.name).Nodup

/-- The table with the values of its columns. -/
abbrev RulesTable := StoredRules MatcherConfig WebhookConfig

namespace StoredRules

variable {M W : Type}

theorem ext' {t t' : StoredRules M W} (h : t.table = t'.table) : t = t' := by
  cases t; cases t'; simp_all

def empty : StoredRules M W := ⟨.empty, List.nodup_nil⟩

/-! ## Statements -/

/-- `INSERT INTO rules` -/
def insert (r : StoredRule M W) (t : StoredRules M W) : Except DbError (StoredRules M W) :=
  match t.table.insert? r with
  | none => .error .unique
  | some table =>
    if h : (table.rows.map fun r => r.name).Nodup then .ok ⟨table, h⟩ else .error .unique

/-- `UPDATE rules SET … WHERE …`, refused when two rows would have one name. -/
def update (p : StoredRule M W → Bool) (f : StoredRule M W → StoredRule M W) (hf : ∀ r, (f r).id = r.id)
    (t : StoredRules M W) : Except DbError (StoredRules M W) :=
  if h : ((t.table.update p f hf).rows.map fun r => r.name).Nodup then .ok ⟨t.table.update p f hf, h⟩
  else .error .unique

/-- `DELETE FROM rules WHERE …` -/
def delete (p : StoredRule M W → Bool) (t : StoredRules M W) : StoredRules M W :=
  ⟨t.table.delete p, (List.filter_sublist.map _).nodup t.names⟩

end StoredRules

/-! ## Operations -/

/-- `SaveRule`, of a rule with a new id. -/
def saveRule (rule : RuleRecord) (id : Uuid) (now : ℤ) (t : RulesTable) : Except DbError RulesTable :=
  t.insert { rule with id := id, createdAt := now, updatedAt := now }

def updateRule (rule : RuleRecord) (now : ℤ) (t : RulesTable) : Except DbError RulesTable :=
  t.update (fun r => r.id == rule.id)
    (fun r => { r with
      name := rule.name, enabled := rule.enabled, «match» := rule.«match», webhook := rule.webhook
      position := rule.position, updatedAt := now }) fun _ => rfl

def getRule (id : Uuid) (t : RulesTable) : Option RuleRecord := t.table.get? id

/-- `ORDER BY position DESC, created_at DESC` -/
def listRules (t : RulesTable) : List RuleRecord :=
  t.table.rows.insertionSort fun a b =>
    b.position < a.position ∨ (a.position = b.position ∧ b.createdAt ≤ a.createdAt)

/-- `WHERE enabled = 1 ORDER BY position, created_at` -/
def listEnabledRules (t : RulesTable) : List RuleRecord :=
  (t.table.rows.filter fun r => r.enabled).insertionSort fun a b =>
    a.position < b.position ∨ (a.position = b.position ∧ a.createdAt ≤ b.createdAt)

def deleteRule (id : Uuid) (t : RulesTable) : RulesTable := t.delete fun r => r.id == id

def nextRulePosition (t : RulesTable) : ℤ :=
  match (t.table.rows.map fun r => r.position).max? with
  | none => 0
  | some pos => wrap64 (pos + 1)

section
variable {M W : Type} [DecidableEq M] [DecidableEq W]

/-- `INSERT … ON CONFLICT(name) DO UPDATE … WHERE …` of `ImportRules`, which
    compares what the columns hold. -/
def upsertRule (item : RuleSettings M W) (id : Uuid) (now : ℤ) (t : StoredRules M W) :
    Except DbError (StoredRules M W) :=
  if item.name ∈ t.table.rows.map fun r => r.name then
    t.update
      (fun r => r.name == item.name && (r.enabled != item.enabled || r.«match» != item.«match» ||
        r.webhook != item.webhook || r.position != item.position))
      (fun r => { r with
        enabled := item.enabled, «match» := item.«match», webhook := item.webhook
        position := item.position, updatedAt := now }) fun _ => rfl
  else t.insert ⟨id, item.name, item.enabled, item.«match», item.webhook, item.position, now, now⟩

/-- The loop over the items, each with a fresh id and the time of its turn. -/
def upsertRules (stamp : ℕ → Uuid × ℤ) (i : ℕ) :
    List (RuleSettings M W) → StoredRules M W → Except DbError (StoredRules M W)
  | [], t => .ok t
  | item :: items, t => do
    let t ← upsertRule item (stamp i).1 (stamp i).2 t
    upsertRules stamp (i + 1) items t

/-- `ImportRules`: one transaction, all or nothing. -/
def importRules (items : List (RuleSettings M W)) (replace : Bool) (stamp : ℕ → Uuid × ℤ)
    (t : StoredRules M W) : Except DbError (StoredRules M W) :=
  upsertRules stamp 0 items (if replace then t.delete fun _ => true else t)

end

/-! ## Facts -/

theorem StoredRules.eq_of_name {M W : Type} (t : StoredRules M W) {r r' : StoredRule M W}
    (h : r ∈ t.table.rows) (h' : r' ∈ t.table.rows) (hn : r.name = r'.name) : r = r' :=
  List.inj_on_of_nodup_map t.names h h' hn

theorem StoredRules.rows_nodup {M W : Type} (t : StoredRules M W) : t.table.rows.Nodup :=
  List.Nodup.of_map _ t.names

theorem mem_listEnabledRules {t : RulesTable} {r : RuleRecord} :
    r ∈ listEnabledRules t ↔ r ∈ t.table.rows ∧ r.enabled = true := by
  unfold listEnabledRules
  rw [List.mem_insertionSort, List.mem_filter]

theorem perm_listRules (t : RulesTable) : (listRules t).Perm t.table.rows := List.perm_insertionSort _ _

theorem nextRulePosition_of_max {t : RulesTable} {r : RuleRecord} (hr : r ∈ t.table.rows)
    (hle : ∀ r' ∈ t.table.rows, r'.position ≤ r.position) :
    nextRulePosition t = wrap64 (r.position + 1) := by
  have hmax : (t.table.rows.map fun r => r.position).max? = some r.position := by
    refine List.max?_eq_some_iff.2 ⟨List.mem_map_of_mem hr, fun pos hpos => ?_⟩
    obtain ⟨r', hr', rfl⟩ := List.mem_map.1 hpos
    exact hle r' hr'
  unfold nextRulePosition
  rw [hmax]

/-- The next position is the first one, or comes after the greatest one. -/
theorem nextRulePosition_cases (t : RulesTable) :
    (t.table.rows = [] ∧ nextRulePosition t = 0) ∨
      ∃ r ∈ t.table.rows, (∀ r' ∈ t.table.rows, r'.position ≤ r.position) ∧
        nextRulePosition t = wrap64 (r.position + 1) := by
  cases hmax : (t.table.rows.map fun r => r.position).max? with
  | none =>
    have hempty : t.table.rows = [] := by simpa using hmax
    exact .inl ⟨hempty, by simp [nextRulePosition, hempty]⟩
  | some pos =>
    obtain ⟨hpos, hle⟩ := List.max?_eq_some_iff.1 hmax
    obtain ⟨r, hr, rfl⟩ := List.mem_map.1 hpos
    have hle' : ∀ r' ∈ t.table.rows, r'.position ≤ r.position := fun r' hr' =>
      hle _ (List.mem_map_of_mem hr')
    exact .inr ⟨r, hr, hle', nextRulePosition_of_max hr hle'⟩

end Mailrelay
