/-
  Export and restore of the rules (`ListRules` and `ImportRules`).

  A backup lists the rules with the greatest position first, and of one
  position the newest first; an import creates them in that order.  The engine
  runs them with the least position first, and of one position the oldest
  first.  So a restore turns around the rules that share a position.

  * `importRules_replace`: what a restore stores;
  * `listEnabledRules_restore`: the order in which the engine then runs it;
  * `restore_keeps_order_iff`: the main result.
-/
import Mailrelay.Lib.Sort
import Mailrelay.Storage.Import

namespace Mailrelay

open Lib

/-! ## The two orders -/

/-- `ORDER BY position, created_at` -/
def engineOrder (a b : RuleRecord) : Prop :=
  a.position < b.position ∨ (a.position = b.position ∧ a.createdAt ≤ b.createdAt)

/-- `ORDER BY position DESC, created_at DESC` -/
def listOrder (a b : RuleRecord) : Prop :=
  b.position < a.position ∨ (a.position = b.position ∧ b.createdAt ≤ a.createdAt)

instance : DecidableRel engineOrder := fun _ _ => inferInstanceAs (Decidable (_ ∨ _))

instance : DecidableRel listOrder := fun _ _ => inferInstanceAs (Decidable (_ ∨ _))

instance : Std.Total engineOrder := ⟨fun a b => by unfold engineOrder; omega⟩

instance : IsTrans RuleRecord engineOrder := ⟨fun a b c h₁ h₂ => by unfold engineOrder at *; omega⟩

instance : Std.Total listOrder := ⟨fun a b => by unfold listOrder; omega⟩

instance : IsTrans RuleRecord listOrder := ⟨fun a b c h₁ h₂ => by unfold listOrder at *; omega⟩

theorem listEnabledRules_eq (t : RulesTable) :
    listEnabledRules t = (t.table.rows.filter fun r => r.enabled).insertionSort engineOrder := rfl

theorem listRules_eq (t : RulesTable) : listRules t = t.table.rows.insertionSort listOrder := rfl

/-! ## What a restore stores -/

/-- The rules of a backup: `Portable` of what `ListRules` returns. -/
def backup (t : RulesTable) : List TransferRule := (listRules t).map portable

/-- The row that a restore stores for the `i`th rule of the backup. -/
def restoredRow (stamp : ℕ → Uuid × ℤ) (p : RuleRecord × ℕ) : RuleRecord :=
  importedRow stamp (portable p.1) p.2

/-- What the engine sees of a rule. -/
def engineView (r : RuleRecord) : String × MatcherConfig × WebhookConfig × ℤ :=
  (r.name, r.«match», r.webhook, r.position)

section
variable (t : RulesTable)

theorem listRules_nodup : (listRules t).Nodup := (perm_listRules t).nodup_iff.2 t.rows_nodup

theorem backup_names : ((backup t).map fun item => item.name).Nodup := by
  have hmap : (backup t).map (fun item => item.name) = (listRules t).map fun r => r.name := by
    unfold backup
    rw [List.map_map]
    rfl
  rw [hmap]
  exact ((perm_listRules t).map _).nodup_iff.2 t.names

variable {stamp : ℕ → Uuid × ℤ} (hids : ∀ i j, (stamp i).1 = (stamp j).1 → i = j)
include hids

/-- **What a restore stores**: the rules of the backup, in its order. -/
theorem importRules_replace : ∃ t', importRules (backup t) true stamp t = .ok t' ∧
    t'.table.rows = (listRules t).zipIdx.map (restoredRow stamp) := by
  have hempty : (t.delete fun _ => true).table.rows = [] := by
    simp [StoredRules.delete, Table.delete]
  obtain ⟨t', h, hrows⟩ := upsertRules_new hids (backup t) 0 (t.delete fun _ => true) (backup_names t)
    (fun item _ r hr => by rw [hempty] at hr; cases hr) (fun r hr => by rw [hempty] at hr; cases hr)
  refine ⟨t', h, ?_⟩
  rw [hrows, hempty, List.nil_append]
  unfold backup
  rw [List.zipIdx_map, List.map_map]
  rfl

end

/-! ## The order after a restore -/

section
variable (t : RulesTable) (stamp : ℕ → Uuid × ℤ)

/-- The rules that run after a restore, as the rows they were restored from. -/
def restoredOrder : List RuleRecord :=
  (((listRules t).zipIdx.filter fun p => p.1.enabled).insertionSort fun p q =>
    engineOrder (restoredRow stamp p) (restoredRow stamp q)).map Prod.fst

theorem listEnabledRules_restore {t' : RulesTable}
    (hrows : t'.table.rows = (listRules t).zipIdx.map (restoredRow stamp)) :
    (listEnabledRules t').map engineView = (restoredOrder t stamp).map engineView := by
  rw [listEnabledRules_eq, hrows, List.filter_map]
  unfold restoredOrder
  rw [List.map_map]
  rw [← List.map_insertionSort (r := fun p q => engineOrder (restoredRow stamp p) (restoredRow stamp q))
    _ _ _ fun _ _ _ _ => Iff.rfl, List.map_map]
  rfl

theorem perm_restoredOrder : (restoredOrder t stamp).Perm (listEnabledRules t) := by
  have h₁ : (restoredOrder t stamp).Perm ((listRules t).filter fun r => r.enabled) := by
    unfold restoredOrder
    refine ((List.perm_insertionSort _ _).map _).trans ?_
    have := List.filter_map (f := Prod.fst) (p := fun r : RuleRecord => r.enabled)
      (l := (listRules t).zipIdx)
    rw [List.zipIdx_map_fst] at this
    rw [this]
    rfl
  refine h₁.trans (((perm_listRules t).filter _).trans ?_)
  rw [listEnabledRules_eq]
  exact (List.perm_insertionSort _ _).symm

/-- A backup lists the newest rule of a position first. -/
theorem sublist_listRules {a b : RuleRecord} (h : List.Sublist [a, b] (listRules t))
    (hpos : a.position = b.position) :
    b.createdAt ≤ a.createdAt ∧ (a.createdAt ≤ b.createdAt → List.Sublist [a, b] t.table.rows) := by
  have hsorted := pairwise_stable listOrder t.rows_nodup
  rw [← listRules_eq, List.pairwise_iff_forall_sublist] at hsorted
  obtain ⟨hab, hstable⟩ := hsorted h
  unfold listOrder at hab hstable
  exact ⟨by omega, fun hle => hstable (by omega)⟩

theorem sublist_listEnabledRules {a b : RuleRecord} (h : List.Sublist [a, b] (listEnabledRules t)) :
    engineOrder a b ∧ (engineOrder b a → List.Sublist [a, b] t.table.rows) := by
  have hsorted := pairwise_stable engineOrder (t.rows_nodup.filter fun r => r.enabled)
  rw [← listEnabledRules_eq, List.pairwise_iff_forall_sublist] at hsorted
  obtain ⟨hab, hstable⟩ := hsorted h
  exact ⟨hab, fun hba => (hstable hba).trans List.filter_sublist⟩

/-- After a restore, rules of one position run in the order of the backup. -/
theorem sublist_restoredOrder (htimes : ∀ i j, i < j → (stamp i).2 < (stamp j).2) {a b : RuleRecord}
    (h : List.Sublist [a, b] (restoredOrder t stamp)) :
    a.position < b.position ∨
      (a.position = b.position ∧ List.Sublist [a, b] (listRules t)) := by
  let le (p q : RuleRecord × ℕ) : Prop := engineOrder (restoredRow stamp p) (restoredRow stamp q)
  have htotal : Std.Total le := ⟨fun _ _ => Std.Total.total _ _⟩
  have htrans : IsTrans _ le := ⟨fun _ _ _ h₁ h₂ => IsTrans.trans _ _ _ h₁ h₂⟩
  have hnodup : (listRules t).zipIdx.Nodup :=
    List.Nodup.of_map Prod.fst (by rw [List.zipIdx_map_fst]; exact listRules_nodup t)
  have hsorted := List.pairwise_insertionSort le ((listRules t).zipIdx.filter fun p => p.1.enabled)
  have hne := (List.perm_insertionSort le _).nodup_iff.2 (hnodup.filter fun p => p.1.enabled)
  have hpairs : (restoredOrder t stamp).Pairwise fun a b => a.position < b.position ∨
      (a.position = b.position ∧ List.Sublist [a, b] (listRules t)) := by
    refine List.pairwise_map.2 ((hsorted.and hne).imp_of_mem ?_)
    rintro p q hp hq ⟨hle, hpq⟩
    have hmem : ∀ x ∈ List.insertionSort le ((listRules t).zipIdx.filter fun p => p.1.enabled),
        x ∈ (listRules t).zipIdx :=
      fun x hx => List.mem_of_mem_filter ((List.mem_insertionSort le).1 hx)
    rcases hle with hlt | ⟨heq, htime⟩
    · exact .inl hlt
    · refine .inr ⟨heq, pair_sublist_of_zipIdx (hmem p hp) (hmem q hq) ?_⟩
      have hle : ¬ q.2 < p.2 := fun hlt => absurd (htimes _ _ hlt) (not_lt.2 htime)
      refine lt_of_le_of_ne (not_lt.1 hle) fun hidx => hpq ?_
      refine List.inj_on_of_nodup_map (f := Prod.snd) ?_ (hmem p hp) (hmem q hq) hidx
      rw [List.zipIdx_map_snd]
      exact List.nodup_range'
  exact List.pairwise_iff_forall_sublist.1 hpairs h

end

/-! ## Main result -/

/-- Enabled rules with one position were created at one time. -/
def SharedPositionsTied (t : RulesTable) : Prop :=
  ∀ a ∈ t.table.rows, ∀ b ∈ t.table.rows, a.enabled → b.enabled → a.position = b.position →
    a.createdAt = b.createdAt

section
variable {t : RulesTable} {stamp : ℕ → Uuid × ℤ}

variable (htimes : ∀ i j, i < j → (stamp i).2 < (stamp j).2)
include htimes

theorem restoredOrder_of_tied (h : SharedPositionsTied t) :
    restoredOrder t stamp = listEnabledRules t := by
  have htied : ∀ {a b : RuleRecord}, a ∈ listEnabledRules t → b ∈ listEnabledRules t →
      a.position = b.position → a.createdAt = b.createdAt := by
    intro a b ha hb
    obtain ⟨ha, hea⟩ := mem_listEnabledRules.1 ha
    obtain ⟨hb, heb⟩ := mem_listEnabledRules.1 hb
    exact h a ha b hb hea heb
  have hperm := perm_restoredOrder t stamp
  let le (a b : RuleRecord) : Prop := a.position < b.position ∨
    (a.position = b.position ∧ List.Sublist [a, b] t.table.rows)
  refine @List.Perm.eq_of_pairwise _ le _ _ ?_ ?_ ?_ hperm
  · rintro a b - - (hlt | ⟨heq, hab⟩) (hlt' | ⟨heq', hba⟩)
    · omega
    · omega
    · omega
    · exact absurd hba (pair_sublist_asymm t.rows_nodup hab)
  · rw [List.pairwise_iff_forall_sublist]
    intro a b hab
    rcases sublist_restoredOrder t stamp htimes hab with hlt | ⟨heq, hlist⟩
    · exact .inl hlt
    · have ha := hperm.subset (hab.subset (show a ∈ [a, b] by simp))
      have hb := hperm.subset (hab.subset (show b ∈ [a, b] by simp))
      exact .inr ⟨heq, (sublist_listRules t hlist heq).2 (htied ha hb heq).le⟩
  · rw [List.pairwise_iff_forall_sublist]
    intro a b hab
    obtain ⟨hord, hstable⟩ := sublist_listEnabledRules t hab
    have ha := hab.subset (show a ∈ [a, b] by simp)
    have hb := hab.subset (show b ∈ [a, b] by simp)
    rcases hord with hlt | ⟨heq, -⟩
    · exact .inl hlt
    · refine .inr ⟨heq, hstable (.inr ⟨heq.symm, ?_⟩)⟩
      exact (htied hb ha heq.symm).le

theorem tied_of_restoredOrder (h : restoredOrder t stamp = listEnabledRules t) :
    SharedPositionsTied t := by
  -- of two rules with one position, a backup has the newer one first and the engine last
  have hle : ∀ {a b : RuleRecord}, a ∈ listEnabledRules t → b ∈ listEnabledRules t →
      a.position = b.position → b.createdAt ≤ a.createdAt := by
    intro a b ha hb hpos
    by_contra hlt
    have hne : a ≠ b := by
      rintro rfl
      exact hlt le_rfl
    rcases pair_sublist_or ha hb hne with hab | hba
    · rw [← h] at hab
      rcases sublist_restoredOrder t stamp htimes hab with hlt' | ⟨-, hlist⟩
      · omega
      · exact hlt (sublist_listRules t hlist hpos).1
    · have hord := (sublist_listEnabledRules t hba).1
      unfold engineOrder at hord
      omega
  intro a ha b hb hea heb hpos
  have ha' := mem_listEnabledRules.2 ⟨ha, hea⟩
  have hb' := mem_listEnabledRules.2 ⟨hb, heb⟩
  exact le_antisymm (hle hb' ha' hpos.symm) (hle ha' hb' hpos)

end

/-- **A restore keeps what the engine runs**, in its order, iff no two enabled
    rules that were created at different times share a position. -/
theorem restore_keeps_order_iff (t : RulesTable) {stamp : ℕ → Uuid × ℤ}
    (hids : ∀ i j, (stamp i).1 = (stamp j).1 → i = j)
    (htimes : ∀ i j, i < j → (stamp i).2 < (stamp j).2) :
    ∃ t', importRules (backup t) true stamp t = .ok t' ∧
      ((listEnabledRules t').map engineView = (listEnabledRules t).map engineView ↔
        SharedPositionsTied t) := by
  obtain ⟨t', himport, hrows⟩ := importRules_replace t hids
  refine ⟨t', himport, ?_⟩
  rw [listEnabledRules_restore t stamp hrows]
  constructor
  · intro h
    refine tied_of_restoredOrder htimes ?_
    -- names are distinct, so the two lists are equal as lists of rows
    have hmem : ∀ {r}, r ∈ listEnabledRules t → r ∈ t.table.rows :=
      fun hr => (mem_listEnabledRules.1 hr).1
    have hmem' : ∀ {r}, r ∈ restoredOrder t stamp → r ∈ t.table.rows :=
      fun hr => hmem ((perm_restoredOrder t stamp).subset hr)
    refine eq_of_map_eq (fun a ha b hb hview => ?_) h
    exact t.eq_of_name (hmem' ha) (hmem hb) (congrArg Prod.fst hview)
  · intro h
    rw [restoredOrder_of_tied htimes h]

/-- The row of a rule that catches everything. -/
def backupRow (id : Uuid) (name : String) (position createdAt : ℤ) : RuleRecord :=
  ⟨id, name, true, ⟨"", []⟩,
    ⟨"", "https://hooks.example/mail", "POST", [], "", none, none, none, none, none⟩, position,
    createdAt, createdAt⟩

def twoPositions : RulesTable :=
  ⟨⟨[backupRow 1 "archive" 0 10, backupRow 2 "alert" 1 20], by simp [backupRow, Keyed.key]⟩,
    by simp [backupRow]⟩

theorem restore_keeps_order_sample :
    ∃ t', importRules (backup twoPositions) true (fun i => (i, 30 + i)) twoPositions = .ok t' ∧
      ((listEnabledRules t').map engineView = (listEnabledRules twoPositions).map engineView ↔
        SharedPositionsTied twoPositions) :=
  restore_keeps_order_iff twoPositions (fun _ _ h => h) (fun i j h => by simpa using h)

/-- Two rules of one position. -/
def onePosition : RulesTable :=
  ⟨⟨[backupRow 1 "archive" 1 10, backupRow 2 "alert" 1 20], by simp [backupRow, Keyed.key]⟩,
    by simp [backupRow]⟩

/-- Rules that share a position change places. -/
theorem restore_turns_around :
    (importRules (backup onePosition) true (fun i => (i, 30 + i)) onePosition).toOption.map
        (fun t' => (listEnabledRules t').map fun r => r.name) = some ["alert", "archive"] ∧
      (listEnabledRules onePosition).map (fun r => r.name) = ["archive", "alert"] := by
  decide +kernel

end Mailrelay
