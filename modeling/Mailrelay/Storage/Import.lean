/-
  What an import does to the rules (`ImportRules` in
  `internal/storage/rules_transfer.go`).

  An item is inserted, or updates the rule of its name where it differs.  The
  lemmas describe a row by its `portable` settings; items and rows have
  distinct names, so each name stands for one rule.

  * `upsertRule_ok`: what one item does;
  * `upsertRules_settings`: after an import every item is stored as it is;
  * `upsertRules_new`: the rows of new items.
-/
import Mailrelay.Rules.Validate
import Mailrelay.Storage.Rules

namespace Mailrelay

open Lib

section
variable {M W : Type}

/-! ## One item -/

theorem StoredRules.insert_ok {t t' : StoredRules M W} {r : StoredRule M W} (h : t.insert r = .ok t') :
    t'.table.rows = t.table.rows ++ [r] := by
  unfold StoredRules.insert at h
  split at h
  · cases h
  · rename_i table ht
    split_ifs at h
    cases h
    exact (Table.insert?_eq_some ht).1

theorem StoredRules.insert_of_new {t : StoredRules M W} {r : StoredRule M W}
    (hid : ∀ r' ∈ t.table.rows, r'.id ≠ r.id) (hname : ∀ r' ∈ t.table.rows, r'.name ≠ r.name) :
    ∃ t', t.insert r = .ok t' := by
  obtain ⟨table, ht⟩ := Table.insert?_of_get? (t := t.table) (a := r) (Table.get?_eq_none.2 hid)
  have hrows := (Table.insert?_eq_some ht).1
  have hn : (table.rows.map fun r => r.name).Nodup := by
    rw [hrows, List.map_append, List.nodup_append]
    refine ⟨t.names, List.nodup_singleton _, fun x hx y hy => ?_⟩
    obtain ⟨r', hr', rfl⟩ := List.mem_map.1 hx
    rw [List.map_singleton, List.mem_singleton] at hy
    rw [hy]
    exact hname r' hr'
  unfold StoredRules.insert
  rw [ht]
  exact ⟨⟨table, hn⟩, dif_pos hn⟩

theorem StoredRules.update_ok {t t' : StoredRules M W} {p : StoredRule M W → Bool}
    {f : StoredRule M W → StoredRule M W} {hf : ∀ r, (f r).id = r.id} (h : t.update p f hf = .ok t') :
    t'.table.rows = t.table.rows.map fun r => if p r then f r else r := by
  unfold StoredRules.update at h
  split_ifs at h
  cases h
  rfl

/-- An update that keeps the names is not refused. -/
theorem StoredRules.update_of_names {t : StoredRules M W} {p : StoredRule M W → Bool}
    {f : StoredRule M W → StoredRule M W} {hf : ∀ r, (f r).id = r.id} (hname : ∀ r, (f r).name = r.name) :
    ∃ t', t.update p f hf = .ok t' := by
  have hn : ((t.table.update p f hf).rows.map fun r => r.name).Nodup := by
    have heq : (t.table.update p f hf).rows.map (fun r => r.name) =
        t.table.rows.map fun r => r.name := by
      rw [show (t.table.update p f hf).rows = t.table.rows.map fun r => if p r then f r else r from rfl,
        List.map_map]
      refine List.map_congr_left fun r _ => ?_
      simp only [Function.comp]
      split_ifs
      · exact hname r
      · rfl
    rw [heq]
    exact t.names
  exact ⟨_, dif_pos hn⟩

/-- The row of an item that is new. -/
def importedRow (stamp : ℕ → Uuid × ℤ) (item : RuleSettings M W) (i : ℕ) : StoredRule M W :=
  ⟨(stamp i).1, item.name, item.enabled, item.«match», item.webhook, item.position, (stamp i).2,
    (stamp i).2⟩

/-- The row of an item that updates another row. -/
def mergedRow (item : RuleSettings M W) (now : ℤ) (r : StoredRule M W) : StoredRule M W :=
  { r with
    enabled := item.enabled, «match» := item.«match», webhook := item.webhook
    position := item.position, updatedAt := now }

theorem portable_mergedRow {item : RuleSettings M W} {now : ℤ} {r : StoredRule M W}
    (h : r.name = item.name) :
    portable (mergedRow item now r) = item := by
  simp [portable, mergedRow, h]

theorem portable_eq_iff {r : StoredRule M W} {item : RuleSettings M W} : portable r = item ↔
    r.name = item.name ∧ r.enabled = item.enabled ∧ r.position = item.position ∧
      r.«match» = item.«match» ∧ r.webhook = item.webhook := by
  cases item
  simp [portable]

variable [DecidableEq M] [DecidableEq W]

/-- **What one item does**: it adds a row, or updates the row of its name if its
    settings differ. -/
theorem upsertRule_ok {item : RuleSettings M W} {stamp : ℕ → Uuid × ℤ} {i : ℕ} {t t' : StoredRules M W}
    (h : upsertRule item (stamp i).1 (stamp i).2 t = .ok t') :
    ((∀ r ∈ t.table.rows, r.name ≠ item.name) ∧
      t'.table.rows = t.table.rows ++ [importedRow stamp item i]) ∨
    ((∃ r ∈ t.table.rows, r.name = item.name) ∧
      t'.table.rows = t.table.rows.map fun r =>
        if r.name = item.name ∧ portable r ≠ item then mergedRow item (stamp i).2 r else r) := by
  unfold upsertRule at h
  split_ifs at h with hmem
  · refine .inr ⟨List.mem_map.1 hmem, ?_⟩
    rw [StoredRules.update_ok h]
    refine List.map_congr_left fun r _ => ?_
    have hcond : ((r.name == item.name && (r.enabled != item.enabled || r.«match» != item.«match» ||
        r.webhook != item.webhook || r.position != item.position)) = true) ↔
        (r.name = item.name ∧ portable r ≠ item) := by
      rw [ne_eq, portable_eq_iff]
      simp only [Bool.and_eq_true, beq_iff_eq, Bool.or_eq_true, bne_iff_ne, ne_eq]
      tauto
    simp only [hcond]
    rfl
  · refine .inl ⟨fun r hr he => hmem (List.mem_map.2 ⟨r, hr, he⟩), StoredRules.insert_ok h⟩

theorem upsertRule_total (item : RuleSettings M W) {id : Uuid} (now : ℤ) {t : StoredRules M W}
    (hid : ∀ r ∈ t.table.rows, r.id ≠ id) : ∃ t', upsertRule item id now t = .ok t' := by
  unfold upsertRule
  split_ifs with hmem
  · exact StoredRules.update_of_names fun _ => rfl
  · exact StoredRules.insert_of_new hid fun r hr he => hmem (List.mem_map.2 ⟨r, hr, he⟩)

/-- Settings of other names stay, and the item is stored. -/
theorem mem_upsertRule {item : RuleSettings M W} {stamp : ℕ → Uuid × ℤ} {i : ℕ} {t t' : StoredRules M W}
    (h : upsertRule item (stamp i).1 (stamp i).2 t = .ok t') {x : RuleSettings M W} :
    (∃ r ∈ t'.table.rows, portable r = x) ↔
      x = item ∨ (x.name ≠ item.name ∧ ∃ r ∈ t.table.rows, portable r = x) := by
  have hname : ∀ {r : StoredRule M W}, (portable r).name = r.name := rfl
  rcases upsertRule_ok h with ⟨hnew, hrows⟩ | ⟨⟨r₀, hr₀, hn₀⟩, hrows⟩
  · rw [hrows]
    constructor
    · rintro ⟨r, hr, rfl⟩
      rcases List.mem_append.1 hr with hr | hr
      · exact .inr ⟨hnew r hr, r, hr, rfl⟩
      · rw [List.mem_singleton.1 hr]
        exact .inl rfl
    · rintro (rfl | ⟨-, r, hr, rfl⟩)
      · exact ⟨_, List.mem_append_right _ (List.mem_singleton_self _), rfl⟩
      · exact ⟨r, List.mem_append_left _ hr, rfl⟩
  · rw [hrows]
    constructor
    · rintro ⟨r', hr', rfl⟩
      obtain ⟨r, hr, rfl⟩ := List.mem_map.1 hr'
      split_ifs with hc
      · exact .inl (portable_mergedRow hc.1)
      · by_cases hn : r.name = item.name
        · exact .inl (by tauto)
        · exact .inr ⟨hn, r, hr, rfl⟩
    · rintro (rfl | ⟨hn, r, hr, rfl⟩)
      · refine ⟨_, List.mem_map_of_mem hr₀, ?_⟩
        split_ifs with hc
        · exact portable_mergedRow hc.1
        · tauto
      · refine ⟨_, List.mem_map_of_mem hr, ?_⟩
        rw [if_neg fun hc => hn hc.1]

/-! ## All items -/

/-- **After an import every item is stored as it is**, and rules that no item
    names stay. -/
theorem upsertRules_settings {stamp : ℕ → Uuid × ℤ} :
    ∀ {items : List (RuleSettings M W)} {i : ℕ} {t t' : StoredRules M W},
      (items.map fun item => item.name).Nodup → upsertRules stamp i items t = .ok t' →
      ∀ x, (∃ r ∈ t'.table.rows, portable r = x) ↔
        x ∈ items ∨ ((∀ item ∈ items, x.name ≠ item.name) ∧ ∃ r ∈ t.table.rows, portable r = x)
  | [], i, t, t', _, h, x => by
    cases h
    simp
  | item :: items, i, t, t', hn, h, x => by
    obtain ⟨hitem, hn⟩ := List.nodup_cons.1 hn
    obtain ⟨t₁, h₁, h₂⟩ := bind_ok.1 h
    rw [upsertRules_settings hn h₂ x, mem_upsertRule h₁, List.mem_cons, List.forall_mem_cons]
    constructor
    · rintro (hx | ⟨hx, rfl | ⟨hne, hr⟩⟩)
      · exact .inl (.inr hx)
      · exact .inl (.inl rfl)
      · exact .inr ⟨⟨hne, hx⟩, hr⟩
    · rintro ((rfl | hx) | ⟨⟨hne, hx⟩, hr⟩)
      · refine .inr ⟨fun item' hi he => hitem ?_, .inl rfl⟩
        exact List.mem_map.2 ⟨item', hi, he.symm⟩
      · exact .inl hx
      · exact .inr ⟨hx, .inr ⟨hne, hr⟩⟩

/-- With fresh ids an import succeeds. -/
theorem upsertRules_total {stamp : ℕ → Uuid × ℤ} (hids : ∀ i j, (stamp i).1 = (stamp j).1 → i = j) :
    ∀ (items : List (RuleSettings M W)) (i : ℕ) (t : StoredRules M W),
      (∀ r ∈ t.table.rows, ∀ j, i ≤ j → r.id ≠ (stamp j).1) →
      ∃ t', upsertRules stamp i items t = .ok t'
  | [], _, t, _ => ⟨t, rfl⟩
  | item :: items, i, t, hfresh => by
    obtain ⟨t₁, h₁⟩ := upsertRule_total item (stamp i).2 fun r hr => hfresh r hr i le_rfl
    have hids₁ : ∀ r ∈ t₁.table.rows, r.id = (stamp i).1 ∨ ∃ r' ∈ t.table.rows, r.id = r'.id := by
      intro r hr
      rcases upsertRule_ok h₁ with ⟨-, hrows⟩ | ⟨-, hrows⟩
      · rw [hrows] at hr
        rcases List.mem_append.1 hr with hr | hr
        · exact .inr ⟨r, hr, rfl⟩
        · rw [List.mem_singleton.1 hr]
          exact .inl rfl
      · rw [hrows] at hr
        obtain ⟨r', hr', rfl⟩ := List.mem_map.1 hr
        refine .inr ⟨r', hr', ?_⟩
        split_ifs
        · rfl
        · rfl
    obtain ⟨t', h₂⟩ := upsertRules_total hids items (i + 1) t₁ fun r hr j hj he => by
      rcases hids₁ r hr with hid | ⟨r', hr', hid⟩
      · have := hids i j (hid.symm.trans he)
        omega
      · exact hfresh r' hr' j (by omega) (hid.symm.trans he)
    exact ⟨t', bind_ok.2 ⟨t₁, h₁, h₂⟩⟩

/-- New items are added in order. -/
theorem upsertRules_new {stamp : ℕ → Uuid × ℤ} (hids : ∀ i j, (stamp i).1 = (stamp j).1 → i = j) :
    ∀ (items : List (RuleSettings M W)) (i : ℕ) (t : StoredRules M W),
      (items.map fun item => item.name).Nodup →
      (∀ item ∈ items, ∀ r ∈ t.table.rows, r.name ≠ item.name) →
      (∀ r ∈ t.table.rows, ∀ j, i ≤ j → r.id ≠ (stamp j).1) →
      ∃ t', upsertRules stamp i items t = .ok t' ∧
        t'.table.rows = t.table.rows ++ (items.zipIdx i).map fun p => importedRow stamp p.1 p.2
  | [], i, t, _, _, _ => ⟨t, rfl, by simp⟩
  | item :: items, i, t, hn, hnew, hfresh => by
    obtain ⟨hitem, hn⟩ := List.nodup_cons.1 hn
    obtain ⟨t₁, h₁⟩ := upsertRule_total item (stamp i).2
      fun r hr => hfresh r hr i le_rfl
    have hrows : t₁.table.rows = t.table.rows ++ [importedRow stamp item i] := by
      rcases upsertRule_ok h₁ with ⟨-, hrows⟩ | ⟨⟨r, hr, he⟩, -⟩
      · exact hrows
      · exact absurd he (hnew item List.mem_cons_self r hr)
    obtain ⟨t', h₂, hrows'⟩ := upsertRules_new hids items (i + 1) t₁ hn
      (fun item' hi r hr => by
        rw [hrows] at hr
        rcases List.mem_append.1 hr with hr | hr
        · exact hnew item' (List.mem_cons_of_mem _ hi) r hr
        · rw [List.mem_singleton.1 hr]
          intro he
          exact hitem (List.mem_map.2 ⟨item', hi, he.symm⟩))
      (fun r hr j hj => by
        rw [hrows] at hr
        rcases List.mem_append.1 hr with hr | hr
        · exact hfresh r hr j (by omega)
        · rw [List.mem_singleton.1 hr]
          intro he
          have := hids i j he
          omega)
    refine ⟨t', ?_, ?_⟩
    · exact bind_ok.2 ⟨t₁, h₁, h₂⟩
    · rw [hrows', hrows, List.zipIdx_cons, List.map_cons, List.append_assoc]
      rfl

end

end Mailrelay
