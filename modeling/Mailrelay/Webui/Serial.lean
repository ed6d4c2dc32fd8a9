/-
  Concurrent edits of rules (`handleRuleCreate`, `handleRuleUpdate` and
  `handleRuleToggle` in `internal/webui/handler.go`).

  A request reads, by `NextRulePosition` or `GetRule`, and then writes a whole
  row.  Two requests run one after the other, or they cross: both read before
  either writes.  The second write is then based on what the table was before
  the first one (`Harmless` says when that makes no difference).

  * `run_two`: the interleavings of two requests;
  * `harmless_read`: a crossing that makes no difference;
  * `not_serial_rows`, `not_serial_creates`: one that does;
  * `edits_serialisable_iff`: the main result.
-/
import Mailrelay.Storage.Restore
import Mailrelay.Webui.Reload

namespace Mailrelay

open Lib
open RulesWorld (newRule editRule setRequest_self setRequest_of_ne)

/-! ## Requests on one rule -/

inductive RuleEdit where
  | create (form : RuleForm)
  | update (id : Uuid) (form : RuleForm)
  | toggle (id : Uuid)
  deriving DecidableEq, Repr

def RuleEdit.request : RuleEdit → RuleRequest
  | create form => .create form
  | update id form => .update id form
  | toggle id => .toggle id

/-- What a request is going to write. -/
inductive RuleWrite where
  | save (rule : RuleRecord)
  | update (rule : RuleRecord)
  deriving DecidableEq, Repr

def RuleWrite.run (stamp : Uuid × ℤ) (t : RulesTable) : RuleWrite → Except DbError RulesTable
  | save rule => saveRule rule stamp.1 stamp.2 t
  | update rule => updateRule rule stamp.2 t

/-- The first store call of a request. -/
def RuleEdit.read (t : RulesTable) : RuleEdit → Option RuleWrite
  | create form => some (.save (newRule form (nextRulePosition t)))
  | update id form => (getRule id t).map fun existing => .update (editRule existing form)
  | toggle id => (getRule id t).map fun rule => .update { rule with enabled := !rule.enabled }

/-- A request that is executed alone. -/
def RuleEdit.alone (e : RuleEdit) (stamp : Uuid × ℤ) (t : RulesTable) : Option RulesTable := do
  let write ← e.read t
  (write.run stamp t).toOption

/-- What a request in flight is going to write. -/
def RequestPhase.pending : RequestPhase → Option RuleWrite
  | .positioned form position => some (.save (newRule form position))
  | .fetched rule => some (.update rule)
  | _ => none

/-- The change of a request is committed. -/
def RequestPhase.After : RequestPhase → Prop
  | .committed | .loaded _ | .done => True
  | _ => False

/-! ## Calls -/

section
variable {w w' : RulesWorld} {n : ℕ} {stamp : ℕ → Uuid × ℤ}

theorem call_started {e : RuleEdit} (h : w.call n stamp (.started e.request) = some w') :
    ∃ write ph, e.read w.rules = some write ∧ ph.pending = some write ∧ w' = w.setRequest n ph := by
  cases e with
  | create form =>
    cases h
    exact ⟨_, _, rfl, rfl, rfl⟩
  | update id form =>
    obtain ⟨existing, hget, rfl⟩ := Option.map_eq_some_iff.1 h
    exact ⟨_, .fetched (editRule existing form), by simp [RuleEdit.read, hget], rfl, rfl⟩
  | toggle id =>
    obtain ⟨rule, hget, rfl⟩ := Option.map_eq_some_iff.1 h
    exact ⟨_, .fetched { rule with enabled := !rule.enabled }, by simp [RuleEdit.read, hget], rfl, rfl⟩

theorem commit_some {r : Except DbError RulesTable} (h : w.commit n r = some w') :
    ∃ t, r = .ok t ∧ w' = { w with rules := t }.setRequest n .committed := by
  cases r with
  | error e => cases h
  | ok t =>
    cases h
    exact ⟨t, rfl, rfl⟩

theorem call_pending {ph : RequestPhase} {write : RuleWrite} (hp : ph.pending = some write)
    (h : w.call n stamp ph = some w') :
    ∃ t, write.run (stamp 0) w.rules = .ok t ∧ w' = { w with rules := t }.setRequest n .committed := by
  cases ph with
  | positioned form position =>
    cases hp
    exact commit_some h
  | fetched rule =>
    cases hp
    exact commit_some h
  | done | started | listed | committed | loaded => cases hp

theorem call_after {ph : RequestPhase} (hp : ph.After) (h : w.call n stamp ph = some w') :
    ∃ ph' engine, ph'.After ∧ w' = { w with engine := engine }.setRequest n ph' := by
  cases ph with
  | committed =>
    cases h
    exact ⟨.loaded (storedRules w.rules), w.engine, trivial, rfl⟩
  | loaded rules =>
    cases h
    exact ⟨.done, rules, trivial, rfl⟩
  | done => cases h
  | started | positioned | fetched | listed => cases hp

end

/-! ## Interleavings -/

/-- The calls of two requests. -/
def Between (n m : ℕ) (_ : RulesWorld) (e : RulesEvent) : Prop :=
  ∃ stamp, e = .call n stamp ∨ e = .call m stamp

theorem Between.symm {n m : ℕ} {w : RulesWorld} {e : RulesEvent} (h : Between n m w e) : Between m n w e :=
  h.imp fun _ => Or.symm

section
variable {n m : ℕ} {w w' : RulesWorld} {es : List RulesEvent}

/-- Reloads do not change the table. -/
theorem run_after (h : Run RulesWorld.step (Between n m) w es w') (hn : (w.requests n).After)
    (hm : (w.requests m).After) : w'.rules = w.rules := by
  induction h with
  | nil => rfl
  | cons hp hs _ ih =>
    obtain ⟨stamp, rfl | rfl⟩ := hp
    · obtain ⟨ph, engine, hph, rfl⟩ := call_after hn hs
      refine ih ?_ ?_
      · rwa [setRequest_self]
      · by_cases hmn : m = n
        · subst hmn
          rwa [setRequest_self]
        · rwa [setRequest_of_ne _ _ hmn]
    · obtain ⟨ph, engine, hph, rfl⟩ := call_after hm hs
      refine ih ?_ ?_
      · by_cases hnm : n = m
        · subst hnm
          rwa [setRequest_self]
        · rwa [setRequest_of_ne _ _ hnm]
      · rwa [setRequest_self]

/-- The last write. -/
theorem run_write (hne : n ≠ m) {write : RuleWrite} (h : Run RulesWorld.step (Between n m) w es w')
    (hn : (w.requests n).After) (hm : (w.requests m).pending = some write)
    (hdone : w'.requests m = .done) : ∃ stamp, write.run stamp w.rules = .ok w'.rules := by
  induction h with
  | nil =>
    rw [hdone] at hm
    cases hm
  | cons hp hs hrun ih =>
    obtain ⟨stamp, rfl | rfl⟩ := hp
    · obtain ⟨ph, engine, hph, rfl⟩ := call_after hn hs
      refine ih ?_ ?_ hdone
      · rwa [setRequest_self]
      · rwa [setRequest_of_ne _ _ hne.symm]
    · obtain ⟨t, ht, rfl⟩ := call_pending hm hs
      refine ⟨stamp 0, ?_⟩
      rw [run_after hrun (by rwa [setRequest_of_ne _ _ hne]) (by rw [setRequest_self]; trivial)]
      exact ht

/-- The other request is done before this one reads. -/
theorem run_alone (hne : n ≠ m) {e : RuleEdit} (h : Run RulesWorld.step (Between n m) w es w')
    (hn : (w.requests n).After) (hm : w.requests m = .started e.request)
    (hdone : w'.requests m = .done) : ∃ stamp, e.alone stamp w.rules = some w'.rules := by
  induction h with
  | nil =>
    rw [hdone] at hm
    cases hm
  | cons hp hs hrun ih =>
    obtain ⟨stamp, rfl | rfl⟩ := hp
    · obtain ⟨ph, engine, hph, rfl⟩ := call_after hn hs
      refine ih ?_ ?_ hdone
      · rwa [setRequest_self]
      · rwa [setRequest_of_ne _ _ hne.symm]
    · simp only [RulesWorld.step, hm] at hs
      obtain ⟨write, ph, hread, hpending, rfl⟩ := call_started hs
      obtain ⟨stamp, hwrite⟩ := run_write hne hrun (by rwa [setRequest_of_ne _ _ hne])
        (by rwa [setRequest_self]) hdone
      refine ⟨stamp, ?_⟩
      unfold RuleEdit.alone
      rw [hread]
      exact congrArg Except.toOption hwrite

end

/-- Both requests read `t`; `first` writes before `last`. -/
def Crossed (t : RulesTable) (first last : RuleEdit) (t' : RulesTable) : Prop :=
  ∃ write₁ write₂ stamp₁ stamp₂ t₁, first.read t = some write₁ ∧ last.read t = some write₂ ∧
    write₁.run stamp₁ t = .ok t₁ ∧ write₂.run stamp₂ t₁ = .ok t'

/-- One request after the other. -/
def Sequential (t : RulesTable) (first last : RuleEdit) (t' : RulesTable) : Prop :=
  ∃ stamp₁ stamp₂ t₁, first.alone stamp₁ t = some t₁ ∧ last.alone stamp₂ t₁ = some t'

/-- The request that writes first, if two cross: the first two calls are of
    different requests, and the third one writes. -/
def crossing : List RulesEvent → Option ℕ
  | .call n _ :: .call m _ :: .call k _ :: _ => if n = m then none else some k
  | _ => none

theorem crossing_same {n : ℕ} {stamp stamp' : ℕ → Uuid × ℤ} {es : List RulesEvent} :
    crossing (.call n stamp :: .call n stamp' :: es) = none := by
  unfold crossing
  split
  · rename_i heq
    cases heq
    simp
  · rfl

section
variable {n m : ℕ} {w w' : RulesWorld} {es : List RulesEvent} {a b : RuleEdit}

/-- Both requests have read, and request `n` writes. -/
theorem run_crossed (hne : n ≠ m) {write₁ write₂ : RuleWrite} {stamp : ℕ → Uuid × ℤ}
    (ha : a.read w.rules = some write₁) (hb : b.read w.rules = some write₂)
    (hn : (w.requests n).pending = some write₁) (hm : (w.requests m).pending = some write₂)
    (hs : w.step (.call n stamp) = some w') {w'' : RulesWorld}
    (h : Run RulesWorld.step (Between n m) w' es w'')
    (hdone : w''.requests m = .done) : Crossed w.rules a b w''.rules := by
  obtain ⟨t₁, ht₁, rfl⟩ := call_pending hn hs
  obtain ⟨stamp₂, ht₂⟩ := run_write hne h (by rw [setRequest_self]; trivial)
    (by rwa [setRequest_of_ne _ _ hne.symm]) hdone
  exact ⟨write₁, write₂, stamp 0, stamp₂, t₁, ha, hb, ht₁, ht₂⟩

/-- Request `n` reads first. -/
theorem run_first (hne : n ≠ m) {stamp : ℕ → Uuid × ℤ}
    (h : Run RulesWorld.step (Between n m) w (.call n stamp :: es) w')
    (hn : w.requests n = .started a.request) (hm : w.requests m = .started b.request)
    (hdone : w'.requests n = .done ∧ w'.requests m = .done) :
    (Sequential w.rules a b w'.rules ∧ ∃ stamp' es', es = .call n stamp' :: es') ∨
      ∃ stamp₁ stamp₂ es', (es = .call m stamp₁ :: .call n stamp₂ :: es' ∧ Crossed w.rules a b w'.rules) ∨
        (es = .call m stamp₁ :: .call m stamp₂ :: es' ∧ Crossed w.rules b a w'.rules) := by
  cases h with
  | cons _ hs h =>
    simp only [RulesWorld.step, hn] at hs
    obtain ⟨write₁, ph₁, hread₁, hpending₁, rfl⟩ := call_started hs
    have hn₁ : ((w.setRequest n ph₁).requests n).pending = some write₁ := by rwa [setRequest_self]
    have hm₁ : (w.setRequest n ph₁).requests m = .started b.request := by
      rwa [setRequest_of_ne _ _ hne.symm]
    cases h with
    | nil =>
      rw [hdone.1] at hn₁
      cases hn₁
    | cons hp hs h =>
      obtain ⟨stamp₁, rfl | rfl⟩ := hp
      · -- it writes before the other one reads
        obtain ⟨t₁, ht₁, rfl⟩ := call_pending hn₁ hs
        obtain ⟨stamp₂, halone⟩ := run_alone hne h (by rw [setRequest_self]; trivial)
          (by rwa [setRequest_of_ne _ _ hne.symm]) hdone.2
        refine .inl ⟨⟨stamp₁ 0, stamp₂, t₁, ?_, halone⟩, stamp₁, _, rfl⟩
        unfold RuleEdit.alone
        rw [hread₁]
        exact congrArg Except.toOption ht₁
      · simp only [RulesWorld.step, hm₁] at hs
        obtain ⟨write₂, ph₂, hread₂, hpending₂, rfl⟩ := call_started hs
        have hm₂ : (((w.setRequest n ph₁).setRequest m ph₂).requests m).pending = some write₂ := by
          rwa [setRequest_self]
        have hn₂ : (((w.setRequest n ph₁).setRequest m ph₂).requests n).pending = some write₁ := by
          rwa [setRequest_of_ne _ _ hne]
        cases h with
        | nil =>
          rw [hdone.2] at hm₂
          cases hm₂
        | cons hp hs h =>
          obtain ⟨stamp₂, rfl | rfl⟩ := hp
          · refine .inr ⟨stamp₁, stamp₂, _, .inl ⟨rfl, ?_⟩⟩
            exact run_crossed (w := (w.setRequest n ph₁).setRequest m ph₂) hne hread₁ hread₂ hn₂ hm₂ hs h
              hdone.2
          · refine .inr ⟨stamp₁, stamp₂, _, .inr ⟨rfl, ?_⟩⟩
            exact run_crossed (w := (w.setRequest n ph₁).setRequest m ph₂) hne.symm hread₂ hread₁ hm₂ hn₂
              hs (h.imp fun _ _ hp => Between.symm hp) hdone.1

end

/-- The rules `t`, with two requests that are about to start. -/
def twoRequests (t : RulesTable) (a b : RuleEdit) : RulesWorld :=
  ((RulesWorld.start t).setRequest 0 (.started a.request)).setRequest 1 (.started b.request)

/-- **The interleavings of two requests**: one after the other, or crossed. -/
theorem run_two {t : RulesTable} {a b : RuleEdit} {es : List RulesEvent} {w : RulesWorld}
    (h : Run RulesWorld.step (Between 0 1) (twoRequests t a b) es w)
    (hdone : w.requests 0 = .done ∧ w.requests 1 = .done) :
    (crossing es = none ∧ (Sequential t a b w.rules ∨ Sequential t b a w.rules)) ∨
      (crossing es = some 0 ∧ Crossed t a b w.rules) ∨ (crossing es = some 1 ∧ Crossed t b a w.rules) := by
  have h₀ : (twoRequests t a b).requests 0 = .started a.request := by
    unfold twoRequests
    rw [setRequest_of_ne _ _ (by simp), setRequest_self]
  have h₁ : (twoRequests t a b).requests 1 = .started b.request := by
    unfold twoRequests
    rw [setRequest_self]
  cases es with
  | nil =>
    cases h
    rw [hdone.1] at h₀
    cases h₀
  | cons e es =>
    obtain ⟨stamp, rfl | rfl⟩ : Between 0 1 (twoRequests t a b) e := by
      cases h with
      | cons hp _ _ => exact hp
    · rcases run_first (by simp) h h₀ h₁ hdone with ⟨hseq, stamp', es', rfl⟩ |
        ⟨stamp₁, stamp₂, es', ⟨rfl, hc⟩ | ⟨rfl, hc⟩⟩
      · exact .inl ⟨crossing_same, .inl hseq⟩
      · exact .inr (.inl ⟨rfl, hc⟩)
      · exact .inr (.inr ⟨rfl, hc⟩)
    · have h' := h.imp fun _ _ hp => Between.symm hp
      rcases run_first (by simp) h' h₁ h₀ hdone.symm with ⟨hseq, stamp', es', rfl⟩ |
        ⟨stamp₁, stamp₂, es', ⟨rfl, hc⟩ | ⟨rfl, hc⟩⟩
      · exact .inl ⟨crossing_same, .inr hseq⟩
      · exact .inr (.inr ⟨rfl, hc⟩)
      · exact .inr (.inl ⟨rfl, hc⟩)

/-! ## Serial results -/

/-- The same rules, but for ids and times; their names are distinct. -/
def SameRules (t t' : RulesTable) : Prop :=
  ∀ x, (∃ r ∈ t.table.rows, portable r = x) ↔ ∃ r ∈ t'.table.rows, portable r = x

/-- The requests lead to `t'` in some order. -/
def Serialisable (t : RulesTable) (a b : RuleEdit) (t' : RulesTable) : Prop :=
  ∃ t'', (Sequential t a b t'' ∨ Sequential t b a t'') ∧ SameRules t'' t'

/-- The request that writes last writes what it would have written after the
    other one. -/
def Harmless (t : RulesTable) : RuleEdit → RuleEdit → Prop
  | .create _, .create _ => ∃ r ∈ t.table.rows, r.position = maxInt64
  | .toggle i, .toggle j => i ≠ j
  | .toggle i, .update j _ => i ≠ j
  -- the edit that is lost changes nothing
  | .update i f, .toggle j => i = j → ∀ r ∈ t.table.rows, r.id = i → f.name = r.name ∧
      f.«match» = r.«match» ∧ { f.webhook with
        signingSecret := ruleSigningSecret f.secret r.webhook.signingSecret } = r.webhook
  -- of the edit that is lost, only the secret could remain
  | .update i f, .update j g => i = j → ∀ r ∈ t.table.rows, r.id = i →
      ruleSigningSecret g.secret (ruleSigningSecret f.secret r.webhook.signingSecret) =
        ruleSigningSecret g.secret r.webhook.signingSecret
  | .create _, .update _ _ | .create _, .toggle _ | .update _ _, .create _ | .toggle _, .create _ => True

/-! ## Edits of a row -/

/-- The rule that a request edits, and what it does to it. -/
def RuleEdit.target : RuleEdit → Option (Uuid × (RuleRecord → RuleRecord))
  | create _ => none
  | update id form => some (id, fun r => editRule r form)
  | toggle id => some (id, fun r => { r with enabled := !r.enabled })

section
variable {e : RuleEdit} {id : Uuid} {f : RuleRecord → RuleRecord} (h : e.target = some (id, f))
include h

theorem read_target (t : RulesTable) : e.read t = (getRule id t).map fun r => .update (f r) := by
  cases e with
  | create form => cases h
  | update _ _ | toggle _ =>
    cases h
    rfl

theorem target_id (r : RuleRecord) : (f r).id = r.id := by
  cases e with
  | create form => cases h
  | update _ _ | toggle _ =>
    cases h
    rfl

theorem target_position (r : RuleRecord) : (f r).position = r.position := by
  cases e with
  | create form => cases h
  | update _ _ | toggle _ =>
    cases h
    rfl

/-- An edit depends on the settings of the row. -/
theorem target_settings {r r' : RuleRecord} (hr : portable r = portable r') :
    portable (f r) = portable (f r') := by
  obtain ⟨hname, henabled, hposition, hmatch, hwebhook⟩ := portable_eq_iff.1 hr
  simp only [portable] at hname henabled hposition hmatch hwebhook
  cases e with
  | create form => cases h
  | update _ _ =>
    cases h
    simp [portable, editRule, henabled, hposition, hwebhook]
  | toggle _ =>
    cases h
    simp [portable, hname, henabled, hposition, hmatch, hwebhook]

end

/-- The form keeps the secret or not, whatever is stored. -/
theorem ruleSigningSecret_cases (s : SecretField) :
    (∀ x, ruleSigningSecret s x = x) ∨ ∀ x y, ruleSigningSecret s x = ruleSigningSecret s y := by
  unfold ruleSigningSecret
  by_cases hclear : s.clear
  · simp [hclear]
  · by_cases hvalue : s.value = ""
    · simp [hclear, hvalue]
    · simp [hclear, hvalue]

theorem editRule_eq_iff {f g : RuleForm} {r : RuleRecord} :
    portable (editRule (editRule r f) g) = portable (editRule r g) ↔
      ruleSigningSecret g.secret (ruleSigningSecret f.secret r.webhook.signingSecret) =
        ruleSigningSecret g.secret r.webhook.signingSecret := by
  simp [portable, editRule]

/-- **When a lost write makes no difference.** -/
theorem harmless_row {t : RulesTable} {a b : RuleEdit} {id : Uuid} {f g : RuleRecord → RuleRecord}
    (ha : a.target = some (id, f)) (hb : b.target = some (id, g)) {r : RuleRecord}
    (hr : r ∈ t.table.rows) (hid : r.id = id) :
    Harmless t a b ↔ portable (g (f r)) = portable (g r) := by
  -- the row is the only one with its id
  have only : ∀ {P : RuleRecord → Prop},
      (id = id → ∀ r' ∈ t.table.rows, r'.id = id → P r') ↔ P r := by
    intro P
    constructor
    · exact fun h => h rfl r hr hid
    · intro h _ r' hr' hid'
      rw [List.inj_on_of_nodup_map t.table.nodup hr' hr (hid'.trans hid.symm)]
      exact h
  cases a with
  | create form => cases ha
  | toggle i =>
    cases ha
    cases b with
    | create form => cases hb
    | toggle j =>
      cases hb
      simp [Harmless, portable]
    | update j form =>
      cases hb
      simp [Harmless, portable, editRule]
  | update i form =>
    cases ha
    cases b with
    | create form' => cases hb
    | toggle j =>
      cases hb
      have hiff : portable { editRule r form with enabled := !r.enabled } =
          portable { r with enabled := !r.enabled } ↔ form.name = r.name ∧ form.«match» = r.«match» ∧
            { form.webhook with
              signingSecret := ruleSigningSecret form.secret r.webhook.signingSecret } = r.webhook := by
        simp [portable, editRule]
      exact only.trans hiff.symm
    | update j form' =>
      cases hb
      exact only.trans editRule_eq_iff.symm

/-- If the first edit would change nothing after the last, it makes no
    difference. -/
theorem settings_of_reverse {a b : RuleEdit} {id : Uuid} {f g : RuleRecord → RuleRecord}
    (ha : a.target = some (id, f)) (hb : b.target = some (id, g)) {r : RuleRecord}
    (h : portable (f (g r)) = portable (g r)) : portable (g (f r)) = portable (g r) := by
  cases a with
  | create form => cases ha
  | toggle i =>
    cases ha
    exact absurd (congrArg RuleSettings.enabled h) (by simp [portable])
  | update i form =>
    cases ha
    cases b with
    | create form' => cases hb
    | toggle j =>
      cases hb
      simp only [portable, editRule, RuleSettings.mk.injEq, true_and] at h ⊢
      exact h
    | update j form' =>
      cases hb
      refine editRule_eq_iff.2 ?_
      have hsecret := congrArg (fun x => x.webhook.signingSecret) h
      simp only [portable, editRule] at hsecret
      rcases ruleSigningSecret_cases form'.secret with hkeep | hconst
      · rw [hkeep] at hsecret
        rw [hkeep, hkeep]
        exact hsecret
      · exact hconst _ _

/-! ## Writes -/

/-- The row `r` after `UpdateRule`. -/
def overwrite (r rule : RuleRecord) (now : ℤ) : RuleRecord :=
  { r with
    name := rule.name, enabled := rule.enabled, «match» := rule.«match», webhook := rule.webhook
    position := rule.position, updatedAt := now }

@[simp] theorem portable_overwrite (r rule : RuleRecord) (now : ℤ) :
    portable (overwrite r rule now) = portable rule := rfl

section
variable {t t' : RulesTable} {rule : RuleRecord} {now : ℤ}

theorem updateRule_rows (h : updateRule rule now t = .ok t') :
    t'.table.rows = t.table.rows.map fun r => if r.id = rule.id then overwrite r rule now else r := by
  rw [StoredRules.update_ok h]
  refine List.map_congr_left fun r _ => ?_
  simp only [beq_iff_eq]
  rfl

theorem updateRule_congr {rule' : RuleRecord} (hid : rule.id = rule'.id)
    (hsettings : portable rule = portable rule') : updateRule rule now t = updateRule rule' now t := by
  obtain ⟨hname, henabled, hposition, hmatch, hwebhook⟩ := portable_eq_iff.1 hsettings
  simp only [portable] at hname henabled hposition hmatch hwebhook
  unfold updateRule
  simp only [hid, hname, henabled, hposition, hmatch, hwebhook]

theorem getRule_updateRule (h : updateRule rule now t = .ok t') {id : Uuid} {r : RuleRecord}
    (hr : getRule id t = some r) :
    getRule id t' = some (if id = rule.id then overwrite r rule now else r) := by
  obtain ⟨hmem, hid⟩ := Table.get?_eq_some.1 hr
  have hid' : r.id = id := hid
  refine Table.get?_eq_some.2 ⟨?_, ?_⟩
  · rw [updateRule_rows h]
    refine List.mem_map.2 ⟨r, hmem, ?_⟩
    rw [hid']
  · split_ifs
    · exact hid
    · exact hid

theorem getRule_saveRule {id' : Uuid} (h : saveRule rule id' now t = .ok t') {id : Uuid} {r : RuleRecord}
    (hr : getRule id t = some r) : getRule id t' = some r := by
  obtain ⟨hmem, hid⟩ := Table.get?_eq_some.1 hr
  refine Table.get?_eq_some.2 ⟨?_, hid⟩
  rw [StoredRules.insert_ok h]
  exact List.mem_append_left _ hmem

/-- An edit does not move a rule. -/
theorem nextRulePosition_updateRule (h : updateRule rule now t = .ok t') {r : RuleRecord}
    (hr : getRule rule.id t = some r) (hposition : rule.position = r.position) :
    nextRulePosition t' = nextRulePosition t := by
  have hpositions : t'.table.rows.map (fun r => r.position) = t.table.rows.map fun r => r.position := by
    rw [updateRule_rows h, List.map_map]
    refine List.map_congr_left fun r' hr' => ?_
    simp only [Function.comp]
    split_ifs with hid
    · have heq : getRule rule.id t = some r' := Table.get?_eq_some.2 ⟨hr', hid⟩
      rw [hr] at heq
      cases heq
      exact hposition
    · rfl
  unfold nextRulePosition
  rw [hpositions]

end

theorem wrap64_last : wrap64 (maxInt64 + 1) = minInt64 := by decide

/-- **The position after a new rule** is its own iff no position is left. -/
theorem nextRulePosition_saveRule {t t' : RulesTable}
    (hrange : ∀ r ∈ t.table.rows, minInt64 ≤ r.position ∧ r.position ≤ maxInt64) {form : RuleForm}
    {id : Uuid} {now : ℤ} (h : saveRule (newRule form (nextRulePosition t)) id now t = .ok t') :
    nextRulePosition t' = nextRulePosition t ↔ ∃ r ∈ t.table.rows, r.position = maxInt64 := by
  obtain ⟨new, hrows, hnew⟩ : ∃ new : RuleRecord, t'.table.rows = t.table.rows ++ [new] ∧
      new.position = nextRulePosition t := ⟨_, StoredRules.insert_ok h, rfl⟩
  have hmem : ∀ {r}, r ∈ t'.table.rows ↔ r ∈ t.table.rows ∨ r = new := by
    intro r
    rw [hrows, List.mem_append, List.mem_singleton]
  rcases nextRulePosition_cases t with ⟨hempty, hnext⟩ | ⟨r₀, hr₀, hle, hnext⟩
  · have hnext' : nextRulePosition t' = wrap64 (new.position + 1) := by
      refine nextRulePosition_of_max (hmem.2 (.inr rfl)) fun r hr => ?_
      rw [(hmem.1 hr).resolve_left (by simp [hempty])]
    rw [hnext', hnew, hnext, hempty]
    decide
  · obtain ⟨hlo, hhi⟩ := hrange r₀ hr₀
    by_cases hlast : r₀.position = maxInt64
    · -- the new rule goes first, so the greatest position stays
      refine iff_of_true ?_ ⟨r₀, hr₀, hlast⟩
      rw [hnext]
      refine nextRulePosition_of_max (hmem.2 (.inl hr₀)) fun r hr => ?_
      rcases hmem.1 hr with hr | rfl
      · exact hle r hr
      · rw [hnew, hnext, hlast, wrap64_last]
        decide
    · have hp : new.position = r₀.position + 1 := by
        rw [hnew, hnext]
        exact wrap64_of_mem (by omega) (by omega)
      have hnext' : nextRulePosition t' = wrap64 (new.position + 1) := by
        refine nextRulePosition_of_max (hmem.2 (.inr rfl)) fun r hr => ?_
        rcases hmem.1 hr with hr | rfl
        · have := hle r hr
          omega
        · exact le_refl _
      refine iff_of_false ?_ ?_
      · rw [hnext', ← hnew, hp]
        by_cases hend : r₀.position + 1 = maxInt64
        · rw [hend, wrap64_last]
          decide
        · rw [wrap64_of_mem (by omega) (by omega)]
          omega
      · rintro ⟨r, hr, hpos⟩
        have := hle r hr
        omega

theorem harmless_of_ne {t : RulesTable} {a b : RuleEdit} {i j : Uuid} {f g : RuleRecord → RuleRecord}
    (ha : a.target = some (i, f)) (hb : b.target = some (j, g)) (hne : i ≠ j) : Harmless t a b := by
  cases a with
  | create form => cases ha
  | toggle i =>
    cases ha
    cases b with
    | create form => cases hb
    | toggle j | update j form =>
      cases hb
      exact hne
  | update i form =>
    cases ha
    cases b with
    | create form' => cases hb
    | toggle j | update j form' =>
      cases hb
      exact fun h => absurd h hne

/-! ## Crossings that make no difference -/

theorem create_or_target (e : RuleEdit) :
    (∃ form, e = .create form) ∨ ∃ id f, e.target = some (id, f) := by
  cases e with
  | create form => exact .inl ⟨form, rfl⟩
  | update id form => exact .inr ⟨id, _, rfl⟩
  | toggle id => exact .inr ⟨id, _, rfl⟩

section
variable {t t₁ : RulesTable} {a b : RuleEdit} {write₁ write₂ : RuleWrite} {stamp : Uuid × ℤ}

theorem read_target_some {id : Uuid} {f : RuleRecord → RuleRecord} (h : a.target = some (id, f))
    (hread : a.read t = some write₁) : ∃ r, getRule id t = some r ∧ write₁ = .update (f r) := by
  rw [read_target h] at hread
  obtain ⟨r, hr, rfl⟩ := Option.map_eq_some_iff.1 hread
  exact ⟨r, hr, rfl⟩

/-- **A harmless crossing**: after the first write, the last request would write
    the same. -/
theorem harmless_read (hrange : ∀ r ∈ t.table.rows, minInt64 ≤ r.position ∧ r.position ≤ maxInt64)
    (hh : Harmless t a b) (ha : a.read t = some write₁) (hb : b.read t = some write₂)
    (h₁ : write₁.run stamp t = .ok t₁) :
    ∃ write, b.read t₁ = some write ∧ ∀ stamp t, write.run stamp t = write₂.run stamp t := by
  rcases create_or_target a with ⟨form, rfl⟩ | ⟨i, f, haf⟩
  · cases ha
    rcases create_or_target b with ⟨form', rfl⟩ | ⟨j, g, hbg⟩
    · cases hb
      refine ⟨_, rfl, fun _ _ => ?_⟩
      rw [(nextRulePosition_saveRule hrange h₁).2 hh]
    · obtain ⟨r, hr, rfl⟩ := read_target_some hbg hb
      refine ⟨.update (g r), ?_, fun _ _ => rfl⟩
      rw [read_target hbg, getRule_saveRule h₁ hr]
      rfl
  · obtain ⟨r, hr, rfl⟩ := read_target_some haf ha
    have hid : (f r).id = i := (target_id haf r).trans (Table.get?_key hr)
    rcases create_or_target b with ⟨form', rfl⟩ | ⟨j, g, hbg⟩
    · cases hb
      refine ⟨_, rfl, fun _ _ => ?_⟩
      rw [nextRulePosition_updateRule h₁ (hid.symm ▸ hr) (target_position haf r)]
    · obtain ⟨r', hr', rfl⟩ := read_target_some hbg hb
      refine ⟨.update (g (if j = (f r).id then overwrite r' (f r) stamp.2 else r')), ?_, ?_⟩
      · rw [read_target hbg, getRule_updateRule h₁ hr']
        rfl
      · intro stamp' t'
        split_ifs with hj
        · -- the same rule: its settings are those that the last request would have read
          obtain rfl : j = i := hj.trans hid
          rw [hr] at hr'
          cases hr'
          have hrow := (harmless_row haf hbg (Table.mem_of_get? hr) (Table.get?_key hr)).1 hh
          refine updateRule_congr ?_ ?_
          · rw [target_id hbg, target_id hbg]
            rfl
          · rw [target_settings hbg (portable_overwrite _ _ _), hrow]
        · rfl

theorem sequential_of_harmless {t' : RulesTable}
    (hrange : ∀ r ∈ t.table.rows, minInt64 ≤ r.position ∧ r.position ≤ maxInt64)
    (hh : Harmless t a b) (h : Crossed t a b t') : Sequential t a b t' := by
  obtain ⟨write₁, write₂, stamp₁, stamp₂, t₁, ha, hb, h₁, h₂⟩ := h
  obtain ⟨write, hread, hwrite⟩ := harmless_read hrange hh ha hb h₁
  refine ⟨stamp₁, stamp₂, t₁, ?_, ?_⟩
  · unfold RuleEdit.alone
    rw [ha]
    exact congrArg Except.toOption h₁
  · unfold RuleEdit.alone
    rw [hread]
    exact congrArg Except.toOption ((hwrite stamp₂ t₁).trans h₂)

end

/-! ## Crossings that make a difference -/

/-- Some rule has these settings. -/
def RulesTable.Has (t : RulesTable) (x : TransferRule) : Prop := ∃ r ∈ t.table.rows, portable r = x

/-- Some other rule than `id` has these settings. -/
def RulesTable.HasBeside (t : RulesTable) (id : Uuid) (x : TransferRule) : Prop :=
  ∃ r ∈ t.table.rows, r.id ≠ id ∧ portable r = x

section
variable {t t' : RulesTable} {id : Uuid} {rule r : RuleRecord} {now : ℤ} {x : TransferRule}

theorem hasBeside_updateRule (h : updateRule rule now t = .ok t') (hid : rule.id = id) :
    t'.HasBeside id x ↔ t.HasBeside id x := by
  unfold RulesTable.HasBeside
  rw [updateRule_rows h]
  constructor
  · rintro ⟨r', hr', hne, rfl⟩
    obtain ⟨r, hr, rfl⟩ := List.mem_map.1 hr'
    split_ifs at hne ⊢ with hc
    · exact absurd (hc.trans hid) hne
    · exact ⟨r, hr, hne, rfl⟩
  · rintro ⟨r, hr, hne, rfl⟩
    refine ⟨r, List.mem_map.2 ⟨r, hr, ?_⟩, hne, rfl⟩
    rw [if_neg fun hc => hne (hc.trans hid)]

theorem has_updateRule (h : updateRule rule now t = .ok t') (hid : rule.id = id)
    (hr : getRule id t = some r) : t'.Has x ↔ x = portable rule ∨ t.HasBeside id x := by
  rw [← hasBeside_updateRule h hid]
  have hnew := getRule_updateRule h hr
  rw [if_pos hid.symm] at hnew
  constructor
  · rintro ⟨r', hr', rfl⟩
    by_cases hc : r'.id = id
    · have heq : getRule id t' = some r' := Table.get?_eq_some.2 ⟨hr', hc⟩
      rw [hnew] at heq
      cases heq
      exact .inl rfl
    · exact .inr ⟨r', hr', hc, rfl⟩
  · rintro (rfl | ⟨r', hr', -, rfl⟩)
    · exact ⟨_, Table.mem_of_get? hnew, rfl⟩
    · exact ⟨r', hr', rfl⟩

/-- No other rule has the settings of the one that was written. -/
theorem not_hasBeside_updateRule (h : updateRule rule now t = .ok t') (hid : rule.id = id)
    (hr : getRule id t = some r) : ¬ t.HasBeside id (portable rule) := by
  rw [← hasBeside_updateRule h hid]
  rintro ⟨r', hr', hne, heq⟩
  have hnew := getRule_updateRule h hr
  rw [if_pos hid.symm] at hnew
  refine hne ?_
  rw [t'.eq_of_name hr' (Table.mem_of_get? hnew) (congrArg RuleSettings.name heq)]
  exact Table.get?_key hnew

theorem has_saveRule {form : RuleForm} {position : ℤ} {id' : Uuid}
    (h : saveRule (newRule form position) id' now t = .ok t') :
    t'.Has x ↔ t.Has x ∨ x = portable (newRule form position) := by
  unfold RulesTable.Has
  rw [StoredRules.insert_ok h]
  constructor
  · rintro ⟨r', hr', rfl⟩
    rcases List.mem_append.1 hr' with hr' | hr'
    · exact .inl ⟨r', hr', rfl⟩
    · rw [List.mem_singleton.1 hr']
      exact .inr rfl
  · rintro (⟨r', hr', rfl⟩ | rfl)
    · exact ⟨r', List.mem_append_left _ hr', rfl⟩
    · exact ⟨_, List.mem_append_right _ (List.mem_singleton_self _), rfl⟩

/-- The name of a new rule is new. -/
theorem name_of_saveRule {form : RuleForm} {position : ℤ} {id' : Uuid}
    (h : saveRule (newRule form position) id' now t = .ok t') (hx : t.Has x) : x.name ≠ form.name := by
  obtain ⟨r', hr', rfl⟩ := hx
  have hn := t'.names
  rw [StoredRules.insert_ok h, List.map_append, List.nodup_append] at hn
  exact hn.2.2 _ (List.mem_map_of_mem hr') _ (List.mem_singleton_self _)

end

section
variable {t t' t'' : RulesTable} {a b : RuleEdit} {id : Uuid} {f g : RuleRecord → RuleRecord}

theorem alone_some {e : RuleEdit} {stamp : Uuid × ℤ} (h : e.alone stamp t = some t') :
    ∃ write, e.read t = some write ∧ write.run stamp t = .ok t' := by
  obtain ⟨write, hread, hrun⟩ := Option.bind_eq_some_iff.1 h
  refine ⟨write, hread, ?_⟩
  cases hw : write.run stamp t with
  | error e =>
    rw [hw] at hrun
    cases hrun
  | ok t₁ =>
    rw [hw] at hrun
    cases hrun
    rfl

theorem alone_target {e : RuleEdit} (h : e.target = some (id, f)) {stamp : Uuid × ℤ}
    (halone : e.alone stamp t = some t') :
    ∃ r, getRule id t = some r ∧ updateRule (f r) stamp.2 t = .ok t' := by
  obtain ⟨write, hread, hrun⟩ := alone_some halone
  obtain ⟨r, hr, rfl⟩ := read_target_some h hread
  exact ⟨r, hr, hrun⟩

/-- What two edits of one rule leave, one after the other. -/
theorem has_sequential (ha : a.target = some (id, f)) (hb : b.target = some (id, g)) {r : RuleRecord}
    (hr : getRule id t = some r) (h : Sequential t a b t') {x : TransferRule} :
    t'.Has x ↔ x = portable (g (f r)) ∨ t.HasBeside id x := by
  obtain ⟨stamp₁, stamp₂, t₁, h₁, h₂⟩ := h
  obtain ⟨r₁, hr₁, h₁⟩ := alone_target ha h₁
  rw [hr] at hr₁
  cases hr₁
  obtain ⟨r₂, hr₂, h₂⟩ := alone_target hb h₂
  have hid : (f r).id = id := (target_id ha r).trans (Table.get?_key hr)
  have hid₂ : (g r₂).id = id := (target_id hb r₂).trans (Table.get?_key hr₂)
  have hnew := getRule_updateRule h₁ hr
  rw [if_pos hid.symm, hr₂] at hnew
  cases hnew
  rw [has_updateRule h₂ hid₂ hr₂, hasBeside_updateRule h₁ hid,
    target_settings hb (portable_overwrite _ _ _)]

/-- **A crossing of two edits of one rule** is serial only if it is harmless. -/
theorem not_serial_rows (ha : a.target = some (id, f)) (hb : b.target = some (id, g))
    (hc : Crossed t a b t') (h : Serialisable t a b t') : Harmless t a b := by
  obtain ⟨write₁, write₂, stamp₁, stamp₂, t₁, hreada, hreadb, h₁, h₂⟩ := hc
  obtain ⟨r, hr, rfl⟩ := read_target_some ha hreada
  obtain ⟨r', hr', rfl⟩ := read_target_some hb hreadb
  rw [hr] at hr'
  cases hr'
  rw [harmless_row ha hb (Table.mem_of_get? hr) (Table.get?_key hr)]
  have hid : (f r).id = id := (target_id ha r).trans (Table.get?_key hr)
  have hid₂ : (g r).id = id := (target_id hb r).trans (Table.get?_key hr)
  have hr₁ := getRule_updateRule h₁ hr
  rw [if_pos hid.symm] at hr₁
  have hlast : t'.Has (portable (g r)) := (has_updateRule h₂ hid₂ hr₁).2 (.inl rfl)
  have hbeside : ¬ t.HasBeside id (portable (g r)) := by
    rw [← hasBeside_updateRule h₁ hid]
    exact not_hasBeside_updateRule h₂ hid₂ hr₁
  obtain ⟨t'', hseq | hseq, hsame⟩ := h
  · rcases (has_sequential ha hb hr hseq).1 ((hsame _).2 hlast) with heq | hcon
    · exact heq.symm
    · exact absurd hcon hbeside
  · rcases (has_sequential hb ha hr hseq).1 ((hsame _).2 hlast) with heq | hcon
    · exact settings_of_reverse ha hb heq.symm
    · exact absurd hcon hbeside

end

section
variable {t t' : RulesTable} {f g : RuleForm}

theorem alone_create {stamp : Uuid × ℤ} (h : (RuleEdit.create f).alone stamp t = some t') :
    saveRule (newRule f (nextRulePosition t)) stamp.1 stamp.2 t = .ok t' := by
  obtain ⟨write, hread, hrun⟩ := alone_some h
  cases hread
  exact hrun

/-- What two creates leave, one after the other. -/
theorem has_sequential_creates (h : Sequential t (.create f) (.create g) t')
    (hrange : ∀ r ∈ t.table.rows, minInt64 ≤ r.position ∧ r.position ≤ maxInt64) :
    ∃ position, (position = nextRulePosition t → ∃ r ∈ t.table.rows, r.position = maxInt64) ∧
      ∀ x, t'.Has x ↔ (t.Has x ∨ x = portable (newRule f (nextRulePosition t))) ∨
        x = portable (newRule g position) := by
  obtain ⟨stamp₁, stamp₂, t₁, h₁, h₂⟩ := h
  have h₁ := alone_create h₁
  have h₂ := alone_create h₂
  refine ⟨nextRulePosition t₁, (nextRulePosition_saveRule hrange h₁).1, fun x => ?_⟩
  rw [has_saveRule h₂, has_saveRule h₁]

/-- **A crossing of two creates** is serial only if no position is left. -/
theorem not_serial_creates (hrange : ∀ r ∈ t.table.rows, minInt64 ≤ r.position ∧ r.position ≤ maxInt64)
    (hc : Crossed t (.create f) (.create g) t') (h : Serialisable t (.create f) (.create g) t') :
    Harmless t (.create f) (.create g) := by
  obtain ⟨write₁, write₂, stamp₁, stamp₂, t₁, ha, hb, h₁, h₂⟩ := hc
  cases ha
  cases hb
  have hhas : ∀ x, t'.Has x ↔ (t.Has x ∨ x = portable (newRule f (nextRulePosition t))) ∨
      x = portable (newRule g (nextRulePosition t)) := fun x => by
    rw [has_saveRule h₂, has_saveRule h₁]
  -- the two names are new and differ
  have hnames : f.name ≠ g.name := name_of_saveRule h₂ ((has_saveRule h₁).2 (.inr rfl))
  obtain ⟨t'', hseq | hseq, hsame⟩ := h
  · obtain ⟨position, hposition, hseq⟩ := has_sequential_creates hseq hrange
    have hlast := (hseq _).1 ((hsame _).2 ((hhas _).2 (.inr rfl)))
    rcases hlast with (hold | heq) | heq
    · exact absurd rfl (name_of_saveRule h₂ ((has_saveRule h₁).2 (.inl hold)))
    · exact absurd (congrArg RuleSettings.name heq).symm hnames
    · exact hposition (congrArg RuleSettings.position heq).symm
  · obtain ⟨position, hposition, hseq⟩ := has_sequential_creates hseq hrange
    have hfirst := (hseq _).1 ((hsame _).2 ((hhas _).2 (.inl (.inr rfl))))
    rcases hfirst with (hold | heq) | heq
    · exact absurd rfl (name_of_saveRule h₁ hold)
    · exact absurd (congrArg RuleSettings.name heq) hnames
    · exact hposition (congrArg RuleSettings.position heq).symm

end

/-! ## Main result -/

section
variable {t t' : RulesTable} {a b : RuleEdit}

theorem Serialisable.symm (h : Serialisable t a b t') : Serialisable t b a t' := by
  obtain ⟨t'', hseq, hsame⟩ := h
  exact ⟨t'', hseq.symm, hsame⟩

theorem crossed_serial_iff (hrange : ∀ r ∈ t.table.rows, minInt64 ≤ r.position ∧ r.position ≤ maxInt64)
    (hc : Crossed t a b t') : Serialisable t a b t' ↔ Harmless t a b := by
  constructor
  · intro h
    rcases create_or_target a with ⟨f, rfl⟩ | ⟨i, f, ha⟩
    · rcases create_or_target b with ⟨g, rfl⟩ | ⟨j, g, hb⟩
      · exact not_serial_creates hrange hc h
      · cases b with
        | create g => cases hb
        | update j g => trivial
        | toggle j => trivial
    · rcases create_or_target b with ⟨g, rfl⟩ | ⟨j, g, hb⟩
      · cases a with
        | create f => cases ha
        | update i f => trivial
        | toggle i => trivial
      · by_cases hij : i = j
        · subst hij
          exact not_serial_rows ha hb hc h
        · exact harmless_of_ne ha hb hij
  · intro hh
    exact ⟨t', .inl (sequential_of_harmless hrange hh hc), fun _ => Iff.rfl⟩

end

/-- **Concurrent edits are serialisable** iff they do not cross, or the crossing
    is harmless. -/
theorem edits_serialisable_iff {t : RulesTable} {a b : RuleEdit} {es : List RulesEvent} {w : RulesWorld}
    (hrange : ∀ r ∈ t.table.rows, minInt64 ≤ r.position ∧ r.position ≤ maxInt64)
    (h : Run RulesWorld.step (Between 0 1) (twoRequests t a b) es w)
    (hdone : w.requests 0 = .done ∧ w.requests 1 = .done) :
    Serialisable t a b w.rules ↔
      (crossing es = some 0 → Harmless t a b) ∧ (crossing es = some 1 → Harmless t b a) := by
  rcases run_two h hdone with ⟨hes, hseq⟩ | ⟨hes, hc⟩ | ⟨hes, hc⟩
  · rw [hes]
    refine iff_of_true ⟨w.rules, hseq, fun _ => Iff.rfl⟩ (by simp)
  · rw [hes, crossed_serial_iff hrange hc]
    simp
  · rw [hes]
    have hiff : Serialisable t a b w.rules ↔ Serialisable t b a w.rules := ⟨.symm, .symm⟩
    rw [hiff, crossed_serial_iff hrange hc]
    simp

/-- The calls of two requests in an order. -/
def callsOfTwo (order : List ℕ) : List RulesEvent := order.map fun n => .call n fun _ => (n + 10, n + 100)

/-- Both requests read before either writes. -/
def crossedCalls : List RulesEvent := callsOfTwo [0, 1, 0, 0, 0, 1, 1, 1]

theorem crossedCalls_run {t : RulesTable} {a b : RuleEdit}
    (h : (exec RulesWorld.step (twoRequests t a b) crossedCalls).map
      (fun w => (w.requests 0, w.requests 1)) = some (.done, .done)) :
    ∃ w, Run RulesWorld.step (Between 0 1) (twoRequests t a b) crossedCalls w ∧
      w.requests 0 = .done ∧ w.requests 1 = .done := by
  obtain ⟨w, hw, hdone⟩ := Option.map_eq_some_iff.1 h
  refine ⟨w, Run.of_exec (fun e he _ => ?_) hw, congrArg Prod.fst hdone, congrArg Prod.snd hdone⟩
  obtain ⟨n, hn, rfl⟩ := List.mem_map.1 he
  have hn' : n = 0 ∨ n = 1 := by
    simp only [List.mem_cons, List.not_mem_nil, or_false] at hn
    tauto
  rcases hn' with rfl | rfl
  · exact ⟨_, .inl rfl⟩
  · exact ⟨_, .inr rfl⟩

theorem edits_serialisable_sample : ∃ w,
    Run RulesWorld.step (Between 0 1) (twoRequests onePosition (.toggle 1) (.toggle 2)) crossedCalls w ∧
      (Serialisable onePosition (.toggle 1) (.toggle 2) w.rules ↔
        (crossing crossedCalls = some 0 → Harmless onePosition (.toggle 1) (.toggle 2)) ∧
          (crossing crossedCalls = some 1 → Harmless onePosition (.toggle 2) (.toggle 1))) := by
  obtain ⟨w, hrun, hdone⟩ := crossedCalls_run (t := onePosition) (a := .toggle 1) (b := .toggle 2)
    (by decide +kernel)
  exact ⟨w, hrun, edits_serialisable_iff (by decide) hrun hdone⟩

/-- Two toggles of one rule that cross do not cancel out. -/
theorem crossed_toggles : ∃ w,
    Run RulesWorld.step (Between 0 1) (twoRequests onePosition (.toggle 1) (.toggle 1)) crossedCalls w ∧
      (w.requests 0 = .done ∧ w.requests 1 = .done) ∧
      ¬ Serialisable onePosition (.toggle 1) (.toggle 1) w.rules := by
  obtain ⟨w, hrun, hdone⟩ := crossedCalls_run (t := onePosition) (a := .toggle 1) (b := .toggle 1)
    (by decide +kernel)
  refine ⟨w, hrun, hdone, fun hserial => ?_⟩
  rcases run_two hrun hdone with ⟨hes, -⟩ | ⟨-, hc⟩ | ⟨-, hc⟩
  · cases hes
  · exact not_serial_rows rfl rfl hc hserial rfl
  · exact not_serial_rows rfl rfl hc hserial rfl

end Mailrelay
