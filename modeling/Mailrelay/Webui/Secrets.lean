/-
  The signing secrets of pending deliveries, while rules are edited.

  An attempt finds its secret in the engine, and the engine holds the enabled
  rules of some earlier state of the table.  `SecretsWorld` runs edits and
  attempts in any order; its ghost fields say which state of the table a list
  of rules was read from, and what each attempt saw.

  * `signingSecret_storedRules`: the secrets that a reload makes available;
  * `gone_iff`: when an attempt fails for want of a secret;
  * `dies_only_without_secret_iff`: the main result;
  * `backed_of_current`: a rule that is enabled is enough, when the engine is
    up to date.
-/
import Mailrelay.Webhook.Queue
import Mailrelay.Webui.Reload

namespace Mailrelay

open Lib

/-! ## Attempts -/

/-- The delivery is signed, and nothing but the secret can be missing. -/
def AwaitsSecret (rt : Runtime) (job : QueuedDelivery) (name : String) : Prop :=
  ∃ snap, rt.unmarshalSnapshot job.snapshot = .ok snap ∧ snap.payloadError = "" ∧
    snap.signed = true ∧ snap.rule.name = name

/-- `runQueued` gives up because `resolveSecret` fails. -/
def SecretGone (rt : Runtime) (rules : List Rule) (job : QueuedDelivery) (name : String) : Prop :=
  ∃ snap, rt.unmarshalSnapshot job.snapshot = .ok snap ∧ snap.payloadError = "" ∧
    snap.rule.name = name ∧ ∃ e, resolveSecret rt rules snap = .error e

/-- The result is final, and says why. -/
theorem SecretGone.result {rt : Runtime} {rules : List Rule} {job : QueuedDelivery} {name : String}
    (h : SecretGone rt rules job name) :
    prepare rt rules job = .error ⟨job.ruleName, .error, 0,
      "signing secret for rule " ++ rt.quote name ++ " is no longer available", "", job.attempts⟩ := by
  obtain ⟨snap, hs, hp, rfl, e, he⟩ := h
  have htext : e = "signing secret for rule " ++ rt.quote snap.rule.name ++ " is no longer available" := by
    unfold resolveSecret at he
    split at he
    · cases he
    · dsimp only at he
      split at he
      · split_ifs at he
        cases he
        rfl
      · cases he
        rfl
  unfold prepare
  simp only [hs, hp, he, ne_eq, not_true_eq_false, if_false]
  rw [htext]

theorem gone_iff {rt : Runtime} {rules : List Rule} {job : QueuedDelivery} {name : String} :
    SecretGone rt rules job name ↔
      AwaitsSecret rt job name ∧ ¬ ∃ secret, secret ≠ "" ∧ signingSecret rules name = some secret := by
  constructor
  · rintro ⟨snap, hs, hp, rfl, e, he⟩
    unfold resolveSecret at he
    split at he
    · cases he
    · rename_i hsigned
      refine ⟨⟨snap, hs, hp, by simpa using hsigned, rfl⟩, ?_⟩
      rintro ⟨secret, hne, hf⟩
      simp [hf, hne] at he
  · rintro ⟨⟨snap, hs, hp, hsigned, rfl⟩, hnone⟩
    refine ⟨snap, hs, hp, rfl, ?_⟩
    unfold resolveSecret
    rw [hsigned]
    simp only [Bool.not_true, Bool.false_eq_true, if_false]
    split
    · rename_i secret hf
      have he : secret = "" := by
        by_contra hne
        exact hnone ⟨secret, hne, hf⟩
      exact ⟨_, by rw [if_neg (by simpa using he)]⟩
    · exact ⟨_, rfl⟩

/-! ## Secrets and tables -/

/-- A rule of that name has a secret. -/
def RulesTable.HoldsSecret (t : RulesTable) (name : String) : Prop :=
  ∃ r ∈ t.table.rows, r.name = name ∧ r.webhook.signingSecret ≠ ""

/-- An enabled one has. -/
def RulesTable.OffersSecret (t : RulesTable) (name : String) : Prop :=
  ∃ r ∈ t.table.rows, r.name = name ∧ r.enabled = true ∧ r.webhook.signingSecret ≠ ""

instance (t : RulesTable) (name : String) : Decidable (t.HoldsSecret name) :=
  inferInstanceAs (Decidable (∃ r ∈ t.table.rows, _))

instance (t : RulesTable) (name : String) : Decidable (t.OffersSecret name) :=
  inferInstanceAs (Decidable (∃ r ∈ t.table.rows, _))

/-- The first rule of a name is the only one. -/
theorem find?_storedRules {t : RulesTable} {name : String} {r : RuleRecord}
    (hr : r ∈ listEnabledRules t) (hn : r.name = name) :
    (storedRules t).find? (fun r => r.name == name) = some r.toRule := by
  refine (find?_key_eq_some ?_).2 ⟨List.mem_map_of_mem hr, hn⟩
  intro rule hrule rule' hrule' hname
  obtain ⟨r₁, hr₁, rfl⟩ := List.mem_map.1 hrule
  obtain ⟨r₂, hr₂, rfl⟩ := List.mem_map.1 hrule'
  rw [t.eq_of_name (mem_listEnabledRules.1 hr₁).1 (mem_listEnabledRules.1 hr₂).1 hname]

theorem signingSecret_storedRules {t : RulesTable} {name : String} :
    (∃ secret, secret ≠ "" ∧ signingSecret (storedRules t) name = some secret) ↔
      t.OffersSecret name := by
  constructor
  · rintro ⟨secret, hne, hs⟩
    obtain ⟨rule, hfind, rfl⟩ := Option.map_eq_some_iff.1 hs
    obtain ⟨r, hr, rfl⟩ := List.mem_map.1 (List.mem_of_find?_eq_some hfind)
    obtain ⟨hmem, hen⟩ := mem_listEnabledRules.1 hr
    exact ⟨r, hmem, by simpa [StoredRule.toRule] using List.find?_some hfind, hen, hne⟩
  · rintro ⟨r, hmem, hn, hen, hne⟩
    refine ⟨r.webhook.signingSecret, hne, ?_⟩
    unfold signingSecret
    rw [find?_storedRules (mem_listEnabledRules.2 ⟨hmem, hen⟩) hn]
    rfl

/-! ## Edits and attempts -/

/-- What an attempt saw: the rules of the engine, the table, and the state of
    the table that the rules of the engine were read from. -/
structure AttemptSeen where
  job : QueuedDelivery
  engine : List Rule
  table : RulesTable
  source : RulesTable

structure SecretsWorld where
  base : RulesWorld
  /-- the table that the engine's rules were read from -/
  source : RulesTable
  /-- the table that a request in flight read its rules from -/
  read : ℕ → RulesTable
  attempts : List AttemptSeen

inductive SecretsEvent where
  | edit (e : RulesEvent)
  | attempt (job : QueuedDelivery)

namespace SecretsWorld

def start (rules : RulesTable) : SecretsWorld := ⟨.start rules, rules, fun _ => rules, []⟩

/-- The ghost fields follow the calls of `reloadRules`. -/
def follow (w : SecretsWorld) (base : RulesWorld) (n : ℕ) : RequestPhase → SecretsWorld
  | .committed => { w with base := base, read := Function.update w.read n w.base.rules }
  | .loaded _ => { w with base := base, source := w.read n }
  | _ => { w with base := base }

def step (w : SecretsWorld) : SecretsEvent → Option SecretsWorld
  | .edit (.request n request) =>
    (w.base.step (.request n request)).map fun base => { w with base := base }
  | .edit (.call n stamp) =>
    (w.base.step (.call n stamp)).map fun base => w.follow base n (w.base.requests n)
  | .attempt job =>
    some { w with attempts := ⟨job, w.base.engine, w.base.rules, w.source⟩ :: w.attempts }

/-- The ghost fields mean what they say. -/
structure Traced (w : SecretsWorld) : Prop where
  engine : w.base.engine = storedRules w.source
  loaded : ∀ n l, w.base.requests n = .loaded l → l = storedRules (w.read n)
  attempts : ∀ a ∈ w.attempts, a.engine = storedRules a.source

theorem traced_start (rules : RulesTable) : (start rules).Traced := ⟨rfl, nofun, nofun⟩

variable {w w' : SecretsWorld}

/-- A request that installs nothing leaves the source alone. -/
theorem follow_of_ne {base : RulesWorld} {n : ℕ} {ph : RequestPhase} (hl : ∀ l, ph ≠ .loaded l) :
    ∃ t, w.follow base n ph = { w with base := base, read := Function.update w.read n t } := by
  cases ph with
  | committed => exact ⟨w.base.rules, rfl⟩
  | loaded l => exact absurd rfl (hl l)
  | done | started | positioned | fetched | listed =>
    exact ⟨w.read n, by rw [Function.update_eq_self]; rfl⟩

/-- A step of request `n` that leaves the engine alone. -/
theorem Traced.setRequest (h : w.Traced) (base : RulesWorld) (n : ℕ) (ph : RequestPhase) (t : RulesTable)
    (he : base.engine = w.base.engine) (hr : base.requests = w.base.requests)
    (hph : ∀ l, ph = .loaded l → l = storedRules t) :
    Traced { w with base := base.setRequest n ph, read := Function.update w.read n t } where
  engine := he.trans h.engine
  loaded m l hm := by
    by_cases hmn : m = n
    · subst hmn
      rw [RulesWorld.setRequest_self] at hm
      simp only [Function.update_self]
      exact hph l hm
    · rw [RulesWorld.setRequest_of_ne _ _ hmn, hr] at hm
      simp only [Function.update_of_ne hmn]
      exact h.loaded m l hm
  attempts := h.attempts

theorem Traced.install (h : w.Traced) {n : ℕ} {rules : List Rule}
    (hl : w.base.requests n = .loaded rules) :
    Traced { w with
      base := RulesWorld.setRequest { w.base with engine := rules } n .done, source := w.read n } where
  engine := h.loaded n rules hl
  loaded m l hm := by
    by_cases hmn : m = n
    · subst hmn
      rw [RulesWorld.setRequest_self] at hm
      cases hm
    · rw [RulesWorld.setRequest_of_ne _ _ hmn] at hm
      exact h.loaded m l hm
  attempts := h.attempts

theorem traced_call (h : w.Traced) {n : ℕ} {base : RulesWorld} (hc : Called w.base n base) :
    (w.follow base n (w.base.requests n)).Traced := by
  cases hc with
  | moves hl _ hph =>
    obtain ⟨t, ht⟩ := follow_of_ne (w := w) (n := n) hl
    rw [ht]
    exact h.setRequest _ _ _ _ rfl rfl fun l he => absurd he (hph l)
  | commits hl =>
    obtain ⟨t, ht⟩ := follow_of_ne (w := w) (n := n) hl
    rw [ht]
    exact h.setRequest _ _ _ _ rfl rfl (by rintro l ⟨⟩)
  | reads hcom =>
    rw [hcom]
    exact h.setRequest _ _ _ _ rfl rfl (by rintro l ⟨⟩; rfl)
  | installs hl =>
    rw [hl]
    exact h.install hl

theorem traced_step {e : SecretsEvent} (h : w.Traced) (hs : w.step e = some w') : w'.Traced := by
  cases e with
  | edit e =>
    cases e with
    | request n request =>
      obtain ⟨base, hb, rfl⟩ := Option.map_eq_some_iff.1 hs
      simp only [RulesWorld.step] at hb
      split_ifs at hb
      cases hb
      have := h.setRequest w.base n (.started request) (w.read n) rfl rfl
        (by rintro l ⟨⟩)
      rwa [Function.update_eq_self] at this
    | call n stamp =>
      obtain ⟨base, hb, rfl⟩ := Option.map_eq_some_iff.1 hs
      exact traced_call h (call_called hb)
  | attempt job =>
    cases hs
    refine ⟨h.engine, h.loaded, fun a ha => ?_⟩
    rcases List.mem_cons.1 ha with rfl | ha
    · exact h.engine
    · exact h.attempts a ha

theorem traced_of_reach {rules : RulesTable} (h : Reach step (start rules) w) : w.Traced :=
  h.inv (fun _ _ _ hi hs => traced_step hi hs) (traced_start rules)

end SecretsWorld

/-! ## When a delivery dies -/

/-- A delivery that dies for want of a secret has none in the table. -/
def AttemptSeen.Justified (rt : Runtime) (a : AttemptSeen) : Prop :=
  ∀ name, SecretGone rt a.engine a.job name → ¬ a.table.HoldsSecret name

/-- If the table has a secret for the delivery, then the engine was given the
    rules of a state in which an enabled rule of that name had one. -/
def AttemptSeen.Backed (rt : Runtime) (a : AttemptSeen) : Prop :=
  ∀ name, AwaitsSecret rt a.job name → a.table.HoldsSecret name → a.source.OffersSecret name

theorem justified_iff {rt : Runtime} {a : AttemptSeen} (h : a.engine = storedRules a.source) :
    a.Justified rt ↔ a.Backed rt := by
  unfold AttemptSeen.Justified AttemptSeen.Backed
  refine forall_congr' fun name => ?_
  rw [h, gone_iff, signingSecret_storedRules]
  tauto

/-- **A delivery dies for want of a secret only when it is gone**, in the runs
    whose attempts are backed, and in no others. -/
theorem dies_only_without_secret_iff (rt : Runtime) (rules : RulesTable) (es : List SecretsEvent)
    (w : SecretsWorld) (hrun : Run SecretsWorld.step (fun _ _ => True) (.start rules) es w) :
    (∀ a ∈ w.attempts, a.Justified rt) ↔ ∀ a ∈ w.attempts, a.Backed rt := by
  have htraced := SecretsWorld.traced_of_reach hrun.reach
  exact forall₂_congr fun a ha => justified_iff (htraced.attempts a ha)

/-- While the engine is up to date, a rule with a secret has to be enabled. -/
theorem backed_of_current {rt : Runtime} {w : SecretsWorld} (ht : w.Traced) {job : QueuedDelivery}
    (hcurrent : w.base.engine = storedRules w.base.rules)
    (henabled : ∀ r ∈ w.base.rules.table.rows, AwaitsSecret rt job r.name →
      r.webhook.signingSecret ≠ "" → r.enabled = true) :
    AttemptSeen.Backed rt ⟨job, w.base.engine, w.base.rules, w.source⟩ := by
  rintro name hawaits ⟨r, hr, rfl, hne⟩
  rw [← signingSecret_storedRules, ← ht.engine, hcurrent, signingSecret_storedRules]
  exact ⟨r, hr, rfl, henabled r hr hawaits hne, hne⟩

/-! ## A disabled rule -/

def secretRow (enabled : Bool) : RuleRecord :=
  ⟨1, "alerts", enabled, ⟨"", []⟩, (signedRule "s3cret").webhook, 0, 0, 0⟩

def secretRules : RulesTable := ⟨⟨[secretRow true], by simp⟩, by simp⟩

/-- Attempts before the rule is deleted, before the reload and after it. -/
def deletedEvents : List SecretsEvent :=
  [.attempt signedJob, .edit (.request 0 (.delete 1)), .edit (.call 0 sampleStamp), .attempt signedJob,
    .edit (.call 0 sampleStamp), .edit (.call 0 sampleStamp), .attempt signedJob]

theorem dies_only_without_secret_sample : ∃ w,
    exec SecretsWorld.step (.start secretRules) deletedEvents = some w ∧
      (∀ a ∈ w.attempts, a.Justified signedRuntime) ∧
      w.attempts.map (fun a => (a.engine.length, a.table.table.rows.length)) =
        [(0, 0), (1, 0), (1, 1)] := by
  have hs : ((exec SecretsWorld.step (.start secretRules) deletedEvents).map fun w =>
      (w.attempts.map (fun a => (a.engine.length, a.table.table.rows.length)),
        w.attempts.all fun a =>
          a.job == signedJob && decide (a.table.HoldsSecret "alerts" → a.source.OffersSecret "alerts"))) =
      some ([(0, 0), (1, 0), (1, 1)], true) := by decide +kernel
  obtain ⟨w, hw, h⟩ := Option.map_eq_some_iff.1 hs
  obtain ⟨hlengths, hall⟩ := Prod.mk.inj h
  refine ⟨w, hw, ?_, hlengths⟩
  refine (dies_only_without_secret_iff signedRuntime secretRules deletedEvents w
    (Run.of_exec (fun _ _ _ => trivial) hw)).2 fun a ha name hawaits hholds => ?_
  have hok := List.all_eq_true.1 hall a ha
  simp only [Bool.and_eq_true, beq_iff_eq, decide_eq_true_eq] at hok
  obtain ⟨hjob, hoffers⟩ := hok
  -- the delivery is of the rule `alerts`
  obtain ⟨snap, hsnap, -, -, rfl⟩ := hawaits
  have hread : signedRuntime.unmarshalSnapshot signedJob.snapshot = .ok signedSnapshot := by decide +kernel
  rw [hjob, hread] at hsnap
  cases hsnap
  exact hoffers hholds

/-- The rule is switched off, with its reload, and the delivery attempted. -/
def disabledEvents : List SecretsEvent :=
  [.edit (.request 0 (.toggle 1)), .edit (.call 0 sampleStamp), .edit (.call 0 sampleStamp),
    .edit (.call 0 sampleStamp), .edit (.call 0 sampleStamp), .attempt signedJob]

/-- **A delivery dies of a rule that is switched off**, although its secret is
    still stored. -/
theorem disabled_rule_kills : ∃ w, exec SecretsWorld.step (.start secretRules) disabledEvents = some w ∧
    ∃ a ∈ w.attempts, SecretGone signedRuntime a.engine a.job "alerts" ∧ a.table.HoldsSecret "alerts" := by
  have hs : ((exec SecretsWorld.step (.start secretRules) disabledEvents).map fun w =>
      w.attempts.map fun a => (a.job, a.engine, a.table.table.rows)) =
      some [(signedJob, [], [{ secretRow false with updatedAt := 100 }])] := by decide +kernel
  obtain ⟨w, hw, hattempts⟩ := Option.map_eq_some_iff.1 hs
  obtain ⟨a, hlist, ha⟩ : ∃ a, w.attempts = [a] ∧
      (a.job, a.engine, a.table.table.rows) =
        (signedJob, [], [{ secretRow false with updatedAt := 100 }]) := by
    rcases hl : w.attempts with _ | ⟨a, _ | ⟨b, l⟩⟩ <;> rw [hl] at hattempts
    · simp at hattempts
    · exact ⟨a, rfl, by simpa using hattempts⟩
    · simp at hattempts
  obtain ⟨hjob, hengine, hrows⟩ : a.job = signedJob ∧ a.engine = [] ∧
      a.table.table.rows = [{ secretRow false with updatedAt := 100 }] := by simpa using ha
  refine ⟨w, hw, a, by simp [hlist], ?_, ?_⟩
  · rw [hjob, hengine, gone_iff]
    refine ⟨⟨signedSnapshot, by decide +kernel, rfl, rfl, rfl⟩, ?_⟩
    rintro ⟨secret, -, hsecret⟩
    cases hsecret
  · refine ⟨_, by rw [hrows]; exact List.mem_singleton_self _, rfl, by decide⟩

end Mailrelay
