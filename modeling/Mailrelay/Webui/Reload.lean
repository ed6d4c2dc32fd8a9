/-
  Rule changes from the web UI (`internal/webui/handler.go`,
  `internal/webui/rules_transfer.go`) and the rules of the engine.

  A request commits its change, reads the enabled rules and hands them to the
  engine in three steps that nothing keeps together; `RulesWorld.step` takes
  one call of one request.  Requests that are refused before they change
  anything, or whose store call fails, are left out.

  * `current_step`: a step leads to `Current`, unless it installs a stale list
    although no other request is going to replace it;
  * `engine_runs_stored_rules`: the main result;
  * `stale_persists`: after a step that does, the engine stays stale however
    the requests in flight finish.
-/
import Mailrelay.Lib.Run
import Mailrelay.Storage.Rules

namespace Mailrelay

open Lib

/-! ## Requests -/

/-- The secret fields of the rule form. -/
structure SecretField where
  clear : Bool
  value : String
  deriving DecidableEq, Repr

def ruleSigningSecret (f : SecretField) (existing : String) : String :=
  if f.clear then ""
  else if f.value ≠ "" then f.value
  else existing

/-- A rule form that `parseRuleForm` accepted. -/
structure RuleForm where
  name : String
  «match» : MatcherConfig
  webhook : WebhookConfig
  secret : SecretField
  deriving DecidableEq, Repr

inductive RuleRequest where
  | create (form : RuleForm)
  | update (id : Uuid) (form : RuleForm)
  | toggle (id : Uuid)
  | delete (id : Uuid)
  | «import» (items : List TransferRule) (replace : Bool)
  deriving DecidableEq, Repr

/-- How far a request is. -/
inductive RequestPhase where
  | done
  /-- before its first store call -/
  | started (request : RuleRequest)
  /-- `handleRuleCreate`, before `SaveRule` -/
  | positioned (form : RuleForm) (position : ℤ)
  /-- `handleRuleUpdate` and `handleRuleToggle`, before `UpdateRule` -/
  | fetched (rule : RuleRecord)
  /-- `handleRulesImport`, before `ImportRules` -/
  | listed (items : List TransferRule) (replace : Bool)
  /-- `reloadRules`, before `ListEnabledRules` -/
  | committed
  /-- `reloadRules`, before `SetRules` -/
  | loaded (rules : List Rule)
  deriving DecidableEq, Repr

structure RulesWorld where
  rules : RulesTable
  /-- the rules of the engine -/
  engine : List Rule
  requests : ℕ → RequestPhase

/-- The rules that `reloadRules` reads. -/
def storedRules (t : RulesTable) : List Rule := (listEnabledRules t).map fun r => r.toRule

inductive RulesEvent where
  | request (n : ℕ) (request : RuleRequest)
  /-- the next call of a request, with fresh ids and clock readings -/
  | call (n : ℕ) (stamp : ℕ → Uuid × ℤ)

namespace RulesWorld

def setRequest (w : RulesWorld) (n : ℕ) (ph : RequestPhase) : RulesWorld :=
  { w with requests := Function.update w.requests n ph }

/-- The change of a request is committed. -/
def commit (w : RulesWorld) (n : ℕ) : Except DbError RulesTable → Option RulesWorld
  | .error _ => none
  | .ok rules => some ({ w with rules := rules }.setRequest n .committed)

/-- The rule that `handleRuleCreate` saves. -/
def newRule (form : RuleForm) (position : ℤ) : RuleRecord where
  id := 0
  name := form.name
  enabled := true
  «match» := form.«match»
  webhook := { form.webhook with signingSecret := ruleSigningSecret form.secret "" }
  position := position
  createdAt := 0
  updatedAt := 0

/-- The rule that `handleRuleUpdate` writes back. -/
def editRule (existing : RuleRecord) (form : RuleForm) : RuleRecord :=
  { existing with
    name := form.name, «match» := form.«match»
    webhook := { form.webhook with
      signingSecret := ruleSigningSecret form.secret existing.webhook.signingSecret } }

/-- One call of request `n`. -/
def call (w : RulesWorld) (n : ℕ) (stamp : ℕ → Uuid × ℤ) : RequestPhase → Option RulesWorld
  | .done => none
  | .started (.create form) =>
    some (w.setRequest n (.positioned form (nextRulePosition w.rules)))
  | .started (.update id form) =>
    (getRule id w.rules).map fun existing => w.setRequest n (.fetched (editRule existing form))
  | .started (.toggle id) =>
    (getRule id w.rules).map fun rule =>
      w.setRequest n (.fetched { rule with enabled := !rule.enabled })
  | .started (.delete id) => w.commit n (.ok (deleteRule id w.rules))
  | .started (.import items replace) => some (w.setRequest n (.listed items replace))
  | .positioned form position =>
    w.commit n (saveRule (newRule form position) (stamp 0).1 (stamp 0).2 w.rules)
  | .fetched rule => w.commit n (updateRule rule (stamp 0).2 w.rules)
  | .listed items replace => w.commit n (importRules items replace stamp w.rules)
  | .committed => some (w.setRequest n (.loaded (storedRules w.rules)))
  | .loaded rules => some ({ w with engine := rules }.setRequest n .done)

def step (w : RulesWorld) : RulesEvent → Option RulesWorld
  | .request n request =>
    if w.requests n = .done then some (w.setRequest n (.started request)) else none
  | .call n stamp => w.call n stamp (w.requests n)

/-- The engine holds the stored rules and no request is in flight. -/
def start (rules : RulesTable) : RulesWorld := ⟨rules, storedRules rules, fun _ => .done⟩

end RulesWorld

/-! ## The engine and the table -/

/-- A request that is going to hand the stored rules to the engine: it has not
    read them yet, or has read them as they are now. -/
def RequestPhase.refreshes (rules : RulesTable) : RequestPhase → Prop
  | done => False
  | loaded l => l = storedRules rules
  | _ => True

/-- The engine is up to date, or a request is going to bring it up to date. -/
def Current (w : RulesWorld) : Prop :=
  w.engine = storedRules w.rules ∨ ∃ n, (w.requests n).refreshes w.rules

/-- A list that is handed to the engine is up to date, or another request is
    going to replace it. -/
def RulesWorld.Fresh (w : RulesWorld) : RulesEvent → Prop
  | .request _ _ => True
  | .call n _ => ∀ rules, w.requests n = .loaded rules →
    rules = storedRules w.rules ∨ ∃ m, m ≠ n ∧ (w.requests m).refreshes w.rules

section
variable {w w' : RulesWorld} {n : ℕ}

@[simp] theorem RulesWorld.setRequest_self (w : RulesWorld) (n : ℕ) (ph : RequestPhase) :
    (w.setRequest n ph).requests n = ph := Function.update_self ..

theorem RulesWorld.setRequest_of_ne (w : RulesWorld) {m : ℕ} (ph : RequestPhase) (h : m ≠ n) :
    (w.setRequest n ph).requests m = w.requests m := Function.update_of_ne h ..

/-- What one call does: it moves on towards its commit, commits, reads the
    rules or hands them to the engine. -/
inductive Called (w : RulesWorld) (n : ℕ) : RulesWorld → Prop
  | moves {ph : RequestPhase} : (∀ l, w.requests n ≠ .loaded l) → w.requests n ≠ .done →
      (∀ l, ph ≠ .loaded l) → ph ≠ .done → Called w n (w.setRequest n ph)
  | commits {rules : RulesTable} : (∀ l, w.requests n ≠ .loaded l) → w.requests n ≠ .done →
      Called w n ({ w with rules := rules }.setRequest n .committed)
  | reads : w.requests n = .committed →
      Called w n (w.setRequest n (.loaded (storedRules w.rules)))
  | installs {rules : List Rule} : w.requests n = .loaded rules →
      Called w n ({ w with engine := rules }.setRequest n .done)

theorem commit_called {r : Except DbError RulesTable} (h₁ : ∀ l, w.requests n ≠ .loaded l)
    (h₂ : w.requests n ≠ .done) (h : w.commit n r = some w') : Called w n w' := by
  rcases r with e | rules
  · cases h
  · cases h; exact .commits h₁ h₂

theorem call_called {stamp : ℕ → Uuid × ℤ} (h : w.step (.call n stamp) = some w') :
    Called w n w' := by
  simp only [RulesWorld.step] at h
  have hne : ∀ {ph : RequestPhase}, w.requests n = ph → (∀ l, ph ≠ .loaded l) → ph ≠ .done →
      (∀ l, w.requests n ≠ .loaded l) ∧ w.requests n ≠ .done := by
    intro ph hw h₁ h₂
    rw [hw]
    exact ⟨h₁, h₂⟩
  rcases hw : w.requests n with _ | (form | ⟨id, form⟩ | id | id | ⟨items, replace⟩) |
      ⟨form, position⟩ | rule | ⟨items, replace⟩ | _ | rules <;>
    rw [hw] at h <;> simp only [RulesWorld.call] at h
  · cases h
  · obtain ⟨h₁, h₂⟩ := hne hw nofun nofun
    cases h
    exact .moves h₁ h₂ nofun nofun
  · obtain ⟨h₁, h₂⟩ := hne hw nofun nofun
    obtain ⟨existing, -, rfl⟩ := Option.map_eq_some_iff.1 h
    exact .moves h₁ h₂ nofun nofun
  · obtain ⟨h₁, h₂⟩ := hne hw nofun nofun
    obtain ⟨rule, -, rfl⟩ := Option.map_eq_some_iff.1 h
    exact .moves h₁ h₂ nofun nofun
  · obtain ⟨h₁, h₂⟩ := hne hw nofun nofun
    exact commit_called h₁ h₂ h
  · obtain ⟨h₁, h₂⟩ := hne hw nofun nofun
    cases h
    exact .moves h₁ h₂ nofun nofun
  · obtain ⟨h₁, h₂⟩ := hne hw nofun nofun
    exact commit_called h₁ h₂ h
  · obtain ⟨h₁, h₂⟩ := hne hw nofun nofun
    exact commit_called h₁ h₂ h
  · obtain ⟨h₁, h₂⟩ := hne hw nofun nofun
    exact commit_called h₁ h₂ h
  · cases h
    exact .reads hw
  · cases h
    exact .installs hw

theorem RequestPhase.refreshes_of_ne {ph : RequestPhase} {rules : RulesTable}
    (h₁ : ∀ l, ph ≠ .loaded l) (h₂ : ph ≠ .done) : ph.refreshes rules := by
  cases ph with
  | done => exact absurd rfl h₂
  | loaded l => exact absurd rfl (h₁ l)
  | started | positioned | fetched | listed | committed => trivial

/-- **A step leads to `Current`**, unless it installs a stale list last. -/
theorem current_step {e : RulesEvent} (hf : w.Fresh e) (hs : w.step e = some w') : Current w' := by
  cases e with
  | request n request =>
    simp only [RulesWorld.step] at hs
    split_ifs at hs
    cases hs
    exact Or.inr ⟨n, by rw [RulesWorld.setRequest_self]; trivial⟩
  | call n stamp =>
    cases call_called hs with
    | moves _ _ h₁ h₂ =>
      exact Or.inr ⟨n, by rw [RulesWorld.setRequest_self]; exact RequestPhase.refreshes_of_ne h₁ h₂⟩
    | commits => exact Or.inr ⟨n, by rw [RulesWorld.setRequest_self]; trivial⟩
    | reads => exact Or.inr ⟨n, by rw [RulesWorld.setRequest_self]; rfl⟩
    | installs hl =>
      rcases hf _ hl with hfresh | ⟨m, hm, href⟩
      · exact Or.inl hfresh
      · exact Or.inr ⟨m, by rw [RulesWorld.setRequest_of_ne _ _ hm]; exact href⟩

/-- **The engine runs the stored rules** whenever no request is in flight, in
    every run in which no stale list is the last one to be installed. -/
theorem engine_runs_stored_rules (rules : RulesTable) (es : List RulesEvent) (w : RulesWorld)
    (hrun : Run RulesWorld.step RulesWorld.Fresh (.start rules) es w)
    (hdone : ∀ n, w.requests n = .done) : w.engine = storedRules w.rules := by
  have hc : Current w :=
    hrun.inv (I := Current) (fun _ _ _ _ hf hs => current_step hf hs) (Or.inl rfl)
  rcases hc with he | ⟨n, hn⟩
  · exact he
  · rw [hdone n] at hn
    exact hn.elim

end

/-! ## A stale list -/

section
variable {w w' : RulesWorld} {n : ℕ}

/-- A step that is not `Fresh` leaves the engine stale. -/
theorem stale_of_not_fresh {e : RulesEvent} (hf : ¬ w.Fresh e) (hs : w.step e = some w') :
    ¬ Current w' := by
  cases e with
  | request => exact absurd trivial hf
  | call n stamp =>
    simp only [RulesWorld.Fresh, not_forall, not_or, not_exists, not_and] at hf
    obtain ⟨rules, hl, hne, hm⟩ := hf
    cases call_called hs with
    | moves h₁ | commits h₁ => exact absurd hl (h₁ rules)
    | reads h₁ => rw [hl] at h₁; cases h₁
    | installs hl' =>
      rw [hl] at hl'
      cases hl'
      rintro (he | ⟨m, href⟩)
      · exact hne he
      · by_cases hmn : m = n
        · subst hmn
          rw [RulesWorld.setRequest_self] at href
          exact href
        · rw [RulesWorld.setRequest_of_ne _ _ hmn] at href
          exact hm m hmn href

/-- The calls of the requests in flight do not bring it up to date. -/
theorem stale_call {stamp : ℕ → Uuid × ℤ} (h : ¬ Current w) (hs : w.step (.call n stamp) = some w') :
    ¬ Current w' := by
  simp only [Current, not_or, not_exists] at h
  obtain ⟨-, hn⟩ := h
  cases call_called hs with
  | moves h₁ h₂ | commits h₁ h₂ => exact absurd (RequestPhase.refreshes_of_ne h₁ h₂) (hn n)
  | reads h₁ =>
    refine absurd ?_ (hn n)
    rw [h₁]
    trivial
  | installs hl =>
    rintro (he | ⟨m, href⟩)
    · refine hn n ?_
      rw [hl]
      exact he
    · by_cases hmn : m = n
      · subst hmn
        rw [RulesWorld.setRequest_self] at href
        exact href
      · rw [RulesWorld.setRequest_of_ne _ _ hmn] at href
        exact hn m href

/-- **The condition is needed**: after a step that is not `Fresh` the engine
    stays stale, however the requests in flight finish. -/
theorem stale_persists {e : RulesEvent} {es : List RulesEvent} {w'' : RulesWorld}
    (hf : ¬ w.Fresh e) (hs : w.step e = some w')
    (hrun : Run RulesWorld.step (fun _ e => ∃ n stamp, e = .call n stamp) w' es w'') :
    w''.engine ≠ storedRules w''.rules := by
  have hc : ¬ Current w'' := by
    refine hrun.inv (I := fun w => ¬ Current w) (fun _ e' _ hi hp hs' => ?_) (stale_of_not_fresh hf hs)
    obtain ⟨n, stamp, rfl⟩ := hp
    exact stale_call hi hs'
  exact fun he => hc (Or.inl he)

/-- Requests that take no step stay as they are. -/
theorem step_requests {e : RulesEvent} {m : ℕ} (h : w.step e = some w')
    (hm : ∀ n stamp, e = .call n stamp → m ≠ n) (hr : ∀ n request, e = .request n request → m ≠ n) :
    w'.requests m = w.requests m := by
  cases e with
  | request n request =>
    simp only [RulesWorld.step] at h
    split_ifs at h
    cases h
    exact w.setRequest_of_ne _ (hr n request rfl)
  | call n stamp =>
    have hmn := hm n stamp rfl
    cases call_called h <;> exact RulesWorld.setRequest_of_ne _ _ hmn

end

def sampleRecord (id : Uuid) (name : String) : RuleRecord :=
  ⟨id, name, true, ⟨"", []⟩,
    ⟨"", "https://hooks.example.com/a", "POST", [], "", none, none, none, none, none⟩, id, 0, 0⟩

def sampleRules : RulesTable :=
  ⟨⟨[sampleRecord 1 "alerts", sampleRecord 2 "billing"], by decide⟩, by decide⟩

def sampleStamp (i : ℕ) : Uuid × ℤ := (i + 10, 100)

/-- One deletion. -/
theorem engine_runs_stored_rules_sample : ∃ w : RulesWorld,
    w.engine = storedRules w.rules ∧ w.engine.length = 1 := by
  have h₁ : ∀ {w : RulesWorld}, (∀ l, w.requests 0 ≠ .loaded l) → w.Fresh (.call 0 sampleStamp) :=
    fun h l hl => absurd hl (h l)
  have hrun : Run RulesWorld.step RulesWorld.Fresh (.start sampleRules)
      [.request 0 (.delete 1), .call 0 sampleStamp, .call 0 sampleStamp, .call 0 sampleStamp] _ :=
    .cons trivial rfl (.cons (h₁ nofun) rfl (.cons (h₁ nofun) rfl
      (.cons (fun l hl => Or.inl (RequestPhase.loaded.inj hl).symm) rfl .nil)))
  refine ⟨_, engine_runs_stored_rules sampleRules _ _ hrun fun n => ?_, rfl⟩
  rcases n with _ | n <;> rfl

/-- Two deletions whose reloads finish in the other order. -/
def crossedReloads : List RulesEvent :=
  [.request 0 (.delete 1), .request 1 (.delete 2),
    .call 0 sampleStamp, .call 0 sampleStamp,
    .call 1 sampleStamp, .call 1 sampleStamp, .call 1 sampleStamp,
    .call 0 sampleStamp]

/-- No request is in flight after two requests that are done. -/
theorem done_of_two {es : List RulesEvent} {w : RulesWorld}
    (h : exec RulesWorld.step (.start sampleRules) es = some w)
    (hes : ∀ e ∈ es, (∀ n stamp, e = .call n stamp → n < 2) ∧ ∀ n request, e = .request n request → n < 2)
    (h₀ : w.requests 0 = .done) (h₁ : w.requests 1 = .done) : ∀ n, w.requests n = .done := by
  have hrest : ∀ m, 2 ≤ m → w.requests m = .done := by
    refine (Run.of_exec (P := fun _ e => (∀ n stamp, e = .call n stamp → n < 2) ∧
      ∀ n request, e = .request n request → n < 2) (fun e he _ => hes e he) h).inv
      (I := fun w => ∀ m, 2 ≤ m → w.requests m = .done) (fun s e s' hi hp hs m hm => ?_)
      fun _ _ => rfl
    rw [step_requests hs (fun n stamp he => ?_) fun n request he => ?_]
    · exact hi m hm
    · have := hp.1 n stamp he
      omega
    · have := hp.2 n request he
      omega
  intro n
  rcases n with _ | _ | n
  · exact h₀
  · exact h₁
  · exact hrest _ (by omega)

/-- **A deleted rule that still fires.** -/
theorem stale_engine : ∃ es w, Run RulesWorld.step (fun _ _ => True) (.start sampleRules) es w ∧
    (∀ n, w.requests n = .done) ∧ w.engine ≠ storedRules w.rules := by
  have hs : ((exec RulesWorld.step (.start sampleRules) crossedReloads).map fun w =>
      decide (w.requests 0 = .done ∧ w.requests 1 = .done ∧ w.engine ≠ storedRules w.rules)) =
      some true := by decide +kernel
  obtain ⟨w, hw, hd⟩ := Option.map_eq_some_iff.1 hs
  obtain ⟨h₀, h₁, hne⟩ := of_decide_eq_true hd
  refine ⟨crossedReloads, w, Run.of_exec (fun _ _ _ => trivial) hw, done_of_two hw ?_ h₀ h₁, hne⟩
  simp [crossedReloads]

end Mailrelay
