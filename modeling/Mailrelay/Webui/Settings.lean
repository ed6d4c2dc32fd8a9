/-
  Saving the settings (`handleSettingsSave` in `internal/webui/handler.go`).

  The values that can be changed at run time are kept in six places: the
  configuration of the web UI, the `settings` row, the log level, the SMTP
  server, the dispatcher and the shared retention.  A request writes the first
  one under a lock and the others one after the other, so the writes of two
  requests may cross.  The retention is shared as an `int32`.

  * `parseSettings_range`: the values that a form can have;
  * `InStep`: every place has the values of the UI, or is going to get them;
    `inStep_step` keeps it along the steps that are `InOrder`;
  * `settings_agree`: the main result;
  * `outOfStep_persists`: a step that is not `InOrder` is not made good.
-/
import Mailrelay.Lib.Check
import Mailrelay.Lib.Run
import Mailrelay.Smtp.Auth

namespace Mailrelay

open Lib

/-! ## The form -/

/-- The values that are hot-reloadable. -/
structure Settings where
  logLevel : String
  auth : AuthConfig
  retry : RetryConfig
  retentionDays : ℤ
  deriving DecidableEq, Repr

structure SettingsForm where
  logLevel : String
  authSpf : String
  authDkim : String
  authDmarc : String
  maxRetries : String
  initialWaitSeconds : String
  maxWaitSeconds : String
  timeoutSeconds : String
  retryOnTimeout : String
  retentionDays : String
  deriving DecidableEq, Repr

def parseAuthMode (field value : String) : Except String AuthMode :=
  if value = "off" then .ok .off
  else if value = "log" then .ok .log
  else if value = "enforce" then .ok .enforce
  else .error ("Invalid auth mode for " ++ field ++ ".")

/-- A number that `strconv.Atoi` accepts and that is at least `least`. -/
def parseAtLeast (least : ℤ) (message value : String) : Except String ℤ :=
  match atoi value with
  | none => .error message
  | some n => if n < least then .error message else .ok n

/-- `time.Duration(n) * time.Second` -/
def seconds (n : ℤ) : Int64 := Int64.ofInt n * 1000000000

/-- The checks of `handleSettingsSave`.  The auth modes are in a map there; of
    several invalid ones any may be reported. -/
def parseSettings (form : SettingsForm) : Except String Settings := do
  check (form.logLevel ∉ ["debug", "info", "warn", "error"]) "Invalid log level."
  let spf ← parseAuthMode "auth_spf" form.authSpf
  let dkim ← parseAuthMode "auth_dkim" form.authDkim
  let dmarc ← parseAuthMode "auth_dmarc" form.authDmarc
  let maxRetries ← parseAtLeast 0 "Max retries must be a non-negative number." form.maxRetries
  let initialWait ← parseAtLeast 1 "Initial wait must be at least 1 second." form.initialWaitSeconds
  let maxWait ← parseAtLeast 1 "Max wait must be at least 1 second." form.maxWaitSeconds
  check (maxWait < initialWait) "Initial wait cannot exceed max wait."
  let timeout ← parseAtLeast 0
    "Request timeout must be 0 (no timeout) or a positive number of seconds." form.timeoutSeconds
  let retentionDays ← parseAtLeast 0 "Retention days must be a non-negative number." form.retentionDays
  pure {
    logLevel := form.logLevel
    auth := ⟨spf, dkim, dmarc⟩
    retry := ⟨maxRetries, seconds initialWait, seconds maxWait, seconds timeout,
      form.retryOnTimeout == "1"⟩
    retentionDays := retentionDays }

theorem parseAtLeast_ok {least n : ℤ} {message value : String}
    (h : parseAtLeast least message value = .ok n) : least ≤ n := by
  unfold parseAtLeast at h
  split at h
  · cases h
  · split_ifs at h with hn
    cases h
    omega

/-- The retention of a form is not negative. -/
theorem parseSettings_range {form : SettingsForm} {v : Settings} (h : parseSettings form = .ok v) :
    0 ≤ v.retentionDays := by
  unfold parseSettings at h
  obtain ⟨-, h⟩ := check_bind_ok.1 h
  obtain ⟨spf, -, h⟩ := bind_ok.1 h
  obtain ⟨dkim, -, h⟩ := bind_ok.1 h
  obtain ⟨dmarc, -, h⟩ := bind_ok.1 h
  obtain ⟨maxRetries, -, h⟩ := bind_ok.1 h
  obtain ⟨initialWait, -, h⟩ := bind_ok.1 h
  obtain ⟨maxWait, -, h⟩ := bind_ok.1 h
  obtain ⟨-, h⟩ := check_bind_ok.1 h
  obtain ⟨timeout, -, h⟩ := bind_ok.1 h
  obtain ⟨retentionDays, hdays, h⟩ := bind_ok.1 h
  cases h
  exact parseAtLeast_ok hdays

/-! ## Places -/

inductive LogLevel where
  | debug | info | warn | error
  deriving DecidableEq, Repr

/-- `setLogLevel` (`cmd/mailrelay/main.go`) -/
def slogLevel (level : String) : LogLevel :=
  if level = "debug" then .debug
  else if level = "warn" then .warn
  else if level = "error" then .error
  else .info

/-- Where settings are kept besides the UI, in the order of the writes. -/
inductive Place where
  | row | level | auth | retry | retention
  deriving DecidableEq, Repr

/-- What a place holds. -/
inductive Content where
  | row (v : Settings)
  | level (v : LogLevel)
  | auth (v : AuthConfig)
  | retry (v : RetryConfig)
  | retention (v : ℤ)
  deriving DecidableEq, Repr

namespace Place

def next : Place → Option Place
  | row => some level
  | level => some auth
  | auth => some retry
  | retry => some retention
  | retention => none

/-- What belongs into a place, for the given settings. -/
def wants (v : Settings) : Place → Content
  | row => .row v
  | level => .level (slogLevel v.logLevel)
  | auth => .auth v.auth
  | retry => .retry v.retry
  | retention => .retention v.retentionDays

/-- What the handler writes there. -/
def writes (v : Settings) : Place → Content
  | retention => .retention (Int32.ofInt v.retentionDays).toInt
  | p => p.wants v

/-- The turn of a place. -/
def rank : Place → ℕ
  | row => 0
  | level => 1
  | auth => 2
  | retry => 3
  | retention => 4

theorem rank_injective : Function.Injective rank := by
  intro p q h
  cases p <;> cases q <;> first | rfl | cases h

theorem rank_next {p q : Place} (h : p.next = some q) : q.rank = p.rank + 1 := by
  cases p <;> cases h <;> rfl

theorem rank_le_of_next_none {p : Place} (h : p.next = none) (q : Place) : q.rank ≤ p.rank := by
  cases p <;> cases h
  cases q <;> decide

theorem writes_eq_wants {v : Settings} (h₀ : 0 ≤ v.retentionDays) (h : v.retentionDays < 2 ^ 31)
    (p : Place) : p.writes v = p.wants v := by
  cases p with
  | retention =>
    unfold writes wants
    rw [Int32.toInt_ofInt_of_le (by omega) (by omega)]
  | row | level | auth | retry => rfl

end Place

/-! ## Requests -/

/-- How far a request is. -/
inductive SavePhase where
  | done
  /-- before the update under the lock -/
  | parsed (v : Settings)
  /-- before the write to a place -/
  | saving (v : Settings) (p : Place)
  deriving DecidableEq, Repr

/-- A request in flight is going to write what the UI has. -/
def SavePhase.Restores (config : Settings) (p : Place) : SavePhase → Prop
  | .saving v q => q.rank ≤ p.rank ∧ p.writes v = p.wants config
  | _ => False

structure SettingsWorld where
  config : Settings
  row : Settings
  level : LogLevel
  auth : AuthConfig
  retry : RetryConfig
  retention : Int32
  requests : ℕ → SavePhase

inductive SettingsEvent where
  | request (n : ℕ) (form : SettingsForm)
  | call (n : ℕ)
  deriving DecidableEq, Repr

namespace SettingsWorld

def holds (w : SettingsWorld) : Place → Content
  | .row => .row w.row
  | .level => .level w.level
  | .auth => .auth w.auth
  | .retry => .retry w.retry
  | .retention => .retention w.retention.toInt

def setRequest (w : SettingsWorld) (n : ℕ) (ph : SavePhase) : SettingsWorld :=
  { w with requests := Function.update w.requests n ph }

/-- `SaveSettings`, `LevelVar.Set`, `SetAuthConfig`, `SetRetryConfig` and
    `retentionDays.Store` -/
def write (w : SettingsWorld) (v : Settings) : Place → SettingsWorld
  | .row => { w with row := v }
  | .level => { w with level := slogLevel v.logLevel }
  | .auth => { w with auth := v.auth }
  | .retry => { w with retry := v.retry }
  | .retention => { w with retention := Int32.ofInt v.retentionDays }

def step (w : SettingsWorld) : SettingsEvent → Option SettingsWorld
  | .request n form =>
    match w.requests n, parseSettings form with
    | .done, .ok v => some (w.setRequest n (.parsed v))
    | _, _ => none
  | .call n =>
    match w.requests n with
    | .done => none
    | .parsed v => some ({ w with config := v }.setRequest n (.saving v .row))
    | .saving v p =>
      some ((w.write v p).setRequest n (match p.next with
        | some q => .saving v q
        | none => .done))

/-- The program starts with the settings `v`. -/
def start (v : Settings) : SettingsWorld :=
  ⟨v, v, slogLevel v.logLevel, v.auth, v.retry, Int32.ofInt v.retentionDays, fun _ => .done⟩

/-- Every place has the settings `v`. -/
def Agrees (w : SettingsWorld) (v : Settings) : Prop := w.config = v ∧ ∀ p, w.holds p = p.wants v

variable {w w' : SettingsWorld} {n : ℕ}

@[simp] theorem setRequest_holds (w : SettingsWorld) (n : ℕ) (ph : SavePhase) :
    (w.setRequest n ph).holds = w.holds := by
  funext p
  cases p <;> rfl

@[simp] theorem setRequest_config (w : SettingsWorld) (n : ℕ) (ph : SavePhase) :
    (w.setRequest n ph).config = w.config := rfl

@[simp] theorem setRequest_self (w : SettingsWorld) (n : ℕ) (ph : SavePhase) :
    (w.setRequest n ph).requests n = ph := Function.update_self ..

theorem setRequest_of_ne (w : SettingsWorld) {m : ℕ} (ph : SavePhase) (h : m ≠ n) :
    (w.setRequest n ph).requests m = w.requests m := Function.update_of_ne h ..

@[simp] theorem write_config (w : SettingsWorld) (v : Settings) (p : Place) :
    (w.write v p).config = w.config := by
  cases p <;> rfl

@[simp] theorem write_requests (w : SettingsWorld) (v : Settings) (p : Place) :
    (w.write v p).requests = w.requests := by
  cases p <;> rfl

theorem holds_write (w : SettingsWorld) (v : Settings) (p q : Place) :
    (w.write v p).holds q = if q = p then p.writes v else w.holds q := by
  cases p <;> cases q <;> rfl

/-! ## Places in step with the UI -/

/-- A request is going to write all places anew. -/
def Restarts (w : SettingsWorld) (m : ℕ) : Prop := ∃ v, w.requests m = .parsed v

/-- Every place has the values of the UI, or is going to get them. -/
def InStep (w : SettingsWorld) : Prop :=
  (∃ m, w.Restarts m) ∨
    ∀ p, w.holds p = p.wants w.config ∨ ∃ m, (w.requests m).Restores w.config p

/-- A value that is written is the one of the UI, unless another request is
    going to restore it; and the retention fits an `int32`. -/
def InOrder (w : SettingsWorld) : SettingsEvent → Prop
  | .request _ _ => True
  | .call n =>
    match w.requests n with
    | .done => True
    | .parsed v => v.retentionDays < 2 ^ 31 ∨ ∃ m, m ≠ n ∧ w.Restarts m
    | .saving v p => p.writes v = p.wants w.config ∨
      ∃ m, m ≠ n ∧ (w.Restarts m ∨ (w.requests m).Restores w.config p)

/-- What one call does. -/
inductive Wrote (w : SettingsWorld) (n : ℕ) : SettingsWorld → Prop
  | config {v : Settings} : w.requests n = .parsed v →
      Wrote w n ({ w with config := v }.setRequest n (.saving v .row))
  | place {v : Settings} {p : Place} {ph : SavePhase} : w.requests n = .saving v p →
      (∀ q, ph.Restores w.config q ↔ (SavePhase.saving v p).Restores w.config q ∧ q ≠ p) →
      (∀ v', ph ≠ .parsed v') → Wrote w n ((w.write v p).setRequest n ph)

theorem call_wrote (h : w.step (.call n) = some w') : Wrote w n w' := by
  simp only [step] at h
  split at h
  · cases h
  · rename_i v hr
    cases h
    exact .config hr
  · rename_i v p hr
    cases h
    refine .place hr (fun q => ?_) fun v' => ?_
    · have hne : q ≠ p ↔ q.rank ≠ p.rank := Place.rank_injective.ne_iff.symm
      cases hnext : p.next with
      | some p' =>
        have := Place.rank_next hnext
        simp only [SavePhase.Restores, hne]
        constructor
        · rintro ⟨hle, hv⟩
          exact ⟨⟨by omega, hv⟩, by omega⟩
        · rintro ⟨⟨hle, hv⟩, hlt⟩
          exact ⟨by omega, hv⟩
      | none =>
        have := Place.rank_le_of_next_none hnext q
        simp only [SavePhase.Restores, hne]
        constructor
        · exact False.elim
        · rintro ⟨⟨hle, -⟩, hlt⟩
          omega
    · cases p.next <;> simp

/-- Requests come from forms, so their retention is not negative. -/
structure FromForms (v₀ : Settings) (es : List SettingsEvent) (w : SettingsWorld) : Prop where
  parsed : ∀ m v, w.requests m = .parsed v → ∃ n form, .request n form ∈ es ∧ parseSettings form = .ok v
  config : w.config = v₀ ∨ ∃ n form, .request n form ∈ es ∧ parseSettings form = .ok w.config

theorem fromForms_step {v₀ : Settings} {es : List SettingsEvent} {e : SettingsEvent}
    (h : FromForms v₀ es w) (he : e ∈ es) (hs : w.step e = some w') : FromForms v₀ es w' := by
  have keep : ∀ {ph : SavePhase} {w₁ : SettingsWorld} {n : ℕ}, w₁.requests = w.requests →
      (∀ v, ph = .parsed v → ∃ n form, .request n form ∈ es ∧ parseSettings form = .ok v) →
      ∀ m v, (w₁.setRequest n ph).requests m = .parsed v →
        ∃ n form, .request n form ∈ es ∧ parseSettings form = .ok v := by
    intro ph w₁ n hr hph m v hm
    by_cases hmn : m = n
    · subst hmn
      rw [setRequest_self] at hm
      exact hph v hm
    · rw [setRequest_of_ne _ _ hmn, hr] at hm
      exact h.parsed m v hm
  cases e with
  | request n form =>
    simp only [step] at hs
    split at hs
    · rename_i v _ hv
      cases hs
      exact ⟨keep rfl (by rintro _ ⟨⟩; exact ⟨n, form, he, hv⟩), h.config⟩
    · cases hs
  | call n =>
    cases call_wrote hs with
    | config hr =>
      refine ⟨keep rfl (by rintro _ ⟨⟩), .inr ?_⟩
      exact h.parsed n _ hr
    | place hr _ hph =>
      refine ⟨keep (write_requests ..) fun v hv => absurd hv (hph v), ?_⟩
      rw [setRequest_config, write_config]
      exact h.config

theorem inStep_call (h : w.InStep) (hpos : ∀ v, w.requests n = .parsed v → 0 ≤ v.retentionDays)
    (hf : w.InOrder (.call n)) (hs : Wrote w n w') : w'.InStep := by
  cases hs with
  | @config v hr =>
    simp only [InOrder, hr] at hf
    rcases hf with hsmall | ⟨m, hm, v', hv'⟩
    · refine .inr fun p => .inr ⟨n, ?_⟩
      rw [setRequest_self]
      exact ⟨Nat.zero_le _, Place.writes_eq_wants (hpos v hr) hsmall p⟩
    · exact .inl ⟨m, v', by rw [setRequest_of_ne _ _ hm]; exact hv'⟩
  | @place v p ph hr hph _ =>
    simp only [InOrder, hr] at hf
    have keep : ∀ {m q}, m ≠ n → (w.requests m).Restores w.config q →
        (((w.write v p).setRequest n ph).requests m).Restores w.config q := by
      intro m q hm h
      rwa [setRequest_of_ne _ _ hm, write_requests]
    have restart : ∀ {m}, m ≠ n → w.Restarts m → ((w.write v p).setRequest n ph).Restarts m := by
      rintro m hm ⟨v', hv'⟩
      exact ⟨v', by rwa [setRequest_of_ne _ _ hm, write_requests]⟩
    rcases h with ⟨m, hm⟩ | h
    · refine .inl ⟨m, restart ?_ hm⟩
      rintro rfl
      obtain ⟨v', hv'⟩ := hm
      rw [hr] at hv'
      cases hv'
    · by_cases hrestart : ∃ m, m ≠ n ∧ w.Restarts m
      · obtain ⟨m, hm, hv'⟩ := hrestart
        exact .inl ⟨m, restart hm hv'⟩
      refine .inr fun q => ?_
      rw [setRequest_holds, holds_write, setRequest_config, write_config]
      by_cases hq : q = p
      · subst hq
        rw [if_pos rfl]
        rcases hf with hf | ⟨m, hm, hv' | hres⟩
        · exact .inl hf
        · exact absurd ⟨m, hm, hv'⟩ hrestart
        · exact .inr ⟨m, keep hm hres⟩
      · rw [if_neg hq]
        refine (h q).imp_right ?_
        rintro ⟨m, hres⟩
        by_cases hm : m = n
        · subst hm
          rw [hr] at hres
          exact ⟨m, by rw [setRequest_self]; exact (hph q).2 ⟨hres, hq⟩⟩
        · exact ⟨m, keep hm hres⟩

/-- **A step keeps the places in step**, if it is in order. -/
theorem inStep_step {e : SettingsEvent} (h : w.InStep)
    (hpos : ∀ m v, w.requests m = .parsed v → 0 ≤ v.retentionDays) (hf : w.InOrder e)
    (hs : w.step e = some w') : w'.InStep := by
  cases e with
  | request n form =>
    simp only [step] at hs
    split at hs
    · cases hs
      exact .inl ⟨n, _, setRequest_self ..⟩
    · cases hs
  | call n => exact inStep_call h (hpos n) hf (call_wrote hs)

end SettingsWorld

/-- **All copies of the settings agree** when no request is in flight: they are
    the initial ones or those of one request. -/
theorem settings_agree (v₀ : Settings) (hinit : (SettingsWorld.start v₀).Agrees v₀)
    (es : List SettingsEvent) (w : SettingsWorld)
    (hrun : Run SettingsWorld.step SettingsWorld.InOrder (.start v₀) es w)
    (hdone : ∀ n, w.requests n = .done) :
    ∃ v, (v = v₀ ∨ ∃ n form, .request n form ∈ es ∧ parseSettings form = .ok v) ∧ w.Agrees v := by
  have hinv : SettingsWorld.FromForms v₀ es w ∧ w.InStep := by
    refine hrun.mem.inv (I := fun w => SettingsWorld.FromForms v₀ es w ∧ w.InStep) ?_ ?_
    · rintro s e s' ⟨hforms, hstep⟩ ⟨hf, he⟩ hs
      refine ⟨SettingsWorld.fromForms_step hforms he hs, ?_⟩
      refine SettingsWorld.inStep_step hstep (fun m v hv => ?_) hf hs
      obtain ⟨n, form, -, hform⟩ := hforms.parsed m v hv
      exact parseSettings_range hform
    · exact ⟨⟨by rintro m v ⟨⟩, .inl rfl⟩, .inr fun p => .inl (hinit.2 p)⟩
  obtain ⟨hforms, ⟨m, v, hm⟩ | hplaces⟩ := hinv
  · rw [hdone m] at hm
    cases hm
  · refine ⟨w.config, hforms.config, rfl, fun p => ?_⟩
    rcases hplaces p with h | ⟨m, hm⟩
    · exact h
    · rw [hdone m] at hm
      exact hm.elim

/-! ## Places out of step -/

namespace SettingsWorld

variable {w w' : SettingsWorld} {n : ℕ}

/-- Some place has a wrong value and nobody is going to write another one. -/
theorem not_inStep_iff : ¬ w.InStep ↔ (∀ m, ¬ w.Restarts m) ∧
    ∃ p, w.holds p ≠ p.wants w.config ∧ ∀ m, ¬ (w.requests m).Restores w.config p := by
  simp only [InStep, not_or, not_exists, not_forall]

/-- An `int32` does not hold a retention of `2 ^ 31` days. -/
theorem toInt_ne_of_le (x : Int32) {days : ℤ} (h : 2 ^ 31 ≤ days) : x.toInt ≠ days := by
  have := x.toInt_lt
  omega

theorem outOfStep_of_not_inOrder {e : SettingsEvent} (hf : ¬ w.InOrder e) (hs : w.step e = some w') :
    ¬ w'.InStep := by
  cases e with
  | request => exact absurd trivial hf
  | call n =>
    rw [not_inStep_iff]
    cases call_wrote hs with
    | @config v hr =>
      simp only [InOrder, hr, not_or, not_lt, not_exists, not_and] at hf
      refine ⟨?_, .retention, ?_, ?_⟩
      · rintro m ⟨v', hv'⟩
        by_cases hm : m = n
        · subst hm
          rw [setRequest_self] at hv'
          cases hv'
        · rw [setRequest_of_ne _ _ hm] at hv'
          exact hf.2 m hm ⟨v', hv'⟩
      · intro he
        exact toInt_ne_of_le _ hf.1 (Content.retention.inj he)
      · intro m hres
        cases hm : (({ w with config := v } : SettingsWorld).setRequest n (.saving v .row)).requests m with
        | done => rw [hm] at hres; exact hres
        | parsed => rw [hm] at hres; exact hres
        | saving v' q =>
          rw [hm] at hres
          exact toInt_ne_of_le _ hf.1 (Content.retention.inj hres.2)
    | @place v p ph hr hph hparsed =>
      simp only [InOrder, hr, not_or, not_exists, not_and] at hf
      refine ⟨?_, p, ?_, ?_⟩
      · rintro m ⟨v', hv'⟩
        by_cases hm : m = n
        · subst hm
          rw [setRequest_self] at hv'
          exact hparsed v' hv'
        · rw [setRequest_of_ne _ _ hm, write_requests] at hv'
          exact (hf.2 m hm).1 ⟨v', hv'⟩
      · rw [setRequest_holds, holds_write, if_pos rfl, setRequest_config, write_config]
        exact hf.1
      · intro m hres
        rw [setRequest_config, write_config] at hres
        by_cases hm : m = n
        · subst hm
          rw [setRequest_self] at hres
          exact ((hph p).1 hres).2 rfl
        · rw [setRequest_of_ne _ _ hm, write_requests] at hres
          exact (hf.2 m hm).2 hres

theorem outOfStep_call (h : ¬ w.InStep) (hs : w.step (.call n) = some w') : ¬ w'.InStep := by
  rw [not_inStep_iff] at h ⊢
  obtain ⟨hrestart, q, hq, hres⟩ := h
  cases call_wrote hs with
  | config hr => exact absurd ⟨_, hr⟩ (hrestart n)
  | @place v p ph hr hph hparsed =>
    refine ⟨?_, q, ?_, ?_⟩
    · rintro m ⟨v', hv'⟩
      by_cases hm : m = n
      · subst hm
        rw [setRequest_self] at hv'
        exact hparsed v' hv'
      · rw [setRequest_of_ne _ _ hm, write_requests] at hv'
        exact hrestart m ⟨v', hv'⟩
    · rw [setRequest_holds, holds_write, setRequest_config, write_config]
      split_ifs with he
      · subst he
        intro hv
        exact hres n (by rw [hr]; exact ⟨le_rfl, hv⟩)
      · exact hq
    · intro m hm'
      rw [setRequest_config, write_config] at hm'
      by_cases hm : m = n
      · subst hm
        rw [setRequest_self] at hm'
        exact hres m (by rw [hr]; exact ((hph q).1 hm').1)
      · rw [setRequest_of_ne _ _ hm, write_requests] at hm'
        exact hres m hm'

end SettingsWorld

/-- **The condition is needed**: after a step that is not in order the copies
    differ, however the requests in flight finish. -/
theorem outOfStep_persists {w w' w'' : SettingsWorld} {e : SettingsEvent} {es : List SettingsEvent}
    (hf : ¬ w.InOrder e) (hs : w.step e = some w')
    (hrun : Run SettingsWorld.step (fun _ e => ∃ n, e = .call n) w' es w'') (v : Settings) :
    ¬ w''.Agrees v := by
  have hout : ¬ w''.InStep := by
    refine hrun.inv (I := fun w => ¬ w.InStep) (fun _ e' _ hi hp hs' => ?_)
      (SettingsWorld.outOfStep_of_not_inOrder hf hs)
    obtain ⟨n, rfl⟩ := hp
    exact SettingsWorld.outOfStep_call hi hs'
  rintro ⟨rfl, hplaces⟩
  exact hout (.inr fun p => .inl (hplaces p))

/-! ## One request -/

/-- Calls of one request. -/
def callsOf (n k : ℕ) : List SettingsEvent := List.replicate k (.call n)

namespace SettingsWorld

variable {w w' : SettingsWorld} {n : ℕ} {v : Settings}

/-- Requests that take no step stay as they are. -/
theorem step_requests {e : SettingsEvent} {m : ℕ} (h : w.step e = some w') (hc : e ≠ .call m)
    (hr : ∀ form, e ≠ .request m form) : w'.requests m = w.requests m := by
  cases e with
  | request k form =>
    have hm : m ≠ k := fun he => hr form (by rw [he])
    simp only [step] at h
    split at h
    · cases h
      exact setRequest_of_ne _ _ hm
    · cases h
  | call k =>
    have hm : m ≠ k := fun he => hc (by rw [he])
    cases call_wrote h with
    | config => exact setRequest_of_ne _ _ hm
    | place => rw [setRequest_of_ne _ _ hm, write_requests]

/-- Requests without events stay done. -/
theorem done_of_run {P : SettingsWorld → SettingsEvent → Prop} {es : List SettingsEvent}
    (hrun : Run step P (start v) es w) (m : ℕ)
    (hes : ∀ e ∈ es, e ≠ .call m ∧ ∀ form, e ≠ .request m form) : w.requests m = .done := by
  refine hrun.mem.inv (I := fun w => w.requests m = .done) ?_ rfl
  rintro s e s' hi ⟨-, he⟩ hs
  rw [step_requests hs (hes e he).1 (hes e he).2]
  exact hi

end SettingsWorld

def sampleSettings : Settings :=
  ⟨"info", ⟨.log, .log, .log⟩, ⟨3, 1000000000, 60000000000, 30000000000, true⟩, 30⟩

def sampleForm (logLevel retentionDays : String) : SettingsForm :=
  ⟨logLevel, "log", "log", "enforce", "3", "1", "60", "30", "1", retentionDays⟩

theorem sampleSettings_agrees : (SettingsWorld.start sampleSettings).Agrees sampleSettings :=
  ⟨rfl, fun p => by cases p <;> rfl⟩

namespace SettingsWorld

instance {config : Settings} {p : Place} : ∀ ph : SavePhase, Decidable (ph.Restores config p)
  | .saving _ _ => inferInstanceAs (Decidable (_ ∧ _))
  | .done | .parsed _ => .isFalse id

/-- The condition, with another request of a list. -/
def inOrderAmong (ms : List ℕ) (w : SettingsWorld) : SettingsEvent → Bool
  | .request _ _ => true
  | .call n =>
    match w.requests n with
    | .done => true
    | .parsed v => v.retentionDays < 2 ^ 31
    | .saving v p => p.writes v = p.wants w.config ∨
      ∃ m ∈ ms, m ≠ n ∧ (w.requests m).Restores w.config p

theorem inOrder_of_among {ms : List ℕ} {w : SettingsWorld} {e : SettingsEvent}
    (h : w.inOrderAmong ms e = true) : w.InOrder e := by
  cases e with
  | request n form => trivial
  | call n =>
    simp only [inOrderAmong, InOrder] at h ⊢
    cases hr : w.requests n with
    | done => trivial
    | parsed v =>
      simp only [hr, decide_eq_true_eq] at h
      exact .inl h
    | saving v p =>
      simp only [hr, decide_eq_true_eq] at h
      refine h.imp_right ?_
      rintro ⟨m, -, hm, hres⟩
      exact ⟨m, hm, .inr hres⟩

end SettingsWorld

/-- The second request updates the UI while the first one writes. -/
def overlappingSaves : List SettingsEvent :=
  [.request 0 (sampleForm "debug" "7"), .request 1 (sampleForm "warn" "90"), .call 0, .call 0, .call 1] ++
    callsOf 0 4 ++ callsOf 1 5

theorem settings_agree_sample : ∃ w, Run SettingsWorld.step SettingsWorld.InOrder
    (.start sampleSettings) overlappingSaves w ∧ w.config.logLevel = "warn" ∧ w.Agrees w.config := by
  have hs : ((execIf SettingsWorld.step (SettingsWorld.inOrderAmong [0, 1])
      (.start sampleSettings) overlappingSaves).map
      fun w => decide (w.requests 0 = .done ∧ w.requests 1 = .done ∧ w.config.logLevel = "warn")) =
        some true := by decide +kernel
  obtain ⟨w, hw, hd⟩ := Option.map_eq_some_iff.1 hs
  obtain ⟨h₀, h₁, hconfig⟩ := of_decide_eq_true hd
  have hrun : Run SettingsWorld.step SettingsWorld.InOrder (.start sampleSettings) overlappingSaves w :=
    Run.of_execIf (fun _ _ => SettingsWorld.inOrder_of_among) hw
  obtain ⟨v, -, hv⟩ := settings_agree sampleSettings sampleSettings_agrees _ w hrun fun n => by
    rcases n with _ | _ | n
    · exact h₀
    · exact h₁
    · refine SettingsWorld.done_of_run hrun _ fun e he => ?_
      simp [overlappingSaves, callsOf] at he
      rcases he with rfl | rfl | rfl | rfl | rfl | rfl <;> simp
  exact ⟨w, hrun, hconfig, hv.1 ▸ hv⟩

/-- Two requests whose writes cross. -/
def crossedSaves : List SettingsEvent :=
  [.request 0 (sampleForm "debug" "7"), .request 1 (sampleForm "warn" "90"), .call 0, .call 1] ++
    callsOf 1 5 ++ callsOf 0 5

/-- **The UI shows the settings of one request, and all other places have those
    of the other.** -/
theorem settings_differ : (SettingsWorld.start sampleSettings).Agrees sampleSettings ∧
    ∃ w, exec SettingsWorld.step (.start sampleSettings) crossedSaves = some w ∧
      (∀ n, w.requests n = .done) ∧ w.config.logLevel = "warn" ∧ w.row.logLevel = "debug" ∧
      ∀ v, ¬ w.Agrees v := by
  have hs : ((exec SettingsWorld.step (.start sampleSettings) crossedSaves).map fun w =>
      decide (w.requests 0 = .done ∧ w.requests 1 = .done ∧ w.config.logLevel = "warn" ∧
        w.row.logLevel = "debug")) = some true := by decide +kernel
  obtain ⟨w, hw, hd⟩ := Option.map_eq_some_iff.1 hs
  obtain ⟨h₀, h₁, hconfig, hrow⟩ := of_decide_eq_true hd
  refine ⟨sampleSettings_agrees, w, hw, fun n => ?_, hconfig, hrow, ?_⟩
  · rcases n with _ | _ | n
    · exact h₀
    · exact h₁
    · refine SettingsWorld.done_of_run (Run.of_exec (P := fun _ _ => True) (fun _ _ _ => trivial) hw)
        _ fun e he => ?_
      simp [crossedSaves, callsOf] at he
      rcases he with rfl | rfl | rfl | rfl | rfl | rfl <;> simp
  · rintro v ⟨rfl, hplaces⟩
    have hrow' : w.row = w.config := Content.row.inj (hplaces .row)
    rw [hrow', hconfig] at hrow
    exact absurd hrow (by decide)

end Mailrelay
