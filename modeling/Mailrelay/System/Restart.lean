/-
  Saved settings across restarts (`SaveSettings` and `LoadSettings` of
  `internal/storage/store.go`, `applySettings` and `run` of
  `cmd/mailrelay/main.go`).

  The `settings` row is the whole configuration as JSON.  A start reads the
  configuration file and takes the hot-reloadable values from the row, if there
  is one and `LoadSettings` succeeds.  A process may stop in the midst of saves,
  and `SaveSettings` may fail.

  * `decode_encodeConfig`: the row is read as it was written;
  * `sound_installation_step`: every step keeps `SoundInstallation`;
  * `restart_restores`: the main result.
-/
import Mailrelay.Config.Validate
import Mailrelay.Rules.Transfer
import Mailrelay.Webui.Settings

namespace Mailrelay

open Lib

/-! ## The row -/

def encodeSmtp (cfg : SmtpConfig) : Json ℤ :=
  .obj ([("tls_cert", .str cfg.tlsCert), ("tls_key", .str cfg.tlsKey),
    ("require_tls", .bool cfg.requireTLS)] ++
    Json.optional "allowed_recipients" (omitList (cfg.allowedRecipients.map .str)))

def encodeAuth (auth : AuthTexts) : Json ℤ :=
  .obj [("spf", .str auth.spf), ("dkim", .str auth.dkim), ("dmarc", .str auth.dmarc)]

def encodeRetry (retry : RetryConfig) : Json ℤ :=
  .obj [("max_retries", .num retry.maxRetries), ("initial_wait", .num retry.initialWait.toInt),
    ("max_wait", .num retry.maxWait.toInt), ("timeout", .num retry.timeout.toInt),
    ("retry_on_timeout", .bool retry.retryOnTimeout)]

def encodePolicy (policy : WebhookPolicy) : Json ℤ :=
  .obj [("workers", .num policy.workers.toInt), ("shutdown_timeout", .num policy.shutdownTimeout.toInt)]

def encodeWebUI (webUI : WebUIConfig) : Json ℤ :=
  .obj [("enabled", .bool webUI.enabled), ("db_path", .str webUI.dbPath),
    ("retention_days", .num webUI.retentionDays), ("raw_email_dir", .str webUI.rawEmailDir)]

/-- `json.Marshal` of the configuration -/
def encodeConfig (cfg : AppConfig) : Json ℤ :=
  .obj [("log_level", .str cfg.logLevel), ("smtp", encodeSmtp cfg.smtp), ("auth", encodeAuth cfg.auth),
    ("retry", encodeRetry cfg.retry), ("webhook", encodePolicy cfg.webhook),
    ("webui", encodeWebUI cfg.webUI)]

def decodeSmtp : Json Number → Except Json.Error SmtpConfig
  | .obj l => do
    let tlsCert ← Json.field l "tls_cert" "" decodeString
    let tlsKey ← Json.field l "tls_key" "" decodeString
    let requireTLS ← Json.field l "require_tls" false decodeBool
    let allowedRecipients ← Json.field l "allowed_recipients" [] (decodeList decodeString)
    return ⟨tlsCert, tlsKey, requireTLS, allowedRecipients⟩
  | _ => .error (.cannotUnmarshal "models.SMTPConfig")

def decodeAuth : Json Number → Except Json.Error AuthTexts
  | .obj l => do
    let spf ← Json.field l "spf" "" decodeString
    let dkim ← Json.field l "dkim" "" decodeString
    let dmarc ← Json.field l "dmarc" "" decodeString
    return ⟨spf, dkim, dmarc⟩
  | _ => .error (.cannotUnmarshal "models.AuthConfig")

/-- An `int64`, such as a `time.Duration` in nanoseconds, is read like the
    seconds of a rule. -/
def decodeRetry : Json Number → Except Json.Error RetryConfig
  | .obj l => do
    let maxRetries ← Json.field l "max_retries" 0 decodeInt
    let initialWait ← Json.field l "initial_wait" 0 decodeSeconds
    let maxWait ← Json.field l "max_wait" 0 decodeSeconds
    let timeout ← Json.field l "timeout" 0 decodeSeconds
    let retryOnTimeout ← Json.field l "retry_on_timeout" false decodeBool
    return ⟨maxRetries, initialWait, maxWait, timeout, retryOnTimeout⟩
  | _ => .error (.cannotUnmarshal "models.RetryConfig")

def decodePolicy : Json Number → Except Json.Error WebhookPolicy
  | .obj l => do
    let workers ← Json.field l "workers" 0 decodeSeconds
    let shutdownTimeout ← Json.field l "shutdown_timeout" 0 decodeSeconds
    return ⟨workers, shutdownTimeout⟩
  | _ => .error (.cannotUnmarshal "models.WebhookPolicy")

def decodeWebUI : Json Number → Except Json.Error WebUIConfig
  | .obj l => do
    let enabled ← Json.field l "enabled" false decodeBool
    let dbPath ← Json.field l "db_path" "" decodeString
    let retentionDays ← Json.field l "retention_days" 0 decodeInt
    let rawEmailDir ← Json.field l "raw_email_dir" "" decodeString
    return ⟨enabled, dbPath, retentionDays, rawEmailDir⟩
  | _ => .error (.cannotUnmarshal "models.WebUIConfig")

/-- `json.Unmarshal` of the row, which ignores unknown fields -/
def decodeConfig : Json Number → Except Json.Error AppConfig
  | .obj l => do
    let logLevel ← Json.field l "log_level" "" decodeString
    let smtp ← Json.field l "smtp" ⟨"", "", false, []⟩ decodeSmtp
    let auth ← Json.field l "auth" ⟨"", "", ""⟩ decodeAuth
    let retry ← Json.field l "retry" ⟨0, 0, 0, 0, false⟩ decodeRetry
    let webhook ← Json.field l "webhook" ⟨0, 0⟩ decodePolicy
    let webUI ← Json.field l "webui" ⟨false, "", 0, ""⟩ decodeWebUI
    return ⟨logLevel, smtp, auth, retry, webhook, webUI⟩
  | _ => .error (.cannotUnmarshal "models.AppConfig")

/-- The values of Go's type `int`. -/
def FitsInt (n : ℤ) : Prop := minInt64 ≤ n ∧ n ≤ maxInt64

section
variable {n : ℤ}

@[simp] theorem fieldOf_num (hn : FitsInt n) : Json.fieldOf 0 decodeInt (some (.num (.int n))) = .ok n :=
  (decodeInt_int hn).2 rfl

@[simp] theorem fieldOf_int64 (n : Int64) :
    Json.fieldOf 0 decodeSeconds (some (.num (.int n.toInt))) = .ok n := decodeSeconds_int.2 rfl

@[simp] theorem fieldOf_boolean (b : Bool) : Json.fieldOf false decodeBool (some (.bool b)) = .ok b := rfl

end

/-- A field that is an object. -/
theorem fieldOf_decoded {α : Type} {zero a : α} {decode : Json Number → Except Json.Error α}
    {v : Json Number} (hv : v ≠ .null) (h : decode v = .ok a) :
    Json.fieldOf zero decode (some v) = .ok a := by
  cases v with
  | null => exact absurd rfl hv
  | _ => exact h

theorem decode_encodeSmtp (cfg : SmtpConfig) : decodeSmtp ((encodeSmtp cfg).map Number.int) = .ok cfg := by
  have hstr (s : String) : decodeString (.str s) = .ok s := rfl
  have hlist := fieldOf_omitList hstr cfg.allowedRecipients
  simp [encodeSmtp, decodeSmtp, Json.field, List.lookup_cons, bind, Except.bind, pure, Except.pure, hlist,
    Function.comp_def]

theorem decode_encodeAuth (auth : AuthTexts) :
    decodeAuth ((encodeAuth auth).map Number.int) = .ok auth := by
  simp [encodeAuth, decodeAuth, Json.field, List.lookup_cons, bind, Except.bind, pure, Except.pure]

theorem decode_encodeRetry {retry : RetryConfig} (h : FitsInt retry.maxRetries) :
    decodeRetry ((encodeRetry retry).map Number.int) = .ok retry := by
  simp [encodeRetry, decodeRetry, Json.field, List.lookup_cons, bind, Except.bind, pure, Except.pure,
    fieldOf_num h]

theorem decode_encodePolicy (policy : WebhookPolicy) :
    decodePolicy ((encodePolicy policy).map Number.int) = .ok policy := by
  simp [encodePolicy, decodePolicy, Json.field, List.lookup_cons, bind, Except.bind, pure, Except.pure]

theorem decode_encodeWebUI {webUI : WebUIConfig} (h : FitsInt webUI.retentionDays) :
    decodeWebUI ((encodeWebUI webUI).map Number.int) = .ok webUI := by
  simp [encodeWebUI, decodeWebUI, Json.field, List.lookup_cons, bind, Except.bind, pure, Except.pure,
    fieldOf_num h]

/-- **The row is read as it was written.** -/
theorem decode_encodeConfig {cfg : AppConfig} (hretries : FitsInt cfg.retry.maxRetries)
    (hdays : FitsInt cfg.webUI.retentionDays) :
    decodeConfig ((encodeConfig cfg).map Number.int) = .ok cfg := by
  have hsmtp : Json.fieldOf ⟨"", "", false, []⟩ decodeSmtp (some ((encodeSmtp cfg.smtp).map Number.int)) =
      .ok cfg.smtp := fieldOf_decoded (by simp [encodeSmtp]) (decode_encodeSmtp cfg.smtp)
  have hauth : Json.fieldOf ⟨"", "", ""⟩ decodeAuth (some ((encodeAuth cfg.auth).map Number.int)) =
      .ok cfg.auth := fieldOf_decoded (by simp [encodeAuth]) (decode_encodeAuth cfg.auth)
  have hretry : Json.fieldOf ⟨0, 0, 0, 0, false⟩ decodeRetry
      (some ((encodeRetry cfg.retry).map Number.int)) =
      .ok cfg.retry := fieldOf_decoded (by simp [encodeRetry]) (decode_encodeRetry hretries)
  have hpolicy : Json.fieldOf ⟨0, 0⟩ decodePolicy (some ((encodePolicy cfg.webhook).map Number.int)) =
      .ok cfg.webhook := fieldOf_decoded (by simp [encodePolicy]) (decode_encodePolicy cfg.webhook)
  have hwebUI : Json.fieldOf ⟨false, "", 0, ""⟩ decodeWebUI
      (some ((encodeWebUI cfg.webUI).map Number.int)) =
      .ok cfg.webUI := fieldOf_decoded (by simp [encodeWebUI]) (decode_encodeWebUI hdays)
  simp [encodeConfig, decodeConfig, Json.field, List.lookup_cons, bind, Except.bind, pure,
    Except.pure, hsmtp, hauth, hretry, hpolicy, hwebUI]

/-! ## Starts and saves -/

/-- The values that can be changed at run time. -/
def AppConfig.settings (cfg : AppConfig) : Settings :=
  ⟨cfg.logLevel, ⟨.ofText cfg.auth.spf, .ofText cfg.auth.dkim, .ofText cfg.auth.dmarc⟩, cfg.retry,
    cfg.webUI.retentionDays⟩

/-- The update of `handleSettingsSave`. -/
def AppConfig.withSettings (cfg : AppConfig) (v : Settings) : AppConfig :=
  { cfg with
    logLevel := v.logLevel
    auth := ⟨v.auth.spf.text, v.auth.dkim.text, v.auth.dmarc.text⟩
    retry := v.retry
    webUI := { cfg.webUI with retentionDays := v.retentionDays } }

@[simp] theorem settings_withSettings (cfg : AppConfig) (v : Settings) :
    (cfg.withSettings v).settings = v := by
  simp [AppConfig.settings, AppConfig.withSettings]

def applySettings (dst src : AppConfig) : AppConfig :=
  { dst with
    logLevel := src.logLevel
    auth := src.auth
    retry := src.retry
    webUI := { dst.webUI with retentionDays := src.webUI.retentionDays } }

/-- `LoadSettings`; `readable` if the query succeeds. -/
def loadSettings (row : Option (Json ℤ)) (readable : Bool) : Option AppConfig :=
  if readable then row.bind fun doc => (decodeConfig (doc.map Number.int)).toOption else none

/-- The configuration that `run` goes on with. -/
def startConfig (file : AppConfig) (row : Option (Json ℤ)) (readable : Bool) : AppConfig :=
  if file.webUI.enabled then ((loadSettings row readable).map (applySettings file)).getD file else file

structure Installation where
  /-- the `settings` rows, by the paths of the databases -/
  rows : String → Option (Json ℤ)
  /-- the configuration of the process -/
  config : AppConfig
  /-- and the places of its values -/
  process : SettingsWorld
  /-- the saves that succeeded, with the database, the last first -/
  commits : List (String × Settings)

inductive InstallationEvent where
  /-- the process, if there is one, ends where it is, and one is started -/
  | start (file : AppConfig) (readable : Bool)
  | save (e : SettingsEvent)
  /-- `SaveSettings` fails -/
  | fail (n : ℕ)
  deriving DecidableEq, Repr

/-- The settings of a request. -/
def SavePhase.settings? : SavePhase → Option Settings
  | done => none
  | parsed v | saving v _ => some v

/-- The settings that a step puts in the configuration. -/
def SettingsWorld.updates? (process : SettingsWorld) : SettingsEvent → Option Settings
  | .request _ _ => none
  | .call n =>
    match process.requests n with
    | .parsed v => some v
    | _ => none

/-- The settings that a step saves in the row. -/
def SettingsWorld.saves? (process : SettingsWorld) : SettingsEvent → Option Settings
  | .request _ _ => none
  | .call n =>
    match process.requests n with
    | .saving v .row => some v
    | _ => none

namespace Installation

/-- The first start, without databases. -/
def first (file : AppConfig) : Installation := ⟨fun _ => none, file, .start file.settings, []⟩

/-- `SaveSettings` with the copy that the request took.  The copy was made with
    its update, and nothing but the values of forms has changed since. -/
def saveSettings (w : Installation) (v : Settings) : Installation :=
  { w with
    rows := Function.update w.rows w.config.webUI.dbPath (some (encodeConfig (w.config.withSettings v)))
    commits := (w.config.webUI.dbPath, v) :: w.commits }

def step (w : Installation) : InstallationEvent → Option Installation
  | .start file readable =>
    let config := startConfig file (w.rows file.webUI.dbPath) readable
    some { w with config := config, process := .start config.settings }
  | .save e =>
    if w.config.webUI.enabled then
      (w.process.step e).map fun process =>
        let w' := { w with
          process := process
          config := ((w.process.updates? e).map w.config.withSettings).getD w.config }
        ((w.process.saves? e).map w'.saveSettings).getD w'
    else none
  | .fail n =>
    match w.process.requests n with
    | .saving _ .row => some { w with process := w.process.setRequest n .done }
    | _ => none

/-- The last settings that were saved in a database. -/
def lastCommit (w : Installation) (path : String) : Option Settings := w.commits.lookup path

/-- What a start finds in the database of its file: nothing, if `LoadSettings`
    fails. -/
def saved (w : Installation) (file : AppConfig) (readable : Bool) : Option Settings :=
  if readable then w.lastCommit file.webUI.dbPath else none

end Installation

/-! ## What is saved -/

/-- The settings are those of a form that was sent. -/
def Submitted (es : List InstallationEvent) (v : Settings) : Prop :=
  ∃ n form, InstallationEvent.save (.request n form) ∈ es ∧ parseSettings form = .ok v

theorem parseAtLeast_fits {least n : ℤ} {message value : String}
    (h : parseAtLeast least message value = .ok n) :
    FitsInt n := by
  unfold parseAtLeast at h
  cases ha : atoi value with
  | none =>
    rw [ha] at h
    cases h
  | some m =>
    rw [ha] at h
    simp only at h
    split_ifs at h
    cases h
    unfold atoi at ha
    obtain ⟨-, hrange⟩ := Option.filter_eq_some_iff.1 ha
    simpa [FitsInt] using hrange

/-- The numbers of a form fit. -/
theorem parseSettings_fits {form : SettingsForm} {v : Settings} (h : parseSettings form = .ok v) :
    FitsInt v.retry.maxRetries ∧ FitsInt v.retentionDays := by
  unfold parseSettings at h
  obtain ⟨-, h⟩ := check_bind_ok.1 h
  obtain ⟨spf, -, h⟩ := bind_ok.1 h
  obtain ⟨dkim, -, h⟩ := bind_ok.1 h
  obtain ⟨dmarc, -, h⟩ := bind_ok.1 h
  obtain ⟨maxRetries, hretries, h⟩ := bind_ok.1 h
  obtain ⟨initialWait, -, h⟩ := bind_ok.1 h
  obtain ⟨maxWait, -, h⟩ := bind_ok.1 h
  obtain ⟨-, h⟩ := check_bind_ok.1 h
  obtain ⟨timeout, -, h⟩ := bind_ok.1 h
  obtain ⟨retentionDays, hdays, h⟩ := bind_ok.1 h
  cases h
  exact ⟨parseAtLeast_fits hretries, parseAtLeast_fits hdays⟩

/-- A request has settings from before, or from its form. -/
theorem settings?_step {process process' : SettingsWorld} {e : SettingsEvent}
    (h : process.step e = some process')
    {n : ℕ} {v : Settings} (hv : (process'.requests n).settings? = some v) :
    (process.requests n).settings? = some v ∨ ∃ form, e = .request n form ∧ parseSettings form = .ok v := by
  cases e with
  | request m form =>
    simp only [SettingsWorld.step] at h
    split at h
    next v' _ hform =>
      cases h
      by_cases hnm : n = m
      · rw [hnm, SettingsWorld.setRequest_self, SavePhase.settings?, Option.some.injEq] at hv
        exact .inr ⟨form, by rw [hnm], by rw [hform, hv]⟩
      · rw [SettingsWorld.setRequest_of_ne _ _ hnm] at hv
        exact .inl hv
    next => cases h
  | call m =>
    by_cases hnm : n = m
    · left
      subst hnm
      simp only [SettingsWorld.step] at h
      cases hreq : process.requests n with
      | done =>
        rw [hreq] at h
        cases h
      | parsed v' =>
        rw [hreq] at h
        cases h
        rwa [SettingsWorld.setRequest_self] at hv
      | saving v' p =>
        rw [hreq] at h
        cases h
        rw [SettingsWorld.setRequest_self] at hv
        cases hnext : p.next with
        | none =>
          rw [hnext] at hv
          cases hv
        | some q =>
          rw [hnext] at hv
          exact hv
    · have hother := SettingsWorld.step_requests h (m := n) (by simpa using Ne.symm hnm) (by simp)
      rw [hother] at hv
      exact .inl hv

theorem saves?_settings? {process : SettingsWorld} {e : SettingsEvent} {v : Settings}
    (h : process.saves? e = some v) : ∃ n, (process.requests n).settings? = some v := by
  cases e with
  | request n form => cases h
  | call n =>
    rw [SettingsWorld.saves?] at h
    split at h
    next v' hreq =>
      cases h
      exact ⟨n, by rw [hreq]; rfl⟩
    next => cases h

/-- Every row is the last save in its database, and what is saved comes from
    forms. -/
structure SoundInstallation (es : List InstallationEvent) (w : Installation) : Prop where
  rows : ∀ path, (w.lastCommit path = none → w.rows path = none) ∧
    ∀ v, w.lastCommit path = some v → ∃ cfg : AppConfig, w.rows path =
      some (encodeConfig (cfg.withSettings v))
  commits : ∀ c ∈ w.commits, Submitted es c.2
  pending : ∀ n v, (w.process.requests n).settings? = some v → Submitted es v

section
variable {es : List InstallationEvent} {w w' : Installation}

theorem soundInstallation_first (file : AppConfig) : SoundInstallation es (.first file) where
  rows := fun _ => ⟨fun _ => rfl, fun _ h => by cases h⟩
  commits := fun _ h => by cases h
  pending := fun _ _ h => by cases h

theorem SoundInstallation.saveSettings (h : SoundInstallation es w) {v : Settings} (hv : Submitted es v) :
    SoundInstallation es (w.saveSettings v) := by
  refine ⟨fun path => ?_, fun c hc => ?_, h.pending⟩
  · by_cases hpath : path = w.config.webUI.dbPath
    · have hlast : (w.saveSettings v).lastCommit path = some v := by
        rw [Installation.lastCommit, Installation.saveSettings, hpath, List.lookup_cons_self]
      have hrow : (w.saveSettings v).rows path = some (encodeConfig (w.config.withSettings v)) := by
        rw [hpath]
        exact Function.update_self ..
      rw [hlast]
      refine ⟨fun hnone => (by cases hnone), fun v' hv' => ?_⟩
      cases hv'
      exact ⟨w.config, hrow⟩
    · have hlast : (w.saveSettings v).lastCommit path = w.lastCommit path := by
        rw [Installation.lastCommit, Installation.saveSettings, List.lookup_cons,
          beq_eq_false_iff_ne.2 hpath]
        rfl
      have hrow : (w.saveSettings v).rows path = w.rows path := Function.update_of_ne hpath ..
      rw [hlast, hrow]
      exact h.rows path
  · rcases List.mem_cons.1 hc with rfl | hc
    · exact hv
    · exact h.commits c hc

theorem sound_installation_step {e : InstallationEvent} (h : SoundInstallation es w) (he : e ∈ es)
    (hs : w.step e = some w') : SoundInstallation es w' := by
  cases e with
  | start file readable =>
    simp only [Installation.step, Option.some.injEq] at hs
    rw [← hs]
    exact ⟨h.rows, h.commits, fun _ _ hn => by cases hn⟩
  | fail n =>
    simp only [Installation.step] at hs
    split at hs
    next =>
      cases hs
      refine ⟨h.rows, h.commits, fun m v hm => ?_⟩
      by_cases hmn : m = n
      · rw [hmn, SettingsWorld.setRequest_self] at hm
        cases hm
      · rw [SettingsWorld.setRequest_of_ne _ _ hmn] at hm
        exact h.pending m v hm
    next => cases hs
  | save e =>
    simp only [Installation.step] at hs
    split_ifs at hs
    obtain ⟨process, hprocess, rfl⟩ := Option.map_eq_some_iff.1 hs
    have hpending : ∀ n v, (process.requests n).settings? = some v → Submitted es v := by
      intro n v hv
      rcases settings?_step hprocess hv with hv | ⟨form, rfl, hform⟩
      · exact h.pending n v hv
      · exact ⟨n, form, he, hform⟩
    have hupdated : SoundInstallation es { w with
        process := process
        config := ((w.process.updates? e).map w.config.withSettings).getD w.config } :=
      ⟨h.rows, h.commits, hpending⟩
    cases hsaves : w.process.saves? e with
    | none => exact hupdated
    | some v =>
      obtain ⟨n, hn⟩ := saves?_settings? hsaves
      exact hupdated.saveSettings (h.pending n v hn)

theorem SoundInstallation.lastCommit (h : SoundInstallation es w) {path : String} {v : Settings}
    (hv : w.lastCommit path = some v) : Submitted es v := by
  obtain ⟨l₁, l₂, hl, -⟩ := List.lookup_eq_some_iff.1 hv
  exact h.commits (path, v) (by simp [hl])

theorem SoundInstallation.saved (h : SoundInstallation es w) {file : AppConfig} {readable : Bool}
    {v : Settings} (hv : w.saved file readable = some v) : Submitted es v := by
  rw [Installation.saved] at hv
  split_ifs at hv
  exact h.lastCommit hv

/-- What a start takes from the row of its database. -/
theorem startConfig_sound (h : SoundInstallation es w) {file : AppConfig} (hui : file.webUI.enabled = true)
    (readable : Bool) :
    startConfig file (w.rows file.webUI.dbPath) readable =
      ((w.saved file readable).map file.withSettings).getD file := by
  obtain ⟨hnone, hsome⟩ := h.rows file.webUI.dbPath
  rw [startConfig, if_pos hui]
  cases readable with
  | false => rfl
  | true =>
    rw [Installation.saved, if_pos rfl]
    cases hlast : w.lastCommit file.webUI.dbPath with
    | none =>
      rw [hnone hlast]
      rfl
    | some v =>
      obtain ⟨cfg, hrow⟩ := hsome v hlast
      obtain ⟨n, form, -, hform⟩ := h.lastCommit hlast
      obtain ⟨hretries, hdays⟩ := parseSettings_fits hform
      have hdecode : decodeConfig ((encodeConfig (cfg.withSettings v)).map Number.int) =
          .ok (cfg.withSettings v) := decode_encodeConfig hretries hdays
      rw [hrow, loadSettings, if_pos rfl, Option.bind_some, hdecode]
      rfl

end

/-- The retention is shared as it is exactly if it fits the `int32`. -/
theorem writes_retention_iff {v : Settings} :
    Place.retention.writes v = Place.retention.wants v ↔
      -2 ^ 31 ≤ v.retentionDays ∧ v.retentionDays < 2 ^ 31 := by
  rw [Place.writes, Place.wants, Content.retention.injEq]
  constructor
  · intro h
    rw [← h]
    exact ⟨Int32.le_toInt _, Int32.toInt_lt _⟩
  · rintro ⟨hmin, hmax⟩
    exact Int32.toInt_ofInt_of_le (by omega) (by omega)

/-- **A restart brings back the settings that were saved last.**  Whenever the
    process is stopped, in the midst of any saves, a start with any file has the
    values of the last save in the database that succeeded, which are those of a
    form that was sent, or those of the file if there is none or `LoadSettings`
    fails; all other values are those of the file.  The log level, the
    authentication and the retries have these values, and the shared retention
    has them exactly if the days fit an `int32`. -/
theorem restart_restores {file₀ : AppConfig} {es : List InstallationEvent} {w : Installation}
    (h : Run Installation.step (fun _ _ => True) (.first file₀) es w) {file : AppConfig}
    (hui : file.webUI.enabled = true) (readable : Bool) :
    ∃ w', w.step (.start file readable) = some w' ∧
      w'.config = ((w.saved file readable).map file.withSettings).getD file ∧
      (∀ v, w.saved file readable = some v → Submitted es v ∧ w'.config.settings = v) ∧
      w'.process.config = w'.config.settings ∧ (∀ n, w'.process.requests n = .done) ∧
      (∀ p ∈ [.level, .auth, .retry], w'.process.holds p = p.wants w'.config.settings) ∧
      (w'.process.holds .retention = Place.retention.wants w'.config.settings ↔
        -2 ^ 31 ≤ w'.config.webUI.retentionDays ∧ w'.config.webUI.retentionDays < 2 ^ 31) := by
  have hsound : SoundInstallation es w :=
    h.mem.inv (fun _ _ _ hi he hs => sound_installation_step hi he.2 hs) (soundInstallation_first file₀)
  have hconfig := startConfig_sound hsound hui readable
  refine ⟨_, rfl, hconfig, fun v hv => ⟨hsound.saved hv, ?_⟩, rfl, fun _ => rfl, fun p hp => ?_,
    writes_retention_iff⟩
  · show (startConfig file (w.rows file.webUI.dbPath) readable).settings = v
    rw [hconfig, hv, Option.map_some, Option.getD_some, settings_withSettings]
  · simp only [List.mem_cons, List.not_mem_nil, or_false] at hp
    rcases hp with rfl | rfl | rfl
    · rfl
    · rfl
    · rfl

/-- A process that stops after the row is written; in the next one,
    `SaveSettings` fails. -/
def stoppedSaves : List InstallationEvent :=
  [.save (.request 0 (sampleForm "debug" "7")), .save (.call 0), .save (.call 0),
    .start AppConfig.defaults true, .save (.request 1 (sampleForm "warn" "90")), .save (.call 1), .fail 1]

theorem restart_restores_sample : ∃ w w' v,
    exec Installation.step (.first AppConfig.defaults) stoppedSaves = some w ∧
      w.step (.start sampleConfig true) = some w' ∧ v.logLevel = "debug" ∧ v.retentionDays = 7 ∧
      w'.config = sampleConfig.withSettings v ∧ w'.process.config = v ∧
      ∀ p, p ≠ .row → w'.process.holds p = p.wants v := by
  have hexec : (exec Installation.step (.first AppConfig.defaults) stoppedSaves).map
      (fun w => w.lastCommit "mailrelay.db") =
      some (some ⟨"debug", ⟨.log, .log, .enforce⟩, ⟨3, 1000000000, 60000000000, 30000000000, true⟩,
        7⟩) := by
    decide +kernel
  obtain ⟨w, hw, hlast⟩ := Option.map_eq_some_iff.1 hexec
  obtain ⟨w', hs, hconfig, hcommit, hprocess, -, hplaces, hretention⟩ :=
    restart_restores (Run.of_exec (fun _ _ _ => trivial) hw)
      (show sampleConfig.webUI.enabled = true from rfl) true
  obtain ⟨-, hsettings⟩ := hcommit _ hlast
  have hrow : w'.config = _ := hconfig.trans (by rw [show w.saved sampleConfig true = _ from hlast])
  refine ⟨w, w', _, hw, hs, rfl, rfl, hrow, hprocess.trans hsettings, fun p hp => ?_⟩
  rw [hsettings] at hplaces hretention
  cases p with
  | row => exact absurd rfl hp
  | level => exact hplaces _ (by simp)
  | auth => exact hplaces _ (by simp)
  | retry => exact hplaces _ (by simp)
  | retention => exact hretention.2 (by rw [hrow]; decide)

end Mailrelay
