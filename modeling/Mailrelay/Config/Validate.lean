/-
  The configuration at the start (`defaults` and `validate` of
  `internal/config/config.go`), and the checks that the components make of it
  afterwards (`configureTLS` and `matchRecipient` of `internal/smtp/server.go`,
  `StartQueue` of `internal/webhook/queue.go`).

  `validate` matches a pattern for recipients as it is written, `Rcpt` matches
  it in lower case.

  * `validate_ok`: what an accepted configuration satisfies;
  * `validated_runs`: `StartQueue` and `configureTLS` do not refuse it, and each
    of its patterns counts.
-/
import Mailrelay.Lib.Case
import Mailrelay.Lib.Check
import Mailrelay.Smtp.Conversation

namespace Mailrelay

open Lib

/-- The modes as texts. -/
structure AuthTexts where
  spf : String
  dkim : String
  dmarc : String
  deriving DecidableEq, Repr

structure WebhookPolicy where
  workers : Int64
  shutdownTimeout : Int64
  deriving DecidableEq, Repr

structure WebUIConfig where
  enabled : Bool
  dbPath : String
  retentionDays : ℤ
  rawEmailDir : String
  deriving DecidableEq, Repr

/-- `AppConfig` without the section `http`, which `validate` does not check. -/
structure AppConfig where
  logLevel : String
  smtp : SmtpConfig
  auth : AuthTexts
  retry : RetryConfig
  webhook : WebhookPolicy
  webUI : WebUIConfig
  deriving DecidableEq, Repr

/-- What a mode does: other texts than the three are enabled and not enforced. -/
def AuthMode.ofText (mode : String) : AuthMode :=
  if mode = "off" then .off else if mode = "enforce" then .enforce else .log

def AuthMode.text : AuthMode → String
  | off => "off"
  | log => "log"
  | enforce => "enforce"

@[simp] theorem AuthMode.ofText_text (m : AuthMode) : ofText m.text = m := by
  cases m with
  | off => rfl
  | log => rfl
  | enforce => rfl

def AppConfig.defaults : AppConfig where
  logLevel := "info"
  smtp := ⟨"", "", false, []⟩
  auth := ⟨"log", "log", "log"⟩
  retry := ⟨3, 1000000000, 30000000000, 30000000000, true⟩
  webhook := ⟨4, 30000000000⟩
  webUI := ⟨true, "mailrelay.db", 7, ""⟩

inductive ConfigError where
  | text (message : String)
  | rawEmailDir (dir err : String)
  | authMode (name mode : String)
  | pattern (pattern : String)
  deriving DecidableEq, Repr

/-- The text of an error, with the quotes of `%q`. -/
def ConfigError.message (quote : String → String) : ConfigError → String
  | text message => message
  | rawEmailDir dir err => "creating raw_email_dir " ++ quote dir ++ ": " ++ err
  | authMode name mode =>
    "auth." ++ name ++ ": invalid mode " ++ quote mode ++ " (must be off, log, or enforce)"
  | pattern p => "invalid allowed_recipients pattern " ++ quote p ++ ": syntax error in pattern"

def validateMode (name mode : String) : Except ConfigError String :=
  if mode = "" then .ok "log"
  else if mode ∈ ["off", "log", "enforce"] then .ok mode
  else .error (.authMode name mode)

section
variable (mkdirAll : String → Except String Unit)

def createRawEmailDir (cfg : AppConfig) : Except ConfigError Unit :=
  if cfg.webUI.enabled ∧ cfg.webUI.rawEmailDir ≠ "" then
    (mkdirAll cfg.webUI.rawEmailDir).mapError (.rawEmailDir cfg.webUI.rawEmailDir)
  else .ok ()

/-- `validate`, and what it leaves of the configuration. -/
def AppConfig.validate (cfg : AppConfig) : Except ConfigError AppConfig := do
  check ((cfg.smtp.tlsCert == "") ≠ (cfg.smtp.tlsKey == ""))
    (.text "smtp.tls_cert and smtp.tls_key must be set together")
  check (cfg.smtp.requireTLS ∧ cfg.smtp.tlsCert = "")
    (.text "smtp.require_tls requires smtp.tls_cert and smtp.tls_key")
  check (cfg.webhook.workers < 1) (.text "webhook.workers must be positive")
  check (cfg.webhook.shutdownTimeout ≤ 0) (.text "webhook.shutdown_timeout must be positive")
  check (cfg.webUI.enabled ∧ cfg.webUI.dbPath = "")
    (.text "webui.db_path is required when webui is enabled")
  createRawEmailDir mkdirAll cfg
  let spf ← validateMode "spf" cfg.auth.spf
  let dkim ← validateMode "dkim" cfg.auth.dkim
  let dmarc ← validateMode "dmarc" cfg.auth.dmarc
  cfg.smtp.allowedRecipients.forM fun pattern =>
    check (pathMatch pattern "test@example.com" = none) (ConfigError.pattern pattern)
  pure { cfg with auth := ⟨spf, dkim, dmarc⟩ }

end

/-! ## Later checks -/

/-- `configureTLS`: whether TLS is offered.  `load` reads the pair. -/
def configureTLS (cfg : SmtpConfig) (load : String → String → Except String Unit) : Except String Bool := do
  check ((cfg.tlsCert == "") ≠ (cfg.tlsKey == "")) "smtp.tls_cert and smtp.tls_key must be set together"
  if cfg.tlsCert = "" then
    check cfg.requireTLS "smtp.require_tls requires a TLS certificate and key"
    pure false
  else
    (load cfg.tlsCert cfg.tlsKey).mapError ("loading SMTP TLS certificate: " ++ ·)
    pure true

/-- `StartQueue`, until the workers run. -/
def startQueue (started : Bool) (workers : Int64) (recover : Except String Unit) : Except String Unit := do
  check started "delivery queue already started"
  check (workers < 1) "workers must be positive"
  recover

/-! ## Accepted configurations -/

/-- What `validate` checks. -/
structure AppConfig.Valid (cfg : AppConfig) : Prop where
  pair : cfg.smtp.tlsCert = "" ↔ cfg.smtp.tlsKey = ""
  requireTLS : cfg.smtp.requireTLS = true → cfg.smtp.tlsCert ≠ ""
  workers : 1 ≤ cfg.webhook.workers
  shutdownTimeout : 0 < cfg.webhook.shutdownTimeout
  dbPath : cfg.webUI.enabled = true → cfg.webUI.dbPath ≠ ""
  spf : cfg.auth.spf ∈ ["off", "log", "enforce"]
  dkim : cfg.auth.dkim ∈ ["off", "log", "enforce"]
  dmarc : cfg.auth.dmarc ∈ ["off", "log", "enforce"]
  patterns : ∀ pattern ∈ cfg.smtp.allowedRecipients, Glob.parse pattern ≠ none

theorem validateMode_ok {name mode mode' : String} (h : validateMode name mode = .ok mode') :
    mode' ∈ ["off", "log", "enforce"] ∧ mode' = if mode = "" then "log" else mode := by
  unfold validateMode at h
  split_ifs at h with hempty hmode
  · cases h
    rw [if_pos hempty]
    exact ⟨by decide, rfl⟩
  · cases h
    rw [if_neg hempty]
    exact ⟨hmode, rfl⟩

/-- A mode that was accepted is accepted again. -/
theorem validateMode_self {name mode : String} (h : mode ∈ ["off", "log", "enforce"]) :
    validateMode name mode = .ok mode := by
  have hne : mode ≠ "" := by
    rintro rfl
    exact absurd h (by decide)
  rw [validateMode, if_neg hne, if_pos h]

theorem pathMatch_eq_none {pattern name : String} :
    pathMatch pattern name = none ↔ Glob.parse pattern = none := by
  rw [pathMatch, Option.map_eq_none_iff]

section
variable {mkdirAll : String → Except String Unit} {cfg cfg' : AppConfig}

theorem validate_ok (h : AppConfig.validate mkdirAll cfg = .ok cfg') :
    cfg'.Valid ∧ createRawEmailDir mkdirAll cfg = .ok () ∧
      ∃ spf dkim dmarc, cfg' = { cfg with auth := ⟨spf, dkim, dmarc⟩ } := by
  unfold AppConfig.validate at h
  obtain ⟨hpair, h⟩ := check_bind_ok.1 h
  obtain ⟨hrequire, h⟩ := check_bind_ok.1 h
  obtain ⟨hworkers, h⟩ := check_bind_ok.1 h
  obtain ⟨htimeout, h⟩ := check_bind_ok.1 h
  obtain ⟨hdb, h⟩ := check_bind_ok.1 h
  obtain ⟨_, hdir, h⟩ := bind_ok.1 h
  obtain ⟨spf, hspf, h⟩ := bind_ok.1 h
  obtain ⟨dkim, hdkim, h⟩ := bind_ok.1 h
  obtain ⟨dmarc, hdmarc, h⟩ := bind_ok.1 h
  obtain ⟨_, hpatterns, h⟩ := bind_ok.1 h
  cases h
  refine ⟨⟨?_, fun hreq hcert => hrequire ⟨hreq, hcert⟩, Int64.not_lt.1 hworkers, ?_,
    fun hen hpath => hdb ⟨hen, hpath⟩, (validateMode_ok hspf).1, (validateMode_ok hdkim).1,
    (validateMode_ok hdmarc).1, fun pattern hp => ?_⟩, hdir, spf, dkim, dmarc, rfl⟩
  · rw [ne_eq, not_not] at hpair
    rw [← beq_iff_eq, hpair, beq_iff_eq]
  · exact Int64.not_le.1 htimeout
  · have hok := check_ok.1 (forM_ok.1 hpatterns pattern hp)
    rwa [pathMatch_eq_none] at hok

/-- An accepted configuration is accepted as it is. -/
theorem validate_self (h : cfg.Valid) (hdir : createRawEmailDir mkdirAll cfg = .ok ()) :
    AppConfig.validate mkdirAll cfg = .ok cfg := by
  have hpair : (cfg.smtp.tlsCert == "") = (cfg.smtp.tlsKey == "") := by
    rw [Bool.eq_iff_iff, beq_iff_eq, beq_iff_eq]
    exact h.pair
  have hpatterns : (cfg.smtp.allowedRecipients.forM fun pattern =>
      check (pathMatch pattern "test@example.com" = none) (ConfigError.pattern pattern)) = .ok () := by
    rw [forM_ok]
    intro pattern hp
    rw [check_ok, pathMatch_eq_none]
    exact h.patterns pattern hp
  unfold AppConfig.validate
  rw [check_bind_ok]
  refine ⟨by simp [hpair], check_bind_ok.2 ⟨fun hreq => h.requireTLS hreq.1 hreq.2, check_bind_ok.2
    ⟨Int64.not_lt.2 h.workers, check_bind_ok.2 ⟨Int64.not_le.2 h.shutdownTimeout, check_bind_ok.2
      ⟨fun hen => h.dbPath hen.1 hen.2, bind_ok.2 ⟨(), hdir, ?_⟩⟩⟩⟩⟩⟩
  exact bind_ok.2 ⟨_, validateMode_self h.spf, bind_ok.2 ⟨_, validateMode_self h.dkim,
    bind_ok.2 ⟨_, validateMode_self h.dmarc, bind_ok.2 ⟨(), hpatterns, rfl⟩⟩⟩⟩

end

/-! ## Patterns -/

section
variable {u : Unicode}

/-- Lower case keeps the characters of patterns. -/
theorem keepsSyntax_lower (hu : u.Regular) : Glob.KeepsSyntax u.toLower := by
  intro s hs c
  have hall : ['*', '?', '[', '\\', '^', ']', '-', '/'].all fun s =>
      decide (s.toNat < 128) && !s.isAlpha := by
    decide
  have hc := List.all_eq_true.1 hall s hs
  rw [Bool.and_eq_true, decide_eq_true_eq, Bool.not_eq_true'] at hc
  exact hu.toLower_eq_iff hc.1 hc.2 c

/-- A pattern in lower case has the terms in lower case. -/
theorem parse_lower (hu : u.Regular) {pattern : String} {ts : List Glob.Term}
    (h : Glob.parse pattern = some ts) :
    Glob.parse (u.lower pattern) = some (ts.map (Glob.Term.map u.toLower)) := by
  rw [Glob.parse] at h
  rw [Glob.parse, Unicode.toList_lower, List.length_map, Glob.terms_map (keepsSyntax_lower hu), h,
    Option.map_some]

end

/-- How a server runs under a configuration. -/
structure AppConfig.Runs (u : Unicode) (cfg : AppConfig) : Prop where
  /-- the queue starts, if the deliveries can be recovered -/
  queue : ∀ recover, startQueue false cfg.webhook.workers recover = recover
  /-- the server listens, if the pair can be read, and offers TLS if it requires it -/
  listens : ∀ load, load cfg.smtp.tlsCert cfg.smtp.tlsKey = .ok () →
    ∃ tls, configureTLS cfg.smtp load = .ok tls ∧ (cfg.smtp.requireTLS = true → tls = true)
  /-- the modes are what they are called -/
  modes : ∀ mode ∈ [cfg.auth.spf, cfg.auth.dkim, cfg.auth.dmarc], (AuthMode.ofText mode).text = mode
  /-- recipients are those that the patterns stand for in lower case -/
  recipients : ∀ r, acceptsRcpt u cfg.smtp r = true ↔ cfg.smtp.allowedRecipients = [] ∨
    ∃ pattern ∈ cfg.smtp.allowedRecipients, ∃ ts, Glob.parse pattern = some ts ∧
      Glob.Denotes (ts.map (Glob.Term.map u.toLower)) (u.lower r).toList
  /-- among them, without ranges, those that the patterns stand for as they are -/
  written : ∀ pattern ∈ cfg.smtp.allowedRecipients, ∃ ts, Glob.parse pattern = some ts ∧
    ((∀ negated rs, Glob.Term.range negated rs ∉ ts) →
      ∀ r, Glob.Denotes ts r.toList → acceptsRcpt u cfg.smtp r = true)

theorem AppConfig.Valid.recipients {u : Unicode} (hu : u.Regular) {cfg : AppConfig} (h : cfg.Valid)
    (r : String) : acceptsRcpt u cfg.smtp r = true ↔ cfg.smtp.allowedRecipients = [] ∨
      ∃ pattern ∈ cfg.smtp.allowedRecipients, ∃ ts, Glob.parse pattern = some ts ∧
        Glob.Denotes (ts.map (Glob.Term.map u.toLower)) (u.lower r).toList := by
  have hmatch {pattern : String} {ts : List Glob.Term} (hparse : Glob.parse pattern = some ts) :
      pathMatch (u.lower pattern) (u.lower r) = some true ↔
        Glob.Denotes (ts.map (Glob.Term.map u.toLower)) (u.lower r).toList := by
    rw [pathMatch, parse_lower hu hparse, Option.map_some, Option.some.injEq, Glob.matches_iff]
  rw [acceptsRcpt_iff]
  refine or_congr_right ⟨?_, ?_⟩
  · rintro ⟨pattern, hp, hm⟩
    obtain ⟨ts, hts⟩ := Option.ne_none_iff_exists'.1 (h.patterns pattern hp)
    exact ⟨pattern, hp, ts, hts, (hmatch hts).1 hm⟩
  · rintro ⟨pattern, hp, ts, hts, hd⟩
    exact ⟨pattern, hp, (hmatch hts).2 hd⟩

/-- **A configuration that is accepted runs.**  It would be accepted again as it
    is now, neither `StartQueue` nor `configureTLS` refuses its values, and every
    pattern for recipients takes part in the answers of `Rcpt`. -/
theorem validated_runs {u : Unicode} (hu : u.Regular) {mkdirAll : String → Except String Unit}
    {cfg cfg' : AppConfig} (h : AppConfig.validate mkdirAll cfg = .ok cfg') :
    AppConfig.validate mkdirAll cfg' = .ok cfg' ∧ cfg'.Runs u := by
  obtain ⟨hv, hdir, spf, dkim, dmarc, heq⟩ := validate_ok h
  have hdir' : createRawEmailDir mkdirAll cfg' = .ok () := by
    rw [heq]
    exact hdir
  refine ⟨validate_self hv hdir', ?_, ?_, ?_, hv.recipients hu, ?_⟩
  · intro recover
    have hworkers : ¬cfg'.webhook.workers < 1 := Int64.not_lt.2 hv.workers
    simp [startQueue, check, hworkers, bind, Except.bind]
  · intro load hload
    have hpair : (cfg'.smtp.tlsCert == "") = (cfg'.smtp.tlsKey == "") := by
      rw [Bool.eq_iff_iff, beq_iff_eq, beq_iff_eq]
      exact hv.pair
    by_cases hcert : cfg'.smtp.tlsCert = ""
    · have hreq : cfg'.smtp.requireTLS = false := by
        rw [Bool.eq_false_iff]
        exact fun hreq => hv.requireTLS hreq hcert
      refine ⟨false, ?_, fun htrue => ?_⟩
      · rw [configureTLS, check_bind_ok, if_pos hcert]
        exact ⟨by simp [hpair], check_bind_ok.2 ⟨by simp [hreq], rfl⟩⟩
      · rw [hreq] at htrue
        cases htrue
    · refine ⟨true, ?_, fun _ => rfl⟩
      rw [configureTLS, check_bind_ok, if_neg hcert, hload]
      exact ⟨by simp [hpair], rfl⟩
  · intro mode hmode
    have hthree : mode ∈ ["off", "log", "enforce"] := by
      simp only [List.mem_cons, List.not_mem_nil, or_false] at hmode
      rcases hmode with rfl | rfl | rfl
      · exact hv.spf
      · exact hv.dkim
      · exact hv.dmarc
    simp only [List.mem_cons, List.not_mem_nil, or_false] at hthree
    rcases hthree with rfl | rfl | rfl
    · rfl
    · rfl
    · rfl
  · intro pattern hp
    obtain ⟨ts, hts⟩ := Option.ne_none_iff_exists'.1 (hv.patterns pattern hp)
    refine ⟨ts, hts, fun hranges r hr => (hv.recipients hu r).2 (.inr ⟨pattern, hp, ts, hts, ?_⟩)⟩
    rw [Unicode.toList_lower]
    exact hr.map (keepsSyntax_lower hu) hranges

/-- A configuration file with a mode left out and two patterns. -/
def sampleConfig : AppConfig :=
  { AppConfig.defaults with
    smtp := ⟨"cert.pem", "key.pem", true, ["*@Example.org", "[a-c]?@b.com"]⟩
    auth := ⟨"enforce", "", "off"⟩ }

theorem validated_runs_sample : ∃ cfg, AppConfig.validate (fun _ => .ok ()) sampleConfig = .ok cfg ∧
    AppConfig.validate (fun _ => .ok ()) cfg = .ok cfg ∧ cfg.Runs .ascii := by
  have hok : AppConfig.validate (fun _ => .ok ()) sampleConfig =
      .ok { sampleConfig with auth := ⟨"enforce", "log", "off"⟩ } := by decide +kernel
  exact ⟨_, hok, validated_runs ascii_regular hok⟩

theorem defaults_valid (mkdirAll : String → Except String Unit) :
    AppConfig.validate mkdirAll AppConfig.defaults = .ok AppConfig.defaults := by
  refine validate_self ⟨by decide, by decide, by decide, by decide, by decide, by decide,
    by decide, by decide, fun _ h => ?_⟩ rfl
  cases h

end Mailrelay
