/-
  The data model (`internal/models`) and Go's integers and times.

  A `time.Duration` (nanoseconds) is an `Int64`; a counter of Go's type `int`
  is an integer.  A `time.Time` is the number of nanoseconds since the Unix epoch; `zeroTime` is
  Go's zero time (year 1), which `IsZero` tests for, and `unixNano` the 64-bit
  `UnixNano`.  Clock readings (`time.Now`) are `Now`s: after the epoch and
  before the last instant that `UnixNano` can represent.

  The structures keep the names and fields of the source.  A `Uuid` stands for
  the text of `uuid.NewString`, of which only equality matters.
-/
import Mathlib.Algebra.Order.Ring.Int
import Mathlib.Data.List.Basic

namespace Mailrelay

/-! ## Integers and times -/

/-- Two's complement wrap-around of a 64-bit integer. -/
def wrap64 (n : ℤ) : ℤ := n.bmod (2 ^ 64)

def minInt64 : ℤ := -9223372036854775808

def maxInt64 : ℤ := 9223372036854775807

theorem wrap64_of_mem {n : ℤ} (h₁ : minInt64 ≤ n) (h₂ : n ≤ maxInt64) : wrap64 n = n := by
  unfold wrap64 minInt64 maxInt64 at *
  exact Int.bmod_eq_of_le (by omega) (by omega)

theorem wrap64_le (n : ℤ) : wrap64 n ≤ maxInt64 := by
  have : n.bmod (2 ^ 64) < (2 ^ 64 + 1) / 2 := Int.bmod_lt (by decide)
  unfold wrap64 maxInt64; omega

def second : ℤ := 1000000000

/-- Go's zero time, `0001-01-01T00:00:00Z`. -/
def zeroTime : ℤ := -62135596800 * second

def isZero (t : ℤ) : Bool := decide (t = zeroTime)

def unixNano (t : ℤ) : ℤ := wrap64 t

structure Now where
  time : ℤ
  epoch : 0 ≤ time
  range : time < maxInt64

namespace Now

theorem not_isZero (now : Now) : isZero now.time = false := by
  have := now.epoch
  exact decide_eq_false (by unfold zeroTime second; omega)

theorem unixNano_eq (now : Now) : unixNano now.time = now.time := by
  have h₁ := now.epoch
  have h₂ := now.range
  exact wrap64_of_mem (by unfold minInt64; omega) (by omega)

theorem unixNano_lt (now : Now) : unixNano now.time < maxInt64 := by
  rw [now.unixNano_eq]; exact now.range

end Now

/-! ## Emails -/

abbrev Uuid := ℕ

/-- `unset` is the empty text, the zero value. -/
inductive AuthCheckResult where
  | unset | pass | fail | none
  deriving DecidableEq, Repr

structure AuthResult where
  tls : Bool
  spf : AuthCheckResult
  dkim : AuthCheckResult
  dmarc : AuthCheckResult
  arc : AuthCheckResult
  deriving DecidableEq, Repr

structure Attachment where
  filename : String
  contentType : String
  content : String
  deriving DecidableEq, Repr

/-- `mail.Header`: canonical keys, each with its values in message order. -/
abbrev MailHeader := List (String × List String)

structure ParsedEmail where
  from_ : String
  to_ : List String
  cc : List String
  subject : String
  textBody : String
  htmlBody : String
  headers : MailHeader
  attachments : List Attachment
  authResult : Option AuthResult
  envelopeFrom : String
  envelopeTo : List String
  deriving DecidableEq, Repr

inductive EmailStatus where
  | received | dropped | delivered | partialFailure | failed | rejected
  deriving DecidableEq, Repr

structure EmailRecord where
  id : Uuid
  receivedAt : ℤ
  envelopeFrom : String
  envelopeTo : List String
  headerFrom : String
  headerTo : List String
  subject : String
  status : EmailStatus
  rejectionReason : String
  parsedEmail : Option ParsedEmail
  authResult : Option AuthResult
  deriving DecidableEq, Repr

/-! ## Rules -/

structure MatchCondition where
  field : String
  pattern : String
  header : String
  deriving DecidableEq, Repr

structure MatcherConfig where
  mode : String
  conditions : List MatchCondition
  deriving DecidableEq, Repr

/-- `WebhookConfig`; an override is `none` when the global default applies. -/
structure WebhookConfig where
  signingSecret : String
  url : String
  method : String
  headers : List (String × String)
  payloadTemplate : String
  timeout : Option Int64
  maxRetries : Option ℤ
  initialWait : Option Int64
  maxWait : Option Int64
  retryOnTimeout : Option Bool
  deriving DecidableEq, Repr

namespace WebhookConfig

/-- A number of seconds as a `time.Duration`, or the global default. -/
def effectiveSeconds (n : Option Int64) (global : Int64) : Int64 :=
  match n with
  | some n => n * 1000000000
  | none => global

def effectiveTimeout (w : WebhookConfig) (global : Int64) : Int64 :=
  effectiveSeconds w.timeout global

def effectiveMaxRetries (w : WebhookConfig) (global : ℤ) : ℤ := w.maxRetries.getD global

def effectiveInitialWait (w : WebhookConfig) (global : Int64) : Int64 :=
  effectiveSeconds w.initialWait global

def effectiveMaxWait (w : WebhookConfig) (global : Int64) : Int64 :=
  effectiveSeconds w.maxWait global

def effectiveRetryOnTimeout (w : WebhookConfig) (global : Bool) : Bool :=
  w.retryOnTimeout.getD global

end WebhookConfig

structure Rule where
  name : String
  «match» : MatcherConfig
  webhook : WebhookConfig
  deriving DecidableEq, Repr

/-- A row of the `rules` table.  `M` and `W` are what stands for its matcher and
    its webhook: the texts in the columns, or the values that are read from them. -/
structure StoredRule (M W : Type) where
  id : Uuid
  name : String
  enabled : Bool
  «match» : M
  webhook : W
  position : ℤ
  createdAt : ℤ
  updatedAt : ℤ
  deriving DecidableEq, Repr

abbrev RuleRecord := StoredRule MatcherConfig WebhookConfig

/-- The settings of a rule, with the same two types. -/
structure RuleSettings (M W : Type) where
  name : String
  enabled : Bool
  position : ℤ
  «match» : M
  webhook : W
  deriving DecidableEq, Repr

abbrev TransferRule := RuleSettings MatcherConfig WebhookConfig

def StoredRule.toRule (r : RuleRecord) : Rule := ⟨r.name, r.«match», r.webhook⟩

structure RetryConfig where
  maxRetries : ℤ
  initialWait : Int64
  maxWait : Int64
  timeout : Int64
  retryOnTimeout : Bool
  deriving DecidableEq, Repr

/-! ## Deliveries -/

/-- The `status` of a delivery. -/
inductive DeliveryStatus where
  | pending | inProgress | success | failed | rejected | error | cancelled
  deriving DecidableEq, Repr

namespace DeliveryStatus

/-- `status IN ('pending','in_progress')`. -/
def unfinished : DeliveryStatus → Bool
  | pending | inProgress => true
  | _ => false

/-- The statuses of a final result. -/
def final : DeliveryStatus → Bool
  | success | failed | rejected | error => true
  | _ => false

theorem unfinished_iff {s : DeliveryStatus} : s.unfinished ↔ s = pending ∨ s = inProgress := by
  cases s <;> simp [unfinished]

theorem final_iff {s : DeliveryStatus} :
    s.final ↔ s = success ∨ s = failed ∨ s = rejected ∨ s = error := by
  cases s <;> simp [final]

theorem not_unfinished_of_final {s : DeliveryStatus} (h : s.final) : s.unfinished = false := by
  cases s <;> simp_all [final, unfinished]

end DeliveryStatus

structure DeliveryResult where
  ruleName : String
  status : DeliveryStatus
  statusCode : ℤ
  error : String
  responseBody : String
  attempts : ℤ
  deriving DecidableEq, Repr

/-- `computeStatus` (`internal/webui/handler.go`): the status of an email whose
    deliveries ended in `results`. -/
def computeStatus (results : List DeliveryResult) : EmailStatus :=
  if results.length = 0 then .dropped
  else
    let successes := results.countP fun r => r.status = .success
    if successes = results.length then .delivered
    else if successes > 0 then .partialFailure
    else .failed

end Mailrelay
