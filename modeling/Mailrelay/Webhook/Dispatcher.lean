/-
  Sending webhooks (`internal/webhook/dispatcher.go`).

  A `Runtime` collects what the program takes from Go's libraries: the JSON
  encoding of an email and of a snapshot, template rendering, quoting, and the
  conversion of an out-of-range `float64` to `int64`, which Go leaves to the
  implementation (`amd64` yields the least `int64`).

  A request is seen through its outcome only.  `dispatchOne` is the direct
  path: a loop that sends, waits `backoff` and sends again.  It returns the
  result together with the number of sends and the waits between them.

  * `le_backoff`: a wait is at least the least `int64`.
-/
import Mathlib.Data.Nat.Log
import Mailrelay.Models

namespace Mailrelay

/-! ## The runtime -/

/-- `deliverySnapshot` (`internal/webhook/queue.go`): a request as it is stored
    in the queue. -/
structure DeliverySnapshot where
  rule : Rule
  signed : Bool
  payload : String
  retry : RetryConfig
  payloadError : String
  deriving DecidableEq, Repr

/-- The values of type `float64` that `backoff` computes. -/
inductive Float64 where
  | finite (n : ℤ)
  | inf (negative : Bool)
  | nan
  deriving DecidableEq, Repr

structure Runtime where
  /-- `json.Marshal(email)` -/
  marshalEmail : ParsedEmail → String
  /-- `json.Unmarshal` into a `map[string]json.RawMessage` -/
  unmarshalMap : String → Except String (List (String × String))
  parseTemplate : String → Except String Unit
  executeTemplate : String → List (String × String) → Except String String
  marshalSnapshot : DeliverySnapshot → Except String String
  unmarshalSnapshot : String → Except String DeliverySnapshot
  /-- The verb `%q` of `fmt` -/
  quote : String → String
  outOfRange : Float64 → Int64

/-! ## Payloads -/

/-- Template variables and the JSON keys they stand for. -/
def templateFields : List (String × String) :=
  [("From", "from"), ("To", "to"), ("CC", "cc"), ("Subject", "subject"),
    ("TextBody", "text_body"), ("HTMLBody", "html_body"), ("Headers", "headers"),
    ("Attachments", "attachments"), ("AuthResult", "auth_result"),
    ("EnvelopeFrom", "envelope_from"), ("EnvelopeTo", "envelope_to")]

def emailTemplateData (rt : Runtime) (email : ParsedEmail) :
    Except String (List (String × String)) := do
  let raw ← rt.unmarshalMap (rt.marshalEmail email)
  pure (templateFields.map fun (goName, jsonKey) => (goName, (raw.lookup jsonKey).getD "null"))

def buildPayload (rt : Runtime) (email : ParsedEmail) (wh : WebhookConfig) :
    Except String String :=
  if wh.payloadTemplate ≠ "" then
    match emailTemplateData rt email with
    | .error e => .error ("preparing template data: " ++ e)
    | .ok data =>
      match rt.parseTemplate wh.payloadTemplate with
      | .error e => .error ("parsing template: " ++ e)
      | .ok () =>
        match rt.executeTemplate wh.payloadTemplate data with
        | .error e => .error ("executing template: " ++ e)
        | .ok payload => .ok payload
  else .ok (rt.marshalEmail email)

/-- The text of a payload error is not empty: `runQueued` tells an error by
    its text. -/
theorem buildPayload_error_ne {rt : Runtime} {email : ParsedEmail} {wh : WebhookConfig} {e : String}
    (h : buildPayload rt email wh = .error e) : e ≠ "" := by
  -- every text has a fixed beginning
  have begins : ∀ {s t : String}, s ≠ "" → s ++ t ≠ "" := by
    intro s t hs he
    exact hs (String.append_eq_empty_iff.1 he).1
  unfold buildPayload at h
  split_ifs at h
  split at h
  next => cases h; exact begins (by decide)
  next =>
    split at h
    next => cases h; exact begins (by decide)
    next =>
      split at h
      next => cases h; exact begins (by decide)
      next => cases h

/-! ## Requests -/

/-- The errors of `send`: a `webhookError`, an error that wraps
    `ErrPrivateAddress`, a timeout, or another one. -/
inductive SendError where
  | webhook (statusCode : ℤ) (responseBody : String)
  | privateAddress (text : String)
  | timeout (text : String)
  | other (text : String)
  deriving DecidableEq, Repr

/-- `err.Error()` -/
def SendError.error : SendError → String
  | webhook statusCode _ => "webhook returned status " ++ toString statusCode
  | privateAddress text | timeout text | other text => text

@[simp] theorem SendError.error_privateAddress (text : String) :
    (privateAddress text).error = text := rfl

@[simp] theorem SendError.error_timeout (text : String) : (timeout text).error = text := rfl

/-- The body of a 2xx response, or an error. -/
abbrev SendOutcome := Except SendError String

/-! ## Backoff -/

/-- `float64(n)`: the nearest integer with 53 significant bits, ties to even. -/
def float64 (n : ℤ) : ℤ :=
  let m := n.natAbs
  let e := Nat.log2 m + 1 - 53
  let q := m / 2 ^ e
  let r := m % 2 ^ e
  let q' := if 2 ^ e < 2 * r ∨ (2 ^ e = 2 * r ∧ q % 2 = 1) then q + 1 else q
  n.sign * (q' * 2 ^ e : ℕ)

/-- `float64(n) * math.Pow(2, k)`, towards zero.  `math.Pow(2, k)` is `+Inf`
    from `k = 1024` on. -/
def mulPow2 (n k : ℤ) : Float64 :=
  if 1024 ≤ k then
    if float64 n = 0 then .nan else .inf (decide (n < 0))
  else if 0 ≤ k then .finite (float64 n * 2 ^ k.toNat)
  else .finite ((float64 n).tdiv (2 ^ (-k).toNat))

/-- `time.Duration(x)` -/
def toDuration (rt : Runtime) (x : Float64) : Int64 :=
  match x with
  | .finite n => if minInt64 ≤ n ∧ n ≤ maxInt64 then Int64.ofInt n else rt.outOfRange x
  | x => rt.outOfRange x

def backoff (rt : Runtime) (retry : RetryConfig) (attempt : ℤ) : Int64 :=
  let wait := toDuration rt (mulPow2 retry.initialWait.toInt (attempt - 1))
  if wait < retry.maxWait then wait else retry.maxWait

theorem le_backoff (rt : Runtime) (retry : RetryConfig) (attempt : ℤ) :
    minInt64 ≤ (backoff rt retry attempt).toInt := by
  have := Int64.le_toInt (backoff rt retry attempt)
  unfold minInt64
  omega

/-! ## The direct path -/

/-- The retry settings of a rule: its overrides over the global ones. -/
def effectiveRetry (global : RetryConfig) (wh : WebhookConfig) : RetryConfig where
  maxRetries := wh.effectiveMaxRetries global.maxRetries
  initialWait := wh.effectiveInitialWait global.initialWait
  maxWait := wh.effectiveMaxWait global.maxWait
  timeout := wh.effectiveTimeout global.timeout
  retryOnTimeout := wh.effectiveRetryOnTimeout global.retryOnTimeout

/-- A result, the number of sends it took and the waits between them. -/
structure Dispatched where
  result : DeliveryResult
  sends : ℕ
  waits : List Int64
  deriving DecidableEq, Repr

/-- What happens to one call of `dispatchOne`: the outcome of each send, and
    for each wait the error of the context if it is done before the timer. -/
structure DispatchEnv where
  send : ℕ → SendOutcome
  cancelled : ℕ → Option String

/-- The loop over `attempt`, with `n` iterations left.  `result` and `lastErr`
    are the variables of the source. -/
def dispatchLoop (rt : Runtime) (env : DispatchEnv) (retry : RetryConfig) (waits : List Int64)
    (result : DeliveryResult) (lastErr : Option SendError) (attempt : ℕ) : ℕ → Dispatched
  | 0 =>
    let result := { result with status := .failed }
    match lastErr with
    | none => ⟨result, attempt, waits⟩
    | some err =>
      let result := { result with error := err.error }
      match err with
      | .webhook statusCode responseBody =>
        ⟨{ result with statusCode := statusCode, responseBody := responseBody }, attempt, waits⟩
      | _ => ⟨result, attempt, waits⟩
  | n + 1 =>
    let result := { result with attempts := attempt + 1 }
    let waits' := if 0 < attempt then waits ++ [backoff rt retry attempt] else waits
    match if 0 < attempt then env.cancelled attempt else none with
    | some e => ⟨{ result with status := .cancelled, error := e }, attempt, waits'⟩
    | none =>
      match env.send attempt with
      | .ok respBody =>
        ⟨{ result with status := .success, responseBody := respBody }, attempt + 1, waits'⟩
      | .error err =>
        match err with
        | .privateAddress text =>
          ⟨{ result with status := .rejected, error := text }, attempt + 1, waits'⟩
        | .webhook statusCode responseBody =>
          if 400 ≤ statusCode ∧ statusCode < 500 then
            ⟨{ result with
                status := .rejected, statusCode := statusCode, error := err.error,
                responseBody := responseBody }, attempt + 1, waits'⟩
          else dispatchLoop rt env retry waits' result (some err) (attempt + 1) n
        | .timeout text =>
          if !retry.retryOnTimeout then
            ⟨{ result with status := .failed, error := text }, attempt + 1, waits'⟩
          else dispatchLoop rt env retry waits' result (some err) (attempt + 1) n
        | .other _ => dispatchLoop rt env retry waits' result (some err) (attempt + 1) n

/-- An empty `DeliveryResult` of a rule: Go's zero values, apart from the
    status, which every path sets. -/
def emptyResult (ruleName : String) : DeliveryResult := ⟨ruleName, .failed, 0, "", "", 0⟩

def dispatchOne (rt : Runtime) (env : DispatchEnv) (global : RetryConfig) (email : ParsedEmail)
    (rule : Rule) : Dispatched :=
  let retry := effectiveRetry global rule.webhook
  match buildPayload rt email rule.webhook with
  | .error e => ⟨{ emptyResult rule.name with status := .error, error := e }, 0, []⟩
  | .ok _ =>
    dispatchLoop rt env retry [] (emptyResult rule.name) none 0 (retry.maxRetries + 1).toNat

end Mailrelay
