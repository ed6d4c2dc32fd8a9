/-
  Queued webhooks (`internal/webhook/queue.go`): what is stored for a delivery
  and what one attempt does with it.

  `runQueued` is split where the program is observable.  `prepare` decides
  from the stored snapshot and the rules of the engine whether a request is
  made at all; `settle` turns the outcome of the request into the result and
  the due time that `FinishDelivery` saves.  A due time of `zeroTime` marks a
  final result.

  * `prepare_error`: without a request the result is a final error;
  * `settle_cases`: a settled request is final, released by a cancellation, or
    scheduled again within the retry budget.
-/
import Mailrelay.Storage.Queue
import Mailrelay.Webhook.Dispatcher

namespace Mailrelay

/-! ## Enqueueing -/

/-- The snapshot of one rule.  The secret is kept out of the database. -/
def snapshotOf (rt : Runtime) (global : RetryConfig) (email : ParsedEmail) (rule : Rule) :
    DeliverySnapshot where
  rule := { rule with webhook := { rule.webhook with signingSecret := "" } }
  signed := rule.webhook.signingSecret != ""
  payload := match buildPayload rt email rule.webhook with
    | .ok payload => payload
    | .error _ => ""
  retry := effectiveRetry global rule.webhook
  payloadError := match buildPayload rt email rule.webhook with
    | .ok _ => ""
    | .error e => e

/-- The jobs that `Enqueue` builds, one for each rule, in order.  The fields
    that the store fills in are zero. -/
def enqueueJobs (rt : Runtime) (global : RetryConfig) (email : ParsedEmail) :
    List Rule → Except String (List QueuedDelivery)
  | [] => .ok []
  | rule :: rules => do
    let data ← rt.marshalSnapshot (snapshotOf rt global email rule)
    let jobs ← enqueueJobs rt global email rules
    pure (⟨0, 0, rule.name, data, 0, 0⟩ :: jobs)

inductive EnqueueError where
  /-- `json.Marshal(snap)` -/
  | marshal (text : String)
  | store (e : DbError)
  deriving DecidableEq, Repr

/-- Jobs with the ids that `EnqueueDeliveries` draws for them. -/
def numbered (ids : ℕ → Uuid) (jobs : List QueuedDelivery) : List (Uuid × QueuedDelivery) :=
  jobs.mapIdx fun i job => (ids i, job)

/-- `Dispatcher.Enqueue` -/
def enqueue (rt : Runtime) (global : RetryConfig) (email : ParsedEmail) (rules : List Rule)
    (emailId batch : Uuid) (ids : ℕ → Uuid) (now : ℤ) (fuse : Option ℕ) (db : Db) :
    Except EnqueueError Unit × Db :=
  match enqueueJobs rt global email rules with
  | .error e => (.error (.marshal e), db)
  | .ok jobs =>
    match Tx.transaction (enqueueDeliveries emailId batch (numbered ids jobs) now) fuse db with
    | (.ok (), db) => (.ok (), db)
    | (.error e, db) => (.error (.store e), db)

/-- A job carries the stored snapshot of its rule. -/
def JobOf (rt : Runtime) (global : RetryConfig) (email : ParsedEmail) (rule : Rule)
    (job : QueuedDelivery) : Prop :=
  job.ruleName = rule.name ∧ rt.marshalSnapshot (snapshotOf rt global email rule) = .ok job.snapshot

theorem enqueueJobs_ok {rt : Runtime} {global : RetryConfig} {email : ParsedEmail}
    {rules : List Rule} {jobs : List QueuedDelivery}
    (h : enqueueJobs rt global email rules = .ok jobs) :
    List.Forall₂ (JobOf rt global email) rules jobs := by
  induction rules generalizing jobs with
  | nil => cases h; exact .nil
  | cons rule rules ih =>
    rcases hm : rt.marshalSnapshot (snapshotOf rt global email rule) with e | data
    · simp only [enqueueJobs, hm] at h; cases h
    · rcases hj : enqueueJobs rt global email rules with e | jobs'
      · simp only [enqueueJobs, hm, hj] at h; cases h
      · simp only [enqueueJobs, hm, hj] at h
        cases h
        exact .cons ⟨rfl, hm⟩ (ih hj)

/-- What a successful `Enqueue` committed. -/
theorem enqueue_ok {rt : Runtime} {global : RetryConfig} {email : ParsedEmail} {rules : List Rule}
    {emailId batch : Uuid} {ids : ℕ → Uuid} {now : ℤ} {fuse : Option ℕ} {db db' : Db}
    (h : enqueue rt global email rules emailId batch ids now fuse db = (.ok (), db')) :
    ∃ jobs, List.Forall₂ (JobOf rt global email) rules jobs ∧
      Enqueued db emailId batch (numbered ids jobs) now db' := by
  unfold enqueue at h
  split at h
  next => cases h
  next jobs hj =>
    split at h
    next db₁ ht =>
      cases h
      obtain ⟨_, hok⟩ := Tx.transaction_ok ht
      exact ⟨jobs, enqueueJobs_ok hj, enqueueDeliveries_ok hok⟩
    next => cases h

/-- A failed one changed nothing. -/
theorem enqueue_error {rt : Runtime} {global : RetryConfig} {email : ParsedEmail} {rules : List Rule}
    {emailId batch : Uuid} {ids : ℕ → Uuid} {now : ℤ} {fuse : Option ℕ} {db db' : Db}
    {e : EnqueueError}
    (h : enqueue rt global email rules emailId batch ids now fuse db = (.error e, db')) : db' = db := by
  unfold enqueue at h
  split at h
  next => cases h; rfl
  next =>
    split at h
    next => cases h
    next ht => cases h; exact Tx.transaction_error ht

/-! ## One attempt -/

/-- `Engine.SigningSecret` -/
def signingSecret (rules : List Rule) (name : String) : Option String :=
  (rules.find? fun r => r.name == name).map fun r => r.webhook.signingSecret

/-- `resolveSecret`, with the secrets of the engine's rules as `main` installs
    it.  A delivery that was signed when enqueued is never sent unsigned. -/
def resolveSecret (rt : Runtime) (rules : List Rule) (snap : DeliverySnapshot) :
    Except String String :=
  if !snap.signed then .ok ""
  else
    let gone := "signing secret for rule " ++ rt.quote snap.rule.name ++ " is no longer available"
    match signingSecret rules snap.rule.name with
    | some secret => if secret ≠ "" then .ok secret else .error gone
    | none => .error gone

/-- `runQueued` up to the request: the snapshot to send, or a result. -/
def prepare (rt : Runtime) (rules : List Rule) (job : QueuedDelivery) :
    Except DeliveryResult DeliverySnapshot :=
  let result : DeliveryResult := ⟨job.ruleName, .error, 0, "", "", job.attempts⟩
  match rt.unmarshalSnapshot job.snapshot with
  | .error e => .error { result with error := e }
  | .ok snap =>
    if snap.payloadError ≠ "" then .error { result with error := snap.payloadError }
    else
      match resolveSecret rt rules snap with
      | .error e => .error { result with error := e }
      | .ok secret => .ok { snap with
          rule := { snap.rule with webhook := { snap.rule.webhook with signingSecret := secret } } }

/-- What `runQueued` reads off an error: status, status code, body and whether
    it may be retried. -/
def classify (retry : RetryConfig) (err : SendError) : DeliveryStatus × ℤ × String × Bool :=
  match err with
  | .webhook statusCode responseBody =>
    if 400 ≤ statusCode ∧ statusCode < 500 then (.rejected, statusCode, responseBody, false)
    else (.failed, statusCode, responseBody, true)
  | .privateAddress _ => (.rejected, 0, "", false)
  | .timeout _ => (.failed, 0, "", retry.retryOnTimeout)
  | .other _ => (.failed, 0, "", true)

/-- `runQueued` after the request: the result and the next due time.
    `cancelled` is whether the context of the queue is done. -/
def settle (rt : Runtime) (job : QueuedDelivery) (retry : RetryConfig) (outcome : SendOutcome)
    (cancelled : Bool) (now : ℤ) : DeliveryResult × ℤ :=
  let attempts := job.attempts + 1
  match outcome with
  | .ok body => (⟨job.ruleName, .success, 0, "", body, attempts⟩, zeroTime)
  | .error err =>
    let (status, statusCode, responseBody, retryable) := classify retry err
    let result : DeliveryResult :=
      ⟨job.ruleName, status, statusCode, err.error, responseBody, attempts⟩
    if cancelled then ({ result with status := .pending, attempts := job.attempts }, now)
    else if retryable = true ∧ attempts ≤ retry.maxRetries then
      ({ result with status := .pending }, now + (backoff rt retry attempts).toInt)
    else (result, zeroTime)

/-- What an attempt did: made no request, completed one, or had it cancelled
    with the queue. -/
inductive Attempt where
  | unsent | completed | cancelled
  deriving DecidableEq, Repr

def Attempt.of (outcome : SendOutcome) (cancelled : Bool) : Attempt :=
  match outcome with
  | .ok _ => .completed
  | .error _ => if cancelled then .cancelled else .completed

/-- The result with which `work` releases a claimed delivery. -/
def releaseResult (job : QueuedDelivery) : DeliveryResult := ⟨"", .pending, 0, "", "", job.attempts⟩

/-! ## What an attempt does -/

section
variable {rt : Runtime} {rules : List Rule} {job : QueuedDelivery}

theorem prepare_error {result : DeliveryResult} (h : prepare rt rules job = .error result) :
    result.status = .error ∧ result.attempts = job.attempts := by
  unfold prepare at h
  split at h
  next => cases h; exact ⟨rfl, rfl⟩
  next =>
    split_ifs at h
    · cases h; exact ⟨rfl, rfl⟩
    · split at h
      next => cases h; exact ⟨rfl, rfl⟩
      next => cases h

/-- The snapshot that is sent is the stored one, with the secret filled in. -/
theorem prepare_ok {snap : DeliverySnapshot} (h : prepare rt rules job = .ok snap) :
    ∃ stored, rt.unmarshalSnapshot job.snapshot = .ok stored ∧ stored.payloadError = "" ∧
      snap.retry = stored.retry ∧ snap.payload = stored.payload := by
  unfold prepare at h
  split at h
  next => cases h
  next stored hs =>
    split_ifs at h with hp
    split at h
    next => cases h
    next => cases h; exact ⟨stored, hs, not_not.1 hp, rfl, rfl⟩

theorem classify_status (retry : RetryConfig) (err : SendError) : (classify retry err).1.final := by
  unfold classify
  split
  · split_ifs <;> rfl
  · rfl
  · rfl
  · rfl

/-- Whether an outcome is retried, with `attempts` requests made. -/
def retries (retry : RetryConfig) (attempts : ℤ) : SendOutcome → Bool
  | .ok _ => false
  | .error err => (classify retry err).2.2.2 && decide (attempts ≤ retry.maxRetries)

/-- **A settled request** is final and counted, released uncounted because the
    queue was cancelled, or scheduled again. -/
theorem settle_cases {retry : RetryConfig} {outcome : SendOutcome} {cancelled : Bool} {now : ℤ}
    {result : DeliveryResult} {next : ℤ}
    (h : settle rt job retry outcome cancelled now = (result, next)) :
    (next = zeroTime ∧ result.status.final ∧ result.attempts = job.attempts + 1 ∧
      Attempt.of outcome cancelled = .completed) ∨
    (next = now ∧ cancelled ∧ result.status = .pending ∧ result.attempts = job.attempts ∧
      Attempt.of outcome cancelled = .cancelled) ∨
    (next = now + (backoff rt retry (job.attempts + 1)).toInt ∧ result.status = .pending ∧
      result.attempts = job.attempts + 1 ∧ cancelled = false ∧
      retries retry (job.attempts + 1) outcome ∧ job.attempts + 1 ≤ retry.maxRetries ∧
      Attempt.of outcome cancelled = .completed) := by
  rcases outcome with err | body
  · have hs := classify_status retry err
    simp only [settle] at h
    rcases cancelled with _ | _
    · simp only [Bool.false_eq_true, if_false] at h
      split_ifs at h with hr
      · cases h
        refine Or.inr (Or.inr ⟨rfl, rfl, rfl, rfl, ?_, hr.2, rfl⟩)
        simp only [retries, hr.1, hr.2, decide_true, Bool.and_self]
      · cases h
        exact Or.inl ⟨rfl, hs, rfl, rfl⟩
    · cases h
      exact Or.inr (Or.inl ⟨rfl, rfl, rfl, rfl, rfl⟩)
  · cases h
    exact Or.inl ⟨rfl, rfl, rfl, rfl⟩

/-- A retry is never scheduled at the zero time, which would finish it. -/
theorem add_backoff_not_isZero (now : Now) (rt : Runtime) (retry : RetryConfig) (attempt : ℤ) :
    isZero (now.time + (backoff rt retry attempt).toInt) = false := by
  have h₁ := now.epoch
  have h₂ := le_backoff rt retry attempt
  unfold minInt64 at h₂
  exact decide_eq_false (by unfold zeroTime second; omega)

end

/-! ## Sample data -/

def sampleRule : Rule :=
  ⟨"alerts", ⟨"", []⟩,
    ⟨"", "https://hooks.example.com/a", "POST", [], "", none, none, none, none, none⟩⟩

def sampleSnapshot : DeliverySnapshot :=
  ⟨sampleRule, false, "\x7b\x7d", ⟨1, 1000000000, 60000000000, 30000000000, true⟩, ""⟩

def sampleText : String :=
  "\x7b\"Rule\":\x7b\"name\":\"alerts\",\"match\":\x7b\x7d,\"webhook\":\x7b\"url\":" ++
  "\"https://hooks.example.com/a\",\"method\":\"POST\"\x7d\x7d,\"Signed\":false," ++
  "\"Payload\":\"e30=\",\"Retry\":\x7b\"max_retries\":1,\"initial_wait\":1000000000," ++
  "\"max_wait\":60000000000,\"timeout\":30000000000,\"retry_on_timeout\":true\x7d," ++
  "\"PayloadError\":\"\"\x7d"

/-- Go's libraries, on one snapshot and its JSON text. -/
def sampleRuntime (text : String) (snap : DeliverySnapshot) : Runtime where
  marshalEmail := fun _ => "\x7b\x7d"
  unmarshalMap := fun _ => .ok []
  parseTemplate := fun _ => .ok ()
  executeTemplate := fun template _ => .ok template
  marshalSnapshot := fun _ => .ok text
  unmarshalSnapshot := fun s => if s = text then .ok snap else .error "unexpected end of JSON input"
  quote := fun s => "\"" ++ s ++ "\""
  outOfRange := fun _ => Int64.minValue

theorem sampleRuntime_unmarshal (text : String) (snap : DeliverySnapshot) :
    (sampleRuntime text snap).unmarshalSnapshot text = .ok snap := if_pos rfl

def signedRule (secret : String) : Rule :=
  { sampleRule with webhook := { sampleRule.webhook with signingSecret := secret } }

def signedSnapshot : DeliverySnapshot := { sampleSnapshot with signed := true }

def signedText : String :=
  "\x7b\"Rule\":\x7b\"name\":\"alerts\",\"match\":\x7b\x7d,\"webhook\":\x7b\"url\":" ++
  "\"https://hooks.example.com/a\",\"method\":\"POST\"\x7d\x7d,\"Signed\":true," ++
  "\"Payload\":\"e30=\",\"Retry\":\x7b\"max_retries\":1,\"initial_wait\":1000000000," ++
  "\"max_wait\":60000000000,\"timeout\":30000000000,\"retry_on_timeout\":true\x7d," ++
  "\"PayloadError\":\"\"\x7d"

/-- Go's libraries, on the snapshot of a signed rule. -/
def signedRuntime : Runtime :=
  { sampleRuntime signedText signedSnapshot with
    marshalSnapshot := fun snap =>
      if snap = signedSnapshot then .ok signedText else .error "json: unsupported value" }

def signedJob : QueuedDelivery := ⟨3, 1, "alerts", signedText, 0, 100⟩

def clock (nsec : UInt32) (sec : UInt32 := 0) : Now where
  time := sec.toNat * second + nsec.toNat
  epoch := by unfold second; omega
  range := by
    have := sec.toNat_lt
    have := nsec.toNat_lt
    unfold second maxInt64; omega

end Mailrelay
