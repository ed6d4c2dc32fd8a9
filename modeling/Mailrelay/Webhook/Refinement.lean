/-
  The queued path refines the direct path.

  `dispatchOne` is a loop that sends and waits; the queue makes one attempt at
  a time and stores what is left to do.  `dispatchOne_of_final` unrolls the
  loop: it stops at the first outcome that `retries` refuses.  `Queued.step`
  drives one stored delivery through `ClaimDelivery`, `runQueued` and
  `FinishDelivery`, with other users of the store in between, and `Follows`
  ties it to the loop.

  * `follows_step`: every step keeps `Follows`;
  * `queued_refines_direct`: the main result.
-/
import Mathlib.Data.Nat.Find
import Mailrelay.Webhook.Queue
import Mailrelay.Lib.Run

namespace Mailrelay

open Lib

/-! ## The loop of the direct path -/

/-- The waits before the sends that follow the first one. -/
def retryWaits (rt : Runtime) (retry : RetryConfig) (k : ℕ) : List Int64 :=
  (List.range k).map fun j : ℕ => backoff rt retry (j + 1)

/-- The result of a request that is not retried. -/
def attemptResult (ruleName : String) (retry : RetryConfig) (attempts : ℤ) :
    SendOutcome → DeliveryResult
  | .ok body => ⟨ruleName, .success, 0, "", body, attempts⟩
  | .error err =>
    let (status, statusCode, responseBody, _) := classify retry err
    ⟨ruleName, status, statusCode, err.error, responseBody, attempts⟩

section
variable {rt : Runtime} {retry : RetryConfig} {env : DispatchEnv} {name : String}

@[simp] theorem retryWaits_zero : retryWaits rt retry 0 = [] := rfl

theorem retryWaits_succ (k : ℕ) :
    retryWaits rt retry (k + 1) = retryWaits rt retry k ++ [backoff rt retry (k + 1)] := by
  simp [retryWaits, List.range_succ]

theorem retryWaits_take {j k : ℕ} (h : j ≤ k) :
    (retryWaits rt retry k).take j = retryWaits rt retry j := by
  rw [retryWaits, ← List.map_take, List.take_range, Nat.min_eq_left h]
  rfl

theorem retryWaits_ite (k : ℕ) :
    (if 0 < k then retryWaits rt retry (k - 1) ++ [backoff rt retry k]
      else retryWaits rt retry (k - 1)) = retryWaits rt retry k := by
  rcases k with _ | k
  · rfl
  · rw [if_pos (Nat.succ_pos k), Nat.add_sub_cancel, retryWaits_succ]
    push_cast
    rfl

/-- The loop after `k` sends, with `n` more allowed. -/
def loopFrom (rt : Runtime) (env : DispatchEnv) (retry : RetryConfig) (name : String)
    (lastErr : Option SendError) (k n : ℕ) : Dispatched :=
  dispatchLoop rt env retry (retryWaits rt retry (k - 1)) ⟨name, .failed, 0, "", "", k⟩ lastErr k n

/-- A retryable error goes round the loop. -/
theorem loopFrom_retry (hc : ∀ k, env.cancelled k = none) {err : SendError} {k : ℕ}
    (hs : env.send k = .error err) (hr : (classify retry err).2.2.2 = true) (lastErr : Option SendError)
    (n : ℕ) : loopFrom rt env retry name lastErr k (n + 1) =
      loopFrom rt env retry name (some err) (k + 1) n := by
  have hcan : (if 0 < k then env.cancelled k else none) = none := by rw [hc, ite_self]
  simp only [loopFrom, dispatchLoop, hcan, hs, retryWaits_ite, Nat.add_sub_cancel]
  cases err with
  | webhook statusCode responseBody =>
    simp only [classify] at hr
    split_ifs at hr with h4
    simp only [h4, if_false]
    push_cast
    rfl
  | privateAddress => cases hr
  | timeout =>
    simp only [classify] at hr
    simp only [hr, Bool.not_true, Bool.false_eq_true, if_false]
    push_cast
    rfl
  | other => push_cast; rfl

/-- Any other outcome leaves it. -/
theorem loopFrom_stop (hc : ∀ k, env.cancelled k = none) {k : ℕ}
    (hr : ∀ err, env.send k = .error err → (classify retry err).2.2.2 = false)
    (lastErr : Option SendError) (n : ℕ) : loopFrom rt env retry name lastErr k (n + 1) =
      ⟨attemptResult name retry (k + 1) (env.send k), k + 1, retryWaits rt retry k⟩ := by
  have hcan : (if 0 < k then env.cancelled k else none) = none := by rw [hc, ite_self]
  rcases hs : env.send k with err | body
  · have hr := hr err hs
    simp only [loopFrom, dispatchLoop, hcan, hs, retryWaits_ite, attemptResult]
    cases err with
    | webhook statusCode responseBody =>
      simp only [classify] at hr ⊢
      split_ifs at hr with h4
      simp only [h4, and_self, if_true]
    | privateAddress => simp only [classify, SendError.error_privateAddress]
    | timeout =>
      simp only [classify] at hr ⊢
      simp only [hr, Bool.not_false, if_true, SendError.error_timeout]
    | other => cases hr
  · simp only [loopFrom, dispatchLoop, hcan, hs, retryWaits_ite, attemptResult]

/-- So does a retryable error of the last send. -/
theorem loopFrom_exhausted {err : SendError} {k : ℕ} (hr : (classify retry err).2.2.2 = true) :
    loopFrom rt env retry name (some err) (k + 1) 0 =
      ⟨attemptResult name retry (k + 1) (.error err), k + 1, retryWaits rt retry k⟩ := by
  simp only [loopFrom, dispatchLoop, Nat.add_sub_cancel]
  cases err with
  | webhook statusCode responseBody =>
    simp only [classify] at hr
    split_ifs at hr with h4
    simp [attemptResult, classify, h4]
  | privateAddress => cases hr
  | timeout | other => simp [attemptResult, classify]

theorem retries_le {k : ℕ} {outcome : SendOutcome} (h : retries retry (k + 1) outcome) :
    (k : ℤ) + 1 ≤ retry.maxRetries := by
  rcases outcome with err | body
  · simp only [retries, Bool.and_eq_true, decide_eq_true_eq] at h
    exact h.2
  · cases h

variable (rt name) in
/-- The loop goes on as long as outcomes are retried. -/
theorem loopFrom_retried (hc : ∀ k, env.cancelled k = none) {k : ℕ} {n : ℕ}
    (hr : ∀ j < k, retries retry (j + 1) (env.send j)) :
    ∃ lastErr, loopFrom rt env retry name none 0 (k + n) = loopFrom rt env retry name lastErr k n := by
  induction k generalizing n with
  | zero => exact ⟨none, by rw [Nat.zero_add]⟩
  | succ k ih =>
    obtain ⟨lastErr, h⟩ := ih (fun j hj => hr j (Nat.lt_succ_of_lt hj)) (n := n + 1)
    have hk := hr k (Nat.lt_succ_self k)
    rcases hs : env.send k with err | body
    · rw [hs] at hk
      simp only [retries, Bool.and_eq_true] at hk
      refine ⟨some err, ?_⟩
      rw [show k + 1 + n = k + (n + 1) by omega, h, loopFrom_retry hc hs hk.1]
    · rw [hs] at hk; cases hk

/-- **The direct path stops at the first outcome that is not retried.** -/
theorem dispatchOne_of_final {global : RetryConfig} {email : ParsedEmail} {rule : Rule}
    {payload : String} (hc : ∀ k, env.cancelled k = none)
    (hp : buildPayload rt email rule.webhook = .ok payload)
    (hm : 0 ≤ (effectiveRetry global rule.webhook).maxRetries) {k : ℕ}
    (hr : ∀ j < k, retries (effectiveRetry global rule.webhook) (j + 1) (env.send j))
    (hk : retries (effectiveRetry global rule.webhook) (k + 1) (env.send k) = false) :
    dispatchOne rt env global email rule =
      ⟨attemptResult rule.name (effectiveRetry global rule.webhook) (k + 1) (env.send k), k + 1,
        retryWaits rt (effectiveRetry global rule.webhook) k⟩ := by
  have hle : (k : ℤ) ≤ (effectiveRetry global rule.webhook).maxRetries := by
    rcases k with _ | k
    · exact hm
    · have := retries_le (hr k (Nat.lt_succ_self k))
      push_cast
      exact this
  simp only [dispatchOne, hp]
  show loopFrom rt env _ rule.name none 0 _ = _
  generalize effectiveRetry global rule.webhook = retry at *
  obtain ⟨n, hn⟩ : ∃ n, (retry.maxRetries + 1).toNat = k + (n + 1) :=
    ⟨(retry.maxRetries - k).toNat, by omega⟩
  obtain ⟨lastErr, h⟩ := loopFrom_retried rt rule.name hc hr (n := n + 1)
  rw [hn, h]
  by_cases hstop : ∀ err, env.send k = .error err → (classify retry err).2.2.2 = false
  · exact loopFrom_stop hc hstop lastErr n
  · simp only [not_forall, Bool.not_eq_false] at hstop
    obtain ⟨err, hs, hre⟩ := hstop
    -- a retryable error that is not retried has used up the budget
    rw [hs, retries, hre, Bool.true_and, decide_eq_false_iff_not] at hk
    obtain rfl : n = 0 := by omega
    rw [loopFrom_retry hc hs hre, loopFrom_exhausted hre, hs]

/-- The budget ends the retries. -/
theorem exists_final (hm : 0 ≤ retry.maxRetries) (send : ℕ → SendOutcome) :
    ∃ k : ℕ, (∀ j : ℕ, j < k → retries retry (j + 1) (send j)) ∧ retries retry (k + 1) (send k) = false ∧
      (k : ℤ) ≤ retry.maxRetries := by
  have hex : ∃ k : ℕ, retries retry (k + 1) (send k) = false := by
    refine ⟨retry.maxRetries.toNat, ?_⟩
    rcases send retry.maxRetries.toNat with err | body
    · simp only [retries, Bool.and_eq_false_iff, decide_eq_false_iff_not]
      exact Or.inr (by omega)
    · rfl
  have hmin : ∀ j < Nat.find hex, retries retry (j + 1) (send j) := by
    intro j hj
    simpa using Nat.find_min hex hj
  refine ⟨Nat.find hex, hmin, Nat.find_spec hex, ?_⟩
  rcases hk : Nat.find hex with _ | k
  · exact hm
  · have := retries_le (hmin k (by omega))
    push_cast
    exact this

end

/-! ## The queued path -/

/-- One delivery on its way through the queue: the store, the job that a
    worker holds, and counts of `runQueued` calls, sends and waits. -/
structure Queued where
  db : Db
  held : Option QueuedDelivery
  rounds : ℕ
  sends : ℕ
  waits : List ℤ

inductive Move where
  /-- other users of the store -/
  | other (db : Db)
  | claim (now : Now)
  /-- `runQueued`, with the rules of the engine and the clock readings after the
      request and in `FinishDelivery` -/
  | run (rules : List Rule) (settled saved : Now)

namespace Queued

/-- `FinishDelivery` at the end of `runQueued`. -/
def finish (s : Queued) (job : QueuedDelivery) (result : DeliveryResult) (next : ℤ) (now : Now) :
    Option Queued :=
  match Tx.transaction (finishDelivery job result next now.time) none s.db with
  | (.ok (), db) => some { s with db := db, held := none, rounds := s.rounds + 1 }
  | _ => none

/-- The `k`-th request of the delivery ends in `send k`. -/
def step (rt : Runtime) (send : ℕ → SendOutcome) (id : Uuid) (s : Queued) : Move → Option Queued
  | .other db => some { s with db := db }
  | .claim now =>
    match s.held, Tx.transaction (claimDelivery now.time) none s.db with
    | none, (.ok (some job), db) =>
      if job.id = id then some { s with db := db, held := some job } else none
    | _, _ => none
  | .run rules settled saved =>
    match s.held with
    | none => none
    | some job =>
      match prepare rt rules job with
      | .error result => s.finish job result zeroTime saved
      | .ok snap =>
        let (result, next) := settle rt job snap.retry (send s.sends) false settled.time
        let waits := if isZero next then s.waits else s.waits ++ [next - settled.time]
        { s with sends := s.sends + 1, waits := waits }.finish job result next saved

/-- Others leave the delivery alone, and its signing secret is available. -/
def Allowed (rt : Runtime) (snap : DeliverySnapshot) (id : Uuid) (s : Queued) : Move → Prop
  | .other db => db.delivery? id = s.db.delivery? id
  | .claim _ => True
  | .run rules _ _ => ∃ secret, resolveSecret rt rules snap = .ok secret

end Queued

section
variable {rt : Runtime} {job : QueuedDelivery} {snap : DeliverySnapshot} {rules : List Rule}

/-- A settled request, in the terms of the direct path. -/
theorem settle_eq (retry : RetryConfig) (outcome : SendOutcome) (now : ℤ) :
    settle rt job retry outcome false now =
      if retries retry (job.attempts + 1) outcome then
        ({ attemptResult job.ruleName retry (job.attempts + 1) outcome with status := .pending },
          now + (backoff rt retry (job.attempts + 1)).toInt)
      else (attemptResult job.ruleName retry (job.attempts + 1) outcome, zeroTime) := by
  rcases outcome with err | body
  · simp only [settle, attemptResult, retries, Bool.and_eq_true, decide_eq_true_eq,
      Bool.false_eq_true, if_false]
  · rfl

theorem attemptResult_final (name : String) (retry : RetryConfig) (attempts : ℤ)
    (outcome : SendOutcome) : (attemptResult name retry attempts outcome).status.final := by
  rcases outcome with err | body
  · exact classify_status retry err
  · rfl

@[simp] theorem attemptResult_attempts (name : String) (retry : RetryConfig) (attempts : ℤ)
    (outcome : SendOutcome) : (attemptResult name retry attempts outcome).attempts = attempts := by
  rcases outcome with err | body <;> rfl

theorem prepare_payloadError (h : rt.unmarshalSnapshot job.snapshot = .ok snap)
    (hp : snap.payloadError ≠ "") : prepare rt rules job =
      .error ⟨job.ruleName, .error, 0, snap.payloadError, "", job.attempts⟩ := by
  simp only [prepare, h]
  rw [if_pos hp]

theorem prepare_secret (h : rt.unmarshalSnapshot job.snapshot = .ok snap)
    (hp : snap.payloadError = "") {secret : String} (hs : resolveSecret rt rules snap = .ok secret) :
    prepare rt rules job = .ok { snap with
      rule := { snap.rule with webhook := { snap.rule.webhook with signingSecret := secret } } } := by
  simp only [prepare, h, hs]
  rw [if_neg (by simpa using hp)]

end

/-! ## The refinement -/

/-- The direct path on the same outcomes, never cancelled. -/
def direct (rt : Runtime) (send : ℕ → SendOutcome) (global : RetryConfig) (email : ParsedEmail)
    (rule : Rule) : Dispatched :=
  dispatchOne rt ⟨send, fun _ => none⟩ global email rule

/-- The row of a finished delivery shows the result of the direct path. -/
structure Shows (d : DeliveryRow) (r : DeliveryResult) : Prop where
  status : d.status = r.status
  statusCode : d.statusCode = r.statusCode
  error : d.errorMessage = r.error
  responseBody : d.responseBody = r.responseBody
  attempts : d.attempts = r.attempts

theorem shows_setResult (d : DeliveryRow) (r : DeliveryResult) (now : ℤ) :
    Shows (d.setResult r now) r := ⟨rfl, rfl, rfl, rfl, rfl⟩

/-- Where the queued path is on the direct one. -/
inductive Follows (rt : Runtime) (send : ℕ → SendOutcome) (global : RetryConfig)
    (email : ParsedEmail) (rule : Rule) (id : Uuid) (s : Queued) : Prop
  | unfinished {d : DeliveryRow} {q : QueueRow} : s.db.delivery? id = some (d, q) →
      rt.unmarshalSnapshot q.snapshot = .ok (snapshotOf rt global email rule) →
      d.ruleName = rule.name → d.attempts = s.sends → s.rounds = s.sends →
      (∀ j : ℕ, j < s.sends → retries (effectiveRetry global rule.webhook) (j + 1) (send j)) →
      s.waits = (retryWaits rt (effectiveRetry global rule.webhook) s.sends).map Int64.toInt →
      (s.sends = 0 ∨ ∃ payload, buildPayload rt email rule.webhook = .ok payload) →
      ((s.held = none ∧ d.status = .pending) ∨
        (s.held = some (toJob d q) ∧ d.status = .inProgress)) →
      Follows rt send global email rule id s
  | done {d : DeliveryRow} {q : QueueRow} : s.db.delivery? id = some (d, q) → s.held = none →
      d.status.final → Shows d (direct rt send global email rule).result →
      s.rounds = max 1 (direct rt send global email rule).sends →
      s.sends = (direct rt send global email rule).sends →
      s.waits = (direct rt send global email rule).waits.map Int64.toInt →
      Follows rt send global email rule id s

section
variable {rt : Runtime} {send : ℕ → SendOutcome} {global : RetryConfig} {email : ParsedEmail}
  {rule : Rule} {id : Uuid} {s s' : Queued}

theorem direct_of_final {payload : String} (hp : buildPayload rt email rule.webhook = .ok payload)
    (hm : 0 ≤ (effectiveRetry global rule.webhook).maxRetries) {k : ℕ}
    (hr : ∀ j < k, retries (effectiveRetry global rule.webhook) (j + 1) (send j))
    (hk : retries (effectiveRetry global rule.webhook) (k + 1) (send k) = false) :
    direct rt send global email rule =
      ⟨attemptResult rule.name (effectiveRetry global rule.webhook) (k + 1) (send k), k + 1,
        retryWaits rt (effectiveRetry global rule.webhook) k⟩ :=
  dispatchOne_of_final (fun _ => rfl) hp hm hr hk

variable (send global) in
theorem direct_of_error {e : String} (hp : buildPayload rt email rule.webhook = .error e) :
    direct rt send global email rule =
      ⟨{ emptyResult rule.name with status := .error, error := e }, 0, []⟩ := by
  simp only [direct, dispatchOne, hp]

theorem Follows.other (h : Follows rt send global email rule id s) {db : Db}
    (hd : db.delivery? id = s.db.delivery? id) :
    Follows rt send global email rule id { s with db := db } := by
  cases h with
  | unfinished hr hs hn ha hro hre hw hp hh => exact .unfinished (hd.trans hr) hs hn ha hro hre hw hp hh
  | done hr hh hf hsh hro hse hw => exact .done (hd.trans hr) hh hf hsh hro hse hw

theorem Follows.claim (h : Follows rt send global email rule id s) {now : Now} {job : QueuedDelivery}
    {db : Db} (hid : job.id = id) (hc : Claimed s.db now.time job db) :
    Follows rt send global email rule id { s with db := db, held := some job } := by
  obtain ⟨d', q', hr', hst, -, hjob⟩ := mem_dueJobs.1 hc.due
  rw [hid] at hr'
  have hnew : db.delivery? id = some ({ d' with status := .inProgress, updatedAt := now.time }, q') := by
    rw [hc.db', delivery?_setInProgress, hr', Option.map_some, if_pos hid.symm]
  cases h with
  | unfinished hr hs hn ha hro hre hw hp _ =>
    rw [hr] at hr'
    cases hr'
    refine .unfinished hnew hs hn ha hro hre hw hp (Or.inr ⟨?_, rfl⟩)
    show some job = _
    rw [hjob]
    rfl
  | done hr _ hf =>
    -- a finished delivery is not claimed
    rw [hr] at hr'
    cases hr'
    rw [hst] at hf
    cases hf

/-- `FinishDelivery` on the delivery that is held. -/
theorem finish_eq {job : QueuedDelivery} {result : DeliveryResult} {next : ℤ} {now : Now}
    {d : DeliveryRow} {q : QueueRow} (h : s.finish job result next now = some s')
    (hr : s.db.delivery? id = some (d, q)) (hid : job.id = id) :
    s'.db.delivery? id = some (d.setResult result now.time, q.setNext next) ∧ s'.held = none ∧
      s'.rounds = s.rounds + 1 ∧ s'.sends = s.sends ∧ s'.waits = s.waits := by
  simp only [Queued.finish, finishDelivery_none, Option.some.injEq] at h
  subst h
  refine ⟨?_, rfl, rfl, rfl, rfl⟩
  rw [delivery?_finish, hr, Option.map_some, if_pos hid.symm]

variable (global) in
theorem snapshotOf_payloadError {e : String} (hp : buildPayload rt email rule.webhook = .error e) :
    (snapshotOf rt global email rule).payloadError = e := by simp only [snapshotOf, hp]

variable (global) in
theorem snapshotOf_payload {payload : String}
    (hp : buildPayload rt email rule.webhook = .ok payload) :
    (snapshotOf rt global email rule).payloadError = "" ∧
      (snapshotOf rt global email rule).payload = payload := by simp only [snapshotOf, hp, and_self]

theorem setNext_snapshot {q : QueueRow} {next : ℤ} (h : isZero next = false) :
    (q.setNext next).snapshot = q.snapshot := by
  rw [QueueRow.setNext, h]
  rfl

/-- **One attempt of the queue is one iteration of the loop.** -/
theorem Follows.run (h : Follows rt send global email rule id s)
    (hm : 0 ≤ (effectiveRetry global rule.webhook).maxRetries) {rules : List Rule}
    {settled saved : Now} {secret : String}
    (hsec : resolveSecret rt rules (snapshotOf rt global email rule) = .ok secret)
    (hs : Queued.step rt send id s (.run rules settled saved) = some s') :
    Follows rt send global email rule id s' ∧ s'.rounds = s.rounds + 1 := by
  rcases h with @⟨d, q, hr, hsn, hn, ha, hro, hre, hw, hp, ⟨hheld, -⟩ | ⟨hheld, -⟩⟩ | ⟨-, hheld⟩
  · simp only [Queued.step, hheld] at hs; cases hs
  · have hid : (toJob d q).id = id := (Db.delivery?_id hr).1
    have hja : (toJob d q).attempts = s.sends := ha
    have hjn : (toJob d q).ruleName = rule.name := hn
    simp only [Queued.step, hheld] at hs
    rcases hb : buildPayload rt email rule.webhook with e | payload
    · -- no payload: an error without a send
      have hpe := snapshotOf_payloadError global hb
      rw [prepare_payloadError hsn (by rw [hpe]; exact buildPayload_error_ne hb)] at hs
      obtain ⟨hr', hh', hro', hse', hwa'⟩ := finish_eq hs hr hid
      have h0 : s.sends = 0 := by
        rcases hp with hp | ⟨_, hp⟩
        · exact hp
        · rw [hb] at hp; cases hp
      have hd := direct_of_error send global hb
      refine ⟨.done hr' hh' rfl ?_ ?_ ?_ ?_, hro'⟩
      · rw [hd]
        refine ⟨rfl, rfl, hpe, rfl, ?_⟩
        show (toJob d q).attempts = 0
        rw [hja, h0]
        rfl
      · rw [hro', hro, h0, hd]; rfl
      · rw [hse', h0, hd]
      · rw [hwa', hw, h0, hd]; rfl
    · obtain ⟨hpe, -⟩ := snapshotOf_payload global hb
      have hretry : (snapshotOf rt global email rule).retry = effectiveRetry global rule.webhook := rfl
      rw [prepare_secret hsn hpe hsec] at hs
      simp only [hretry, settle_eq, hja, hjn] at hs
      by_cases hc : retries (effectiveRetry global rule.webhook) (s.sends + 1) (send s.sends)
      · -- retried: the row waits for its next attempt
        have hz := add_backoff_not_isZero settled rt (effectiveRetry global rule.webhook) (s.sends + 1)
        simp only [hc, if_true, hz, Bool.false_eq_true, if_false] at hs
        obtain ⟨hr', hh', hro', hse', hwa'⟩ := finish_eq hs hr hid
        refine ⟨.unfinished hr' ?_ hn ?_ ?_ (fun j hj => ?_) ?_ (Or.inr ⟨payload, hb⟩)
          (Or.inl ⟨hh', rfl⟩), hro'⟩
        · rw [setNext_snapshot hz]; exact hsn
        · rw [DeliveryRow.setResult_attempts, attemptResult_attempts, hse']; push_cast; rfl
        · rw [hro', hse', hro]
        · rw [hse'] at hj
          rcases Nat.lt_succ_iff_lt_or_eq.1 hj with hj | rfl
          · exact hre j hj
          · exact hc
        · rw [hwa', hse', retryWaits_succ, List.map_append, ← hw]
          simp only [List.map_cons, List.map_nil]
          congr 2
          omega
      · -- final: the loop stops here as well
        rw [Bool.not_eq_true] at hc
        have hd := direct_of_final hb hm hre hc
        have hz : isZero zeroTime = true := rfl
        simp only [hc, Bool.false_eq_true, if_false, hz, if_true] at hs
        obtain ⟨hr', hh', hro', hse', hwa'⟩ := finish_eq hs hr hid
        refine ⟨.done hr' hh' (attemptResult_final ..) ?_ ?_ ?_ ?_, hro'⟩
        · rw [hd]; exact shows_setResult _ _ _
        · rw [hro', hro, hd]; simp
        · rw [hse', hd]
        · rw [hwa', hd]; exact hw
  · simp only [Queued.step, hheld] at hs; cases hs

/-- **Every step keeps `Follows`.** -/
theorem follows_step (hm : 0 ≤ (effectiveRetry global rule.webhook).maxRetries) {m : Move}
    (h : Follows rt send global email rule id s)
    (ha : Queued.Allowed rt (snapshotOf rt global email rule) id s m)
    (hs : Queued.step rt send id s m = some s') : Follows rt send global email rule id s' := by
  cases m with
  | other db => cases hs; exact h.other ha
  | claim now =>
    simp only [Queued.step] at hs
    split at hs
    next job db hheld ht =>
      split_ifs at hs with hid
      cases hs
      obtain ⟨_, hok⟩ := Tx.transaction_ok ht
      rcases claimDelivery_ok hok with ⟨hj, -⟩ | ⟨j, hj, hc⟩
      · cases hj
      · cases hj; exact h.claim hid hc
    next => cases hs
  | run rules settled saved =>
    obtain ⟨secret, hsec⟩ := ha
    exact (h.run hm hsec hs).1

/-- After `Enqueue` the queued path is at the start of the direct one. -/
theorem follows_enqueue {rules : List Rule} {emailId batch : Uuid} {ids : ℕ → Uuid} {now : ℤ}
    {fuse : Option ℕ} {db₀ db : Db} {i : ℕ}
    (hjson : ∀ text, rt.marshalSnapshot (snapshotOf rt global email rule) = .ok text →
      rt.unmarshalSnapshot text = .ok (snapshotOf rt global email rule))
    (henq : enqueue rt global email rules emailId batch ids now fuse db₀ = (.ok (), db))
    (hrule : rules[i]? = some rule) :
    Follows rt send global email rule (ids i) ⟨db, none, 0, 0, []⟩ := by
  obtain ⟨jobs, hjobs, he⟩ := enqueue_ok henq
  obtain ⟨hi, rfl⟩ := List.getElem?_eq_some_iff.1 hrule
  have hi' : i < jobs.length := by rw [← hjobs.length_eq]; exact hi
  obtain ⟨hname, hm⟩ := (List.forall₂_iff_get.1 hjobs).2 i hi hi'
  have hmem : (ids i, jobs[i]) ∈ numbered ids jobs := List.mem_mapIdx.2 ⟨i, hi', rfl⟩
  obtain ⟨-, hr⟩ := he.delivery?_new hmem
  refine .unfinished hr (hjson _ hm) hname rfl rfl ?_ rfl (Or.inl rfl) (Or.inl ⟨rfl, rfl⟩)
  exact fun j hj => absurd hj (Nat.not_lt_zero j)

end

/-- How far the queued path is, measured on the direct one. -/
structure Refines (rt : Runtime) (send : ℕ → SendOutcome) (global : RetryConfig)
    (email : ParsedEmail) (rule : Rule) (id : Uuid) (s : Queued) : Prop where
  row : (s.db.delivery? id).isSome
  /-- the delivery is finished after as many rounds as the direct path sends,
      one if it sends nothing -/
  rounds : s.rounds ≤ max 1 (direct rt send global email rule).sends ∧ ∀ d q,
    s.db.delivery? id = some (d, q) → (d.status.unfinished = false ↔
      s.rounds = max 1 (direct rt send global email rule).sends)
  /-- and shows the same result, after as many sends and the same waits -/
  final : ∀ d q, s.db.delivery? id = some (d, q) → d.status.unfinished = false →
    Shows d (direct rt send global email rule).result ∧
      s.sends = (direct rt send global email rule).sends ∧
      s.waits = (direct rt send global email rule).waits.map Int64.toInt
  /-- before, it has sent and waited as the direct path has -/
  unfinished : ∀ d q, s.db.delivery? id = some (d, q) → d.status.unfinished →
    s.sends = s.rounds ∧ d.attempts = s.sends ∧
      s.waits = ((direct rt send global email rule).waits.take s.sends).map Int64.toInt
  /-- and is claimed when it is due before all others -/
  claimable : ∀ d q, s.db.delivery? id = some (d, q) → d.status = .pending → ∀ now : Now,
    q.nextAttemptAt ≤ now.time →
    (∀ j ∈ dueJobs now.time s.db, j.id ≠ id → q.nextAttemptAt < j.nextAttemptAt) →
    (Queued.step rt send id s (.claim now)).isSome
  /-- and every round that is begun is completed -/
  completes : ∀ d q, s.db.delivery? id = some (d, q) → d.status = .inProgress →
    ∀ rules settled saved, ∃ s', Queued.step rt send id s (.run rules settled saved) = some s' ∧
      s'.rounds = s.rounds + 1
  bounded : (direct rt send global email rule).sends ≤
    (effectiveRetry global rule.webhook).maxRetries + 1

section
variable {rt : Runtime} {send : ℕ → SendOutcome} {global : RetryConfig} {email : ParsedEmail}
  {rule : Rule} {id : Uuid} {s : Queued}

variable (rt send email) in
theorem direct_sends_le (hm : 0 ≤ (effectiveRetry global rule.webhook).maxRetries) :
    (direct rt send global email rule).sends ≤
      (effectiveRetry global rule.webhook).maxRetries + 1 := by
  rcases hb : buildPayload rt email rule.webhook with e | payload
  · rw [direct_of_error send global hb]
    show (0 : ℤ) ≤ _
    omega
  · obtain ⟨k, hr, hk, hle⟩ := exists_final hm send
    rw [direct_of_final hb hm hr hk]
    push_cast
    omega

/-- A delivery that is not finished has sends left. -/
theorem sends_lt_direct (hm : 0 ≤ (effectiveRetry global rule.webhook).maxRetries) {n : ℕ}
    (hre : ∀ j : ℕ, j < n → retries (effectiveRetry global rule.webhook) (j + 1) (send j))
    (hp : n = 0 ∨ ∃ payload, buildPayload rt email rule.webhook = .ok payload) :
    n < max 1 (direct rt send global email rule).sends ∧
      retryWaits rt (effectiveRetry global rule.webhook) n =
        (direct rt send global email rule).waits.take n := by
  rcases hb : buildPayload rt email rule.webhook with e | payload
  · rcases hp with rfl | ⟨_, hp⟩
    · exact ⟨by omega, by simp⟩
    · rw [hb] at hp; cases hp
  · obtain ⟨k, hr, hk, -⟩ := exists_final hm send
    have hnk : n ≤ k := by
      by_contra hlt
      rw [hre k (by omega)] at hk
      cases hk
    rw [direct_of_final hb hm hr hk]
    exact ⟨by simp only; omega, (retryWaits_take hnk).symm⟩

theorem Queued.finish_isSome (s : Queued) (job : QueuedDelivery) (result : DeliveryResult) (next : ℤ)
    (now : Now) : ∃ s', s.finish job result next now = some s' ∧ s'.rounds = s.rounds + 1 := by
  simp only [Queued.finish, finishDelivery_none]
  exact ⟨_, rfl, rfl⟩

theorem Follows.refines (h : Follows rt send global email rule id s)
    (hm : 0 ≤ (effectiveRetry global rule.webhook).maxRetries) :
    Refines rt send global email rule id s := by
  have hb := direct_sends_le rt send email hm
  cases h with
  | @unfinished d q hr hs hn ha hro hre hw hp hh =>
    obtain ⟨hlt, hwt⟩ := sends_lt_direct hm hre hp
    have hu : d.status.unfinished := by
      rcases hh with ⟨-, hst⟩ | ⟨-, hst⟩ <;> rw [hst] <;> rfl
    refine ⟨by rw [hr]; rfl, ⟨by omega, fun d' q' hr' => ?_⟩, fun d' q' hr' hf => ?_,
      fun d' q' hr' _ => ?_, fun d' q' hr' hst now hn hf => ?_, fun d' q' hr' hst => ?_, hb⟩
    · rw [hr] at hr'
      cases hr'
      rw [hu]
      exact ⟨nofun, fun he => by omega⟩
    · rw [hr] at hr'
      cases hr'
      rw [hu] at hf
      cases hf
    · rw [hr] at hr'
      cases hr'
      exact ⟨hro.symm, ha, by rw [hw, hwt]⟩
    · rw [hr] at hr'
      cases hr'
      rcases hh with ⟨hheld, -⟩ | ⟨-, hst'⟩
      · have hc := claimDelivery_first hr hst (by rw [now.unixNano_eq]; exact hn) hf
        simp only [Queued.step, hheld, hc]
        rw [if_pos (show (toJob d q).id = id from (Db.delivery?_id hr).1)]
        rfl
      · rw [hst] at hst'; cases hst'
    · rw [hr] at hr'
      cases hr'
      rcases hh with ⟨-, hst'⟩ | ⟨hheld, -⟩
      · rw [hst] at hst'; cases hst'
      · intro rules settled saved
        simp only [Queued.step, hheld]
        split
        next => exact Queued.finish_isSome ..
        next => exact Queued.finish_isSome ..
  | @done d q hr hh hf hsh hro hse hw =>
    have hu := DeliveryStatus.not_unfinished_of_final hf
    refine ⟨by rw [hr]; rfl, ⟨hro.le, fun d' q' hr' => ?_⟩, fun d' q' hr' _ => ?_,
      fun d' q' hr' hun => ?_, fun d' q' hr' hst => ?_, fun d' q' hr' hst => ?_, hb⟩ <;>
      rw [hr] at hr' <;> cases hr'
    · rw [hu]
      exact ⟨fun _ => hro, fun _ => rfl⟩
    · exact ⟨hsh, hse, hw⟩
    · rw [hu] at hun; cases hun
    · rw [hst] at hf; cases hf
    · rw [hst] at hf; cases hf

end

/-- **The queued path refines the direct path**: from `Enqueue` on, in every
    run of claims and attempts of the delivery, with any other changes of the
    store and of the rules in between. -/
theorem queued_refines_direct (rt : Runtime) (send : ℕ → SendOutcome) (global : RetryConfig)
    (email : ParsedEmail) (rules : List Rule) (rule : Rule) (i : ℕ) (emailId batch : Uuid)
    (ids : ℕ → Uuid) (now : Now) (db₀ db : Db) (moves : List Move) (s : Queued)
    (hjson : ∀ text, rt.marshalSnapshot (snapshotOf rt global email rule) = .ok text →
      rt.unmarshalSnapshot text = .ok (snapshotOf rt global email rule))
    (hmax : 0 ≤ rule.webhook.effectiveMaxRetries global.maxRetries)
    (henq : enqueue rt global email rules emailId batch ids now.time none db₀ = (.ok (), db))
    (hrule : rules[i]? = some rule)
    (hrun : Run (Queued.step rt send (ids i))
      (Queued.Allowed rt (snapshotOf rt global email rule) (ids i)) ⟨db, none, 0, 0, []⟩ moves s) :
    Refines rt send global email rule (ids i) s :=
  (hrun.inv (fun _ _ _ hi hp hs => follows_step hmax hi hp hs)
    (follows_enqueue hjson henq hrule)).refines hmax

def sampleEmail : ParsedEmail :=
  ⟨"a@example.com", ["b@example.org"], [], "hello", "", "", [], [], none, "a@example.com",
    ["b@example.org"]⟩

def sampleStored : Db :=
  (Tx.transaction (saveEmail ⟨1, 0, "a@example.com", ["b@example.org"], "a@example.com",
    ["b@example.org"], "hello", .received, "", none, none⟩) none .empty).2

def sampleQueued : Except EnqueueError Unit × Db :=
  enqueue (sampleRuntime sampleText sampleSnapshot) sampleSnapshot.retry sampleEmail [sampleRule] 1 2
    (· + 3) (clock 100).time none sampleStored

/-- A first attempt that fails and a second one that succeeds. -/
def sampleMoves : List Move :=
  [.claim (clock 200), .run [] (clock 300) (clock 400),
    .claim (clock 2000000000),
    .run [] (clock 2000000100) (clock 2000000200)]

def sampleSend (k : ℕ) : SendOutcome := if k = 0 then .error (.webhook 503 "busy") else .ok "thanks"

theorem queued_refines_direct_sample : ∃ s, s.rounds = 2 ∧ Refines
    (sampleRuntime sampleText sampleSnapshot) sampleSend sampleSnapshot.retry sampleEmail sampleRule
    3 s := by
  have hs : ((exec (Queued.step (sampleRuntime sampleText sampleSnapshot) sampleSend 3)
      ⟨sampleQueued.2, none, 0, 0, []⟩ sampleMoves).map Queued.rounds) = some 2 := by decide +kernel
  obtain ⟨s, hw, hr⟩ := Option.map_eq_some_iff.1 hs
  refine ⟨s, hr, queued_refines_direct _ sampleSend sampleSnapshot.retry sampleEmail [sampleRule]
    sampleRule 0 1 2 (· + 3) (clock 100) sampleStored sampleQueued.2 sampleMoves s
    (fun text ht => ?_) (by decide) ?_ rfl (Run.of_exec (fun e he s => ?_) hw)⟩
  · cases ht
    exact sampleRuntime_unmarshal _ _
  · have h1 : sampleQueued.1 = .ok () := by decide +kernel
    exact Prod.ext h1 rfl
  · simp only [sampleMoves, List.mem_cons, List.not_mem_nil, or_false] at he
    rcases he with rfl | rfl | rfl | rfl
    · trivial
    · exact ⟨"", rfl⟩
    · trivial
    · exact ⟨"", rfl⟩

end Mailrelay
