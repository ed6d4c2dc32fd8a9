/-
  The durable delivery queue (`internal/storage/queue.go`).

  `enqueueDeliveries`, `recoverDeliveries`, `claimDelivery` and
  `finishDelivery` are the source's transactions, statement by statement.
  Identifiers drawn with `uuid.NewString` are arguments.

  For each operation, `*_ok` says what a committed run did, and `delivery?_*`
  and `get?_*` what that means for one delivery and one email.
-/
import Mailrelay.Storage.Store

namespace Mailrelay

open Lib

/-- `QueuedDelivery`; `NextAttemptAt` is kept as its `UnixNano`. -/
structure QueuedDelivery where
  id : Uuid
  emailId : Uuid
  ruleName : String
  snapshot : String
  attempts : ℤ
  nextAttemptAt : ℤ
  deriving DecidableEq, Repr

/-! ## Enqueueing -/

/-- The `deliveries` row of a new delivery. -/
def deliveryRow (emailId : Uuid) (now : ℤ) (j : Uuid × QueuedDelivery) : DeliveryRow :=
  ⟨j.1, emailId, j.2.ruleName, .pending, 0, "", "", 0, now, now⟩

/-- The `delivery_queue` row of a new delivery. -/
def queueRow (emailId batch : Uuid) (now : ℤ) (j : Uuid × QueuedDelivery) : QueueRow :=
  ⟨j.1, batch, emailId, j.2.snapshot, unixNano now⟩

/-- The loop over the jobs, each with its fresh id. -/
def insertJobs (emailId batch : Uuid) (now : ℤ) : List (Uuid × QueuedDelivery) → Tx Unit
  | [] => pure ()
  | j :: jobs => do
    Tx.stmt (Db.insertDelivery (deliveryRow emailId now j))
    Tx.stmt (Db.insertQueue (queueRow emailId batch now j))
    insertJobs emailId batch now jobs

def enqueueDeliveries (emailId batch : Uuid) (jobs : List (Uuid × QueuedDelivery)) (now : ℤ) :
    Tx Unit := do
  Tx.begin_
  insertJobs emailId batch now jobs
  Tx.stmt fun db => .ok (db.updateEmails (fun e => e.id == emailId)
    (fun e => { e with status := .received, deliveryBatch := some batch }) fun _ => rfl)
  Tx.commit

/-! ## Recovering and claiming -/

def recoverDeliveries : Tx Unit :=
  Tx.stmt fun db => .ok (db.updateDeliveries
    (fun d => decide (d.status = .inProgress) && (db.queue.get? d.id).isSome)
    (fun d => { d with status := .pending }) (fun _ => rfl) fun _ => rfl)

/-- The columns that `ClaimDelivery` scans. -/
def toJob (d : DeliveryRow) (q : QueueRow) : QueuedDelivery :=
  ⟨d.id, q.emailId, d.ruleName, q.snapshot, d.attempts, q.nextAttemptAt⟩

/-- The rows of the `SELECT` of `ClaimDelivery`, in rowid order. -/
def dueJobs (now : ℤ) (db : Db) : List QueuedDelivery :=
  db.queue.rows.filterMap fun q =>
    (db.deliveries.get? q.deliveryId).bind fun d =>
      (db.emails.get? q.emailId).bind fun _ =>
        if d.status = .pending ∧ q.nextAttemptAt ≤ unixNano now then some (toJob d q) else none

/-- `UPDATE deliveries SET status='in_progress',updated_at=? WHERE id=?` -/
def Db.setInProgress (id : Uuid) (now : ℤ) (db : Db) : Db :=
  db.updateDeliveries (fun d => d.id == id)
    (fun d => { d with status := .inProgress, updatedAt := now }) (fun _ => rfl) fun _ => rfl

/-- `ClaimDelivery`: `ORDER BY q.next_attempt_at LIMIT 1` takes the first of
    the earliest rows. -/
def claimDelivery (now : ℤ) : Tx (Option QueuedDelivery) := do
  Tx.begin_
  let job ← Tx.query fun db => (dueJobs now db).minOn? fun j => j.nextAttemptAt
  match job with
  | none => pure none
  | some job =>
    Tx.stmt fun db => .ok (db.setInProgress job.id now)
    Tx.commit
    pure (some job)

/-! ## Finishing -/

def DeliveryRow.setResult (d : DeliveryRow) (r : DeliveryResult) (now : ℤ) : DeliveryRow :=
  { d with
    status := r.status, statusCode := r.statusCode, errorMessage := r.error,
    responseBody := r.responseBody, attempts := r.attempts, updatedAt := now }

@[simp] theorem DeliveryRow.setResult_status (d : DeliveryRow) (r : DeliveryResult) (now : ℤ) :
    (d.setResult r now).status = r.status := rfl

@[simp] theorem DeliveryRow.setResult_attempts (d : DeliveryRow) (r : DeliveryResult) (now : ℤ) :
    (d.setResult r now).attempts = r.attempts := rfl

/-- `UPDATE deliveries SET status=?,status_code=?,error_message=?,… WHERE id=?` -/
def Db.setResult (id : Uuid) (r : DeliveryResult) (now : ℤ) (db : Db) : Db :=
  db.updateDeliveries (fun d => d.id == id) (fun d => d.setResult r now) (fun _ => rfl) fun _ => rfl

def QueueRow.setNext (q : QueueRow) (next : ℤ) : QueueRow :=
  if isZero next then
    -- keep batch membership, but release the snapshot and leave the due-time scan
    { q with snapshot := "", nextAttemptAt := maxInt64 }
  else { q with nextAttemptAt := unixNano next }

/-- `UPDATE delivery_queue SET … WHERE delivery_id=?` -/
def Db.setNext (id : Uuid) (next : ℤ) (db : Db) : Db :=
  db.updateQueue (fun q => q.deliveryId == id) (fun q => q.setNext next)
    (fun _ => by unfold QueueRow.setNext; split_ifs <;> rfl)
    fun _ => by unfold QueueRow.setNext; split_ifs <;> rfl

/-- `deliveries d JOIN delivery_queue q` of an email's batch. -/
def Db.batchRows (db : Db) (emailId : Uuid) (batch : Option Uuid) : List DeliveryRow :=
  (db.queue.rows.filter fun q => q.emailId == emailId && decide (some q.batchId = batch)).filterMap
    fun q => db.deliveries.get? q.deliveryId

/-- The `CASE` of `FinishDelivery`; over no rows `SUM` is `NULL`, equal to no
    count. -/
def aggregateStatus (rows : List DeliveryRow) : EmailStatus :=
  let successes := rows.countP fun d => d.status = .success
  if rows ≠ [] ∧ successes = rows.length then .delivered
  else if successes > 0 then .partialFailure
  else .failed

/-- `UPDATE emails SET status=(SELECT CASE …) WHERE id=? AND NOT EXISTS (…)` -/
def Db.refreshStatus (emailId : Uuid) (db : Db) : Db :=
  db.updateEmails (fun e => e.id == emailId && !db.hasUnfinished e.id)
    (fun e => { e with status := aggregateStatus (db.batchRows e.id e.deliveryBatch) }) fun _ => rfl

def finishDelivery (job : QueuedDelivery) (result : DeliveryResult) (next now : ℤ) : Tx Unit := do
  Tx.begin_
  Tx.stmt fun db => .ok (db.setResult job.id result now)
  Tx.stmt fun db => .ok (db.setNext job.id next)
  Tx.stmt fun db => .ok (db.refreshStatus job.emailId)
  Tx.commit

/-! ## What enqueueing does -/

section
variable {db db' : Db} {fuse fuse' : Option ℕ} {emailId batch id : Uuid} {now : ℤ}
  {jobs : List (Uuid × QueuedDelivery)}

theorem insertEmail_ok {e : EmailRow} (h : Db.insertEmail e db = .ok db') :
    db'.emails.rows = db.emails.rows ++ [e] ∧ db'.deliveries = db.deliveries ∧
      db'.queue = db.queue ∧ db.emails.get? e.id = none := by
  unfold Db.insertEmail at h
  split at h
  next => cases h
  next t ht =>
    cases h
    exact ⟨(Table.insert?_eq_some ht).1, rfl, rfl, (Table.insert?_eq_some ht).2⟩

theorem insertDelivery_ok {d : DeliveryRow} (h : Db.insertDelivery d db = .ok db') :
    db'.deliveries.rows = db.deliveries.rows ++ [d] ∧ db'.emails = db.emails ∧
      db'.queue = db.queue ∧ (db.emails.get? d.emailId).isSome := by
  unfold Db.insertDelivery at h
  split_ifs at h with he
  split at h
  next => cases h
  next t ht => cases h; exact ⟨(Table.insert?_eq_some ht).1, rfl, rfl, he⟩

theorem insertQueue_ok {q : QueueRow} (h : Db.insertQueue q db = .ok db') :
    db'.queue.rows = db.queue.rows ++ [q] ∧ db'.emails = db.emails ∧
      db'.deliveries = db.deliveries := by
  unfold Db.insertQueue at h
  split_ifs at h with he
  split at h
  next => cases h
  next t ht => cases h; exact ⟨(Table.insert?_eq_some ht).1, rfl, rfl⟩

theorem insertJobs_ok (h : insertJobs emailId batch now jobs (db, fuse) = .ok ((), db', fuse')) :
    db'.emails = db.emails ∧
      db'.deliveries.rows = db.deliveries.rows ++ jobs.map (deliveryRow emailId now) ∧
      db'.queue.rows = db.queue.rows ++ jobs.map (queueRow emailId batch now) ∧
      (jobs ≠ [] → (db.emails.get? emailId).isSome) := by
  induction jobs generalizing db fuse with
  | nil =>
    obtain ⟨-, hs⟩ := Tx.pure_ok.1 h
    cases hs
    simp
  | cons j jobs ih =>
    obtain ⟨_, ⟨db₁, f₁⟩, h₁, h⟩ := Tx.bind_ok.1 h
    obtain ⟨_, ⟨db₂, f₂⟩, h₂, h⟩ := Tx.bind_ok.1 h
    obtain ⟨d₁, e₁, q₁, hs⟩ := insertDelivery_ok (Tx.stmt_ok h₁)
    obtain ⟨q₂, e₂, d₂⟩ := insertQueue_ok (Tx.stmt_ok h₂)
    obtain ⟨he, hd, hq, -⟩ := ih h
    refine ⟨by rw [he, e₂, e₁], ?_, ?_, fun _ => hs⟩
    · rw [hd, d₂, d₁]; simp
    · rw [hq, q₂, q₁]; simp

/-- A committed batch. -/
structure Enqueued (db : Db) (emailId batch : Uuid) (jobs : List (Uuid × QueuedDelivery)) (now : ℤ)
    (db' : Db) : Prop where
  emails : db'.emails = db.emails.update (fun e => e.id == emailId)
    (fun e => { e with status := .received, deliveryBatch := some batch }) fun _ => rfl
  deliveries : db'.deliveries.rows = db.deliveries.rows ++ jobs.map (deliveryRow emailId now)
  queue : db'.queue.rows = db.queue.rows ++ jobs.map (queueRow emailId batch now)
  email : jobs ≠ [] → (db.emails.get? emailId).isSome

theorem enqueueDeliveries_ok
    (h : enqueueDeliveries emailId batch jobs now (db, fuse) = .ok ((), db', fuse')) :
    Enqueued db emailId batch jobs now db' := by
  obtain ⟨_, ⟨db₁, f₁⟩, h₁, h⟩ := Tx.bind_ok.1 h
  obtain ⟨_, ⟨db₂, f₂⟩, h₂, h⟩ := Tx.bind_ok.1 h
  obtain ⟨_, ⟨db₃, f₃⟩, h₃, h₄⟩ := Tx.bind_ok.1 h
  obtain rfl := Tx.begin_ok h₁
  obtain rfl := Tx.commit_ok h₄
  obtain ⟨he, hd, hq, hs⟩ := insertJobs_ok h₂
  obtain rfl := Except.ok.inj (Tx.stmt_ok h₃)
  exact ⟨by simp only [Db.updateEmails, he], hd, hq, hs⟩

namespace Enqueued

theorem delivery?_new (h : Enqueued db emailId batch jobs now db') {j : Uuid × QueuedDelivery}
    (hj : j ∈ jobs) : db.delivery? j.1 = none ∧
      db'.delivery? j.1 = some (deliveryRow emailId now j, queueRow emailId batch now j) := by
  obtain ⟨hd, hd'⟩ := Table.get?_append_new h.deliveries (List.mem_map_of_mem hj)
  obtain ⟨-, hq'⟩ := Table.get?_append_new h.queue (List.mem_map_of_mem hj)
  exact ⟨by simp only [Db.delivery?]; rw [show db.deliveries.get? j.1 = none from hd]; rfl,
    Db.delivery?_eq_some.2 ⟨hd', hq'⟩⟩

theorem delivery?_old (h : Enqueued db emailId batch jobs now db') (hid : id ∉ jobs.map Prod.fst) :
    db'.delivery? id = db.delivery? id := by
  have hj : ∀ j ∈ jobs, j.1 ≠ id := fun j hj he => hid (List.mem_map.2 ⟨j, hj, he⟩)
  have hd : db'.deliveries.get? id = db.deliveries.get? id :=
    Table.get?_append_old h.deliveries fun a ha => by
      obtain ⟨j, hj', rfl⟩ := List.mem_map.1 ha; exact hj j hj'
  have hq : db'.queue.get? id = db.queue.get? id :=
    Table.get?_append_old h.queue fun a ha => by
      obtain ⟨j, hj', rfl⟩ := List.mem_map.1 ha; exact hj j hj'
  simp only [Db.delivery?, hd, hq]

/-- Every delivery after the batch is old or in the batch. -/
theorem delivery?_cases (h : Enqueued db emailId batch jobs now db') (id : Uuid) :
    (∃ j ∈ jobs, id = j.1 ∧ db.delivery? id = none ∧
      db'.delivery? id = some (deliveryRow emailId now j, queueRow emailId batch now j)) ∨
    (id ∉ jobs.map Prod.fst ∧ db'.delivery? id = db.delivery? id) := by
  by_cases hid : id ∈ jobs.map Prod.fst
  · obtain ⟨j, hj, rfl⟩ := List.mem_map.1 hid
    exact Or.inl ⟨j, hj, rfl, h.delivery?_new hj⟩
  · exact Or.inr ⟨hid, h.delivery?_old hid⟩

theorem paired (h : Enqueued db emailId batch jobs now db') (hp : db.Paired) : db'.Paired := by
  constructor
  · intro id d q hj
    rcases h.delivery?_cases id with ⟨j, -, rfl, -, he⟩ | ⟨-, he⟩
    · rw [he] at hj; cases hj; rfl
    · rw [he] at hj; exact hp.email hj
  · intro id d hd
    rcases h.delivery?_cases id with ⟨j, -, rfl, -, he⟩ | ⟨hid, -⟩
    · exact ⟨_, (Db.delivery?_eq_some.1 he).2⟩
    · have hj : ∀ j ∈ jobs, j.1 ≠ id := fun j hj he => hid (List.mem_map.2 ⟨j, hj, he⟩)
      rw [Table.get?_append_old h.deliveries fun a ha => by
        obtain ⟨j, hj', rfl⟩ := List.mem_map.1 ha; exact hj j hj'] at hd
      obtain ⟨q, hq⟩ := hp.queued hd
      exact ⟨q, by rw [Table.get?_append_old h.queue fun a ha => by
        obtain ⟨j, hj', rfl⟩ := List.mem_map.1 ha; exact hj j hj']; exact hq⟩

end Enqueued

end

/-! ## What recovering and claiming do -/

section
variable {db db' : Db} {fuse fuse' : Option ℕ} {id : Uuid} {now : ℤ}

def DeliveryRow.recover (d : DeliveryRow) : DeliveryRow :=
  if d.status = .inProgress then { d with status := .pending } else d

theorem recoverDeliveries_ok (h : recoverDeliveries (db, fuse) = .ok ((), db', fuse')) :
    db'.emails = db.emails ∧ db'.queue = db.queue ∧ (db.Paired → db'.Paired) ∧
      ∀ id, db'.delivery? id = (db.delivery? id).map fun r => (r.1.recover, r.2) := by
  obtain rfl := Except.ok.inj (Tx.stmt_ok h)
  refine ⟨rfl, rfl, Db.Paired.updateDeliveries, fun id => ?_⟩
  rw [Db.delivery?_updateDeliveries]
  rcases hj : db.delivery? id with _ | ⟨d, q⟩
  · rfl
  · have hq := (Db.delivery?_eq_some.1 hj).2
    rw [← (Db.delivery?_id hj).1] at hq
    simp [DeliveryRow.recover, hq]

theorem mem_dueJobs {job : QueuedDelivery} : job ∈ dueJobs now db ↔
    ∃ d q, db.delivery? job.id = some (d, q) ∧ d.status = .pending ∧
      q.nextAttemptAt ≤ unixNano now ∧ job = toJob d q := by
  simp only [dueJobs, List.mem_filterMap]
  constructor
  · rintro ⟨q, hq, h⟩
    obtain ⟨d, hd, h⟩ := Option.bind_eq_some_iff.1 h
    obtain ⟨e, -, h⟩ := Option.bind_eq_some_iff.1 h
    split_ifs at h with hc
    cases h
    have hk : d.id = q.deliveryId := Table.get?_key hd
    refine ⟨d, q, Db.delivery?_eq_some.2 ⟨?_, ?_⟩, hc.1, hc.2, rfl⟩
    · show db.deliveries.get? d.id = some d
      rw [hk]; exact hd
    · show db.queue.get? d.id = some q
      rw [hk]; exact Table.get?_of_mem hq
  · rintro ⟨d, q, hj, hs, hn, he⟩
    obtain ⟨hd, hq⟩ := Db.delivery?_eq_some.1 hj
    have hm := Table.mem_of_get? hq
    obtain ⟨e, hem⟩ := Option.isSome_iff_exists.1 (db.queueEmail q hm)
    refine ⟨q, hm, ?_⟩
    rw [(Db.delivery?_id hj).2, hd, hem, he]
    simp [hs, hn]

theorem le_of_minOn? {α : Type} {f : α → ℤ} {xs : List α} {a x : α} (h : xs.minOn? f = some a)
    (hx : x ∈ xs) : f a ≤ f x := by
  simpa only [h, Option.get_some] using List.apply_get_minOn?_le_of_mem (f := f) hx

/-- A committed claim. -/
structure Claimed (db : Db) (now : ℤ) (job : QueuedDelivery) (db' : Db) : Prop where
  due : job ∈ dueJobs now db
  first : ∀ j ∈ dueJobs now db, job.nextAttemptAt ≤ j.nextAttemptAt
  db' : db' = db.setInProgress job.id now

theorem claimDelivery_ok {job : Option QueuedDelivery}
    (h : claimDelivery now (db, fuse) = .ok (job, db', fuse')) :
    (job = none ∧ db' = db) ∨ ∃ j, job = some j ∧ Claimed db now j db' := by
  obtain ⟨_, ⟨db₁, f₁⟩, h₁, h'⟩ := Tx.bind_ok.1 h
  obtain ⟨j, ⟨db₂, f₂⟩, h₂, h''⟩ := Tx.bind_ok.1 h'
  obtain rfl := Tx.begin_ok h₁
  obtain ⟨hj, rfl⟩ := Tx.query_ok h₂
  rcases j with _ | j
  · obtain ⟨rfl, hs⟩ := Tx.pure_ok.1 h''
    cases hs
    exact Or.inl ⟨rfl, rfl⟩
  · obtain ⟨_, ⟨db₃, f₃⟩, h₃, h₀⟩ := Tx.bind_ok.1 h''
    obtain ⟨_, ⟨db₄, f₄⟩, h₄, h₅⟩ := Tx.bind_ok.1 h₀
    obtain rfl := Except.ok.inj (Tx.stmt_ok h₃)
    obtain rfl := Tx.commit_ok h₄
    obtain ⟨rfl, hs⟩ := Tx.pure_ok.1 h₅
    cases hs
    exact Or.inr ⟨j, rfl, List.minOn?_mem hj.symm, fun j' hj' => le_of_minOn? hj.symm hj', rfl⟩

/-- A delivery that is due before all others is claimed. -/
theorem claimDelivery_first {d : DeliveryRow} {q : QueueRow} (hr : db.delivery? id = some (d, q))
    (hs : d.status = .pending) (hn : q.nextAttemptAt ≤ unixNano now)
    (hf : ∀ j ∈ dueJobs now db, j.id ≠ id → q.nextAttemptAt < j.nextAttemptAt) :
    Tx.transaction (claimDelivery now) none db =
      (.ok (some (toJob d q)), db.setInProgress id now) := by
  have hid : (toJob d q).id = id := (Db.delivery?_id hr).1
  have hmem : toJob d q ∈ dueJobs now db := mem_dueJobs.2 ⟨d, q, by rw [hid]; exact hr, hs, hn, rfl⟩
  rcases hj : (dueJobs now db).minOn? fun j => j.nextAttemptAt with _ | j
  · have := List.isSome_minOn?_of_mem (f := fun j => j.nextAttemptAt) hmem
    rw [hj] at this
    cases this
  · have hjm := List.minOn?_mem hj
    have hle : j.nextAttemptAt ≤ q.nextAttemptAt := le_of_minOn? hj hmem
    have hjid : j.id = id := by
      by_contra hne
      have := hf j hjm hne
      omega
    obtain ⟨d', q', hr', -, -, rfl⟩ := mem_dueJobs.1 hjm
    rw [hjid, hr] at hr'
    cases hr'
    have hq : Tx.query (fun db => (dueJobs now db).minOn? fun j => j.nextAttemptAt) (db, none) =
        .ok (some (toJob d q), db, none) := by simp only [Tx.query, hj]; rfl
    have hc : claimDelivery now (db, none) =
        .ok (some (toJob d q), db.setInProgress (toJob d q).id now, none) := by
      refine Tx.bind_ok.2 ⟨(), (db, none), rfl, Tx.bind_ok.2 ⟨_, _, hq, ?_⟩⟩
      exact Tx.bind_ok.2 ⟨(), _, rfl, Tx.bind_ok.2 ⟨(), _, rfl, rfl⟩⟩
    rw [Tx.transaction, hc, hid]

theorem Db.Paired.setInProgress (h : db.Paired) : (db.setInProgress id now).Paired := by
  unfold Db.setInProgress
  exact h.updateDeliveries

theorem delivery?_setInProgress (id' : Uuid) : (db.setInProgress id now).delivery? id' =
    (db.delivery? id').map fun r =>
      if id' = id then ({ r.1 with status := .inProgress, updatedAt := now }, r.2) else r := by
  rw [Db.setInProgress, Db.delivery?_updateDeliveries]
  rcases hj : db.delivery? id' with _ | ⟨d, q⟩
  · rfl
  · simp only [Option.map_some, (Db.delivery?_id hj).1]
    by_cases hid : id' = id
    · simp only [hid, beq_self_eq_true, if_true]
    · simp only [beq_iff_eq, hid, if_false]

end

/-! ## What finishing does -/

section
variable {db db' : Db} {fuse fuse' : Option ℕ} {job : QueuedDelivery} {result : DeliveryResult}
  {next now : ℤ}

/-- The state that `FinishDelivery` commits. -/
def Db.finish (job : QueuedDelivery) (result : DeliveryResult) (next now : ℤ) (db : Db) : Db :=
  ((db.setResult job.id result now).setNext job.id next).refreshStatus job.emailId

theorem finishDelivery_ok (h : finishDelivery job result next now (db, fuse) = .ok ((), db', fuse')) :
    db' = db.finish job result next now := by
  obtain ⟨_, ⟨db₁, f₁⟩, h₁, hr⟩ := Tx.bind_ok.1 h
  obtain ⟨_, ⟨db₂, f₂⟩, h₂, hr'⟩ := Tx.bind_ok.1 hr
  obtain ⟨_, ⟨db₃, f₃⟩, h₃, hr''⟩ := Tx.bind_ok.1 hr'
  obtain ⟨_, ⟨db₄, f₄⟩, h₄, h₅⟩ := Tx.bind_ok.1 hr''
  obtain rfl := Tx.begin_ok h₁
  obtain rfl := Except.ok.inj (Tx.stmt_ok h₂)
  obtain rfl := Except.ok.inj (Tx.stmt_ok h₃)
  obtain rfl := Except.ok.inj (Tx.stmt_ok h₄)
  exact Tx.commit_ok h₅

theorem finishDelivery_none : Tx.transaction (finishDelivery job result next now) none db =
    (.ok (), db.finish job result next now) := rfl

theorem delivery?_setResult (id : Uuid) : (db.setResult job.id result now).delivery? id =
    (db.delivery? id).map fun r => (if r.1.id == job.id then r.1.setResult result now else r.1, r.2) :=
  Db.delivery?_updateDeliveries

theorem delivery?_setNext (id : Uuid) : (db.setNext job.id next).delivery? id =
    (db.delivery? id).map fun r =>
      (r.1, if r.2.deliveryId == job.id then r.2.setNext next else r.2) :=
  Db.delivery?_updateQueue

theorem delivery?_finish (id : Uuid) : (db.finish job result next now).delivery? id =
    (db.delivery? id).map fun r =>
      if id = job.id then (r.1.setResult result now, r.2.setNext next) else r := by
  show ((db.setResult job.id result now).setNext job.id next).delivery? id = _
  rw [delivery?_setNext, delivery?_setResult, Option.map_map]
  rcases hj : db.delivery? id with _ | ⟨d, q⟩
  · rfl
  · obtain ⟨hd, hq⟩ := Db.delivery?_id hj
    by_cases hid : id = job.id
    · simp [hd, hq, hid]
    · simp [hd, hq, hid]

/-- The status of an email is refreshed once all its deliveries are finished. -/
theorem get?_finish (emailId : Uuid) : (db.finish job result next now).emails.get? emailId =
    (db.emails.get? emailId).map fun e =>
      if e.id == job.emailId && !(db.finish job result next now).hasUnfinished e.id then
        { e with status :=
            aggregateStatus ((db.finish job result next now).batchRows e.id e.deliveryBatch) }
      else e :=
  Db.get?_updateEmails emailId

theorem Db.Paired.finish (h : db.Paired) : (db.finish job result next now).Paired :=
  h.updateDeliveries.updateQueue.updateEmails

/-- Finishing a delivery whose rows and email are gone changes no row. -/
theorem finish_of_gone (hd : db.deliveries.get? job.id = none) (hq : db.queue.get? job.id = none)
    (he : db.emails.get? job.emailId = none) : db.finish job result next now = db := by
  have hd' : db.setResult job.id result now = db := by
    refine Db.ext' rfl ?_ rfl
    apply Table.ext
    apply Table.map_rows_of_not
    intro d hm
    have : d.id ≠ job.id := Table.get?_eq_none.1 hd d hm
    simp [this]
  have hq' : db.setNext job.id next = db := by
    refine Db.ext' rfl rfl ?_
    apply Table.ext
    apply Table.map_rows_of_not
    intro q hm
    have : q.deliveryId ≠ job.id := Table.get?_eq_none.1 hq q hm
    simp [this]
  have he' : db.refreshStatus job.emailId = db := by
    refine Db.ext' ?_ rfl rfl
    apply Table.ext
    apply Table.map_rows_of_not
    intro e hm
    have : e.id ≠ job.emailId := Table.get?_eq_none.1 he e hm
    simp [this]
  rw [Db.finish, hd', hq', he']

end

end Mailrelay
