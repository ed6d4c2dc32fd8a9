/-
  The delivery queue as a system: the store, the process that owns it and its
  workers (`internal/webhook/queue.go`).

  A worker is the loop `work`; its `Phase` is the point between two atomic
  actions (a check of the stop channel, a call to the store, the start and the
  end of a request).  `step` takes one action of a worker, of another user of
  the store (SMTP handler, web UI, retention), or of the environment (a crash,
  a shutdown).  Every store call may fail, and the events are enabled in any
  order, so a run is any interleaving.

  Identifiers of `uuid.NewString` are fresh: `issued` holds those drawn so far.
  `hist` is a ghost variable, the observations made so far, newest first.
-/
import Mailrelay.Webhook.Queue
import Mailrelay.Lib.Run

namespace Mailrelay

open Lib

/-! ## State -/

/-- The control point of a worker. -/
inductive Phase where
  /-- before the first check of the stop channel -/
  | top
  /-- before `ClaimDelivery` -/
  | claiming
  /-- before the second check, with a claimed delivery -/
  | rechecking (job : QueuedDelivery)
  /-- before the `FinishDelivery` that releases the delivery -/
  | releasing (job : QueuedDelivery)
  /-- at the start of `runQueued` -/
  | running (job : QueuedDelivery)
  /-- during the request -/
  | sending (job : QueuedDelivery) (snap : DeliverySnapshot)
  /-- before the `FinishDelivery` of `runQueued` -/
  | saving (job : QueuedDelivery) (result : DeliveryResult) (next : ℤ) (attempt : Attempt)
  /-- waiting for the stop channel or the ticker -/
  | waiting
  | exited
  deriving DecidableEq, Repr

namespace Phase

/-- The delivery that the worker holds. -/
def job? : Phase → Option QueuedDelivery
  | rechecking job | releasing job | running job | sending job _ | saving job _ _ _ => some job
  | _ => none

/-- The delivery for which a request was made whose result is not yet saved. -/
def sent? : Phase → Option Uuid
  | sending job _ => some job.id
  | saving job _ _ attempt => if attempt = .unsent then none else some job.id
  | _ => none

end Phase

inductive Obs where
  | started
  | enqueued (emailId batch : Uuid) (jobs : List (Uuid × QueuedDelivery))
  | dropped (emailId : Uuid)
  | removed (emailIds : List Uuid)
  | expired (emailIds : List Uuid)
  | checked (worker : ℕ) (closed : Bool)
  | claimed (worker : ℕ) (job : QueuedDelivery)
  | sent (worker : ℕ) (id : Uuid)
  | saved (job : QueuedDelivery) (result : DeliveryResult) (next : ℤ) (attempt : Attempt)
  | unsaved (job : QueuedDelivery) (attempt : Attempt)
  | released (job : QueuedDelivery)
  | unreleased (job : QueuedDelivery)
  | lost (id : Uuid)
  deriving DecidableEq, Repr

/-- The progress of `Dispatcher.Shutdown`. -/
inductive Shutdown where
  | idle | called | returned
  deriving DecidableEq, Repr

structure World where
  db : Db
  issued : List Uuid
  /-- the rules of the engine -/
  rules : List Rule
  /-- whether the queue is started -/
  up : Bool
  count : ℕ
  workers : ℕ → Phase
  /-- whether the stop channel is closed -/
  stop : Bool
  /-- whether the context of the queue is cancelled -/
  cancelled : Bool
  shutdown : Shutdown
  hist : List Obs

namespace World

/-- A new database, before the first start. -/
def init : World :=
  ⟨.empty, [], [], false, 0, fun _ => .exited, false, false, .idle, []⟩

def observe (w : World) (o : Obs) : World := { w with hist := o :: w.hist }

def setPhase (w : World) (n : ℕ) (ph : Phase) : World :=
  { w with workers := Function.update w.workers n ph }

/-- Requests whose result is not yet saved. -/
def lost (w : World) : List Obs :=
  ((List.range w.count).filterMap fun n => (w.workers n).sent?).map .lost

end World

/-- The ids of the emails that a `DELETE` removes. -/
def Db.emailIds (db : Db) (p : EmailRow → Bool) : List Uuid := (db.emails.rows.filter p).map (·.id)

/-! ## Steps -/

inductive Event where
  | saveEmail (record : EmailRecord) (fuse : Option ℕ)
  | enqueue (emailId batch : Uuid) (jobs : List (Uuid × QueuedDelivery)) (now : Now)
      (fuse : Option ℕ)
  | drop (emailId : Uuid) (fuse : Option ℕ)
  | deleteEmail (emailId : Uuid) (fuse : Option ℕ)
  | deleteAllEmails (fuse : Option ℕ)
  | cleanup (retentionDays : ℤ) (now : Now) (fuse : Option ℕ)
  | setRules (rules : List Rule)
  | startQueue (workers : ℕ) (fuse : Option ℕ)
  | crash
  | stopQueue
  | shutdown
  | expire
  | shutdownReturn
  | check (n : ℕ)
  | claim (n : ℕ) (now : Now) (fuse : Option ℕ)
  | recheck (n : ℕ)
  | release (n : ℕ) (next now : Now) (fuse : Option ℕ)
  | start (n : ℕ)
  | settle (n : ℕ) (outcome : SendOutcome) (now : Now)
  | save (n : ℕ) (now : Now) (fuse : Option ℕ)
  | wait (n : ℕ) (tick : Bool)

/-- One action of worker `n`. -/
def workerStep (rt : Runtime) (w : World) (n : ℕ) : Event → Phase → Option World
  | .check _, .top =>
    some ((w.observe (.checked n w.stop)).setPhase n (if w.stop then .exited else .claiming))
  | .claim _ now fuse, .claiming =>
    match Tx.transaction (claimDelivery now.time) fuse w.db with
    | (.ok (some job), db) =>
      some (({ w with db := db }.observe (.claimed n job)).setPhase n (.rechecking job))
    | _ => some (w.setPhase n .waiting)
  | .recheck _, .rechecking job =>
    some ((w.observe (.checked n w.stop)).setPhase n
      (if w.stop then .releasing job else .running job))
  | .release _ next now fuse, .releasing job =>
    match Tx.transaction (finishDelivery job (releaseResult job) next.time now.time) fuse w.db with
    | (.ok (), db) => some (({ w with db := db }.observe (.released job)).setPhase n .exited)
    | _ => some ((w.observe (.unreleased job)).setPhase n .exited)
  | .start _, .running job =>
    match prepare rt w.rules job with
    | .error result => some (w.setPhase n (.saving job result zeroTime .unsent))
    | .ok snap => some ((w.observe (.sent n job.id)).setPhase n (.sending job snap))
  | .settle _ outcome now, .sending job snap =>
    let r := settle rt job snap.retry outcome w.cancelled now.time
    some (w.setPhase n (.saving job r.1 r.2 (.of outcome w.cancelled)))
  | .save _ now fuse, .saving job result next attempt =>
    match Tx.transaction (finishDelivery job result next now.time) fuse w.db with
    | (.ok (), db) =>
      some (({ w with db := db }.observe (.saved job result next attempt)).setPhase n .top)
    | _ => some ((w.observe (.unsaved job attempt)).setPhase n .top)
  | .wait _ tick, .waiting =>
    if tick then some (w.setPhase n .top)
    else if w.stop then some ((w.observe (.checked n true)).setPhase n .exited)
    else none
  | _, _ => none

/-- The worker that an event belongs to. -/
def Event.worker? : Event → Option ℕ
  | check n | claim n _ _ | recheck n | release n _ _ _ | start n | settle n _ _ | save n _ _
  | wait n _ => some n
  | _ => none

def step (rt : Runtime) (w : World) (e : Event) : Option World :=
  match e with
  | .saveEmail record fuse =>
    if record.id ∈ w.issued then none
    else some { w with
      db := (Tx.transaction (saveEmail record) fuse w.db).2, issued := record.id :: w.issued }
  | .enqueue emailId batch jobs now fuse =>
    let ids := batch :: jobs.map Prod.fst
    if jobs = [] ∨ ¬ ids.Nodup ∨ ∃ id ∈ ids, id ∈ w.issued then none
    else
      match Tx.transaction (enqueueDeliveries emailId batch jobs now.time) fuse w.db with
      | (.ok (), db) =>
        some ({ w with db := db, issued := ids ++ w.issued }.observe (.enqueued emailId batch jobs))
      | _ => some { w with issued := ids ++ w.issued }
  | .drop emailId fuse =>
    match Tx.transaction (updateEmailStatus emailId .dropped) fuse w.db with
    | (.ok (), db) => some ({ w with db := db }.observe (.dropped emailId))
    | _ => some w
  | .deleteEmail emailId fuse =>
    match Tx.transaction (deleteEmail emailId) fuse w.db with
    | (.ok (), db) =>
      some ({ w with db := db }.observe (.removed (w.db.emailIds fun e => e.id == emailId)))
    | _ => some w
  | .deleteAllEmails fuse =>
    match Tx.transaction deleteAllEmails fuse w.db with
    | (.ok (), db) =>
      some ({ w with db := db }.observe (.removed (w.db.emailIds fun _ => true)))
    | _ => some w
  | .cleanup retentionDays now fuse =>
    match Tx.transaction (cleanupExpired retentionDays now.time) fuse w.db with
    | (.ok ids, db) => some ({ w with db := db }.observe (.expired ids))
    | _ => some w
  | .setRules rules => some { w with rules := rules }
  | .startQueue workers fuse =>
    if w.up ∨ workers < 1 then none
    else
      match Tx.transaction recoverDeliveries fuse w.db with
      | (.ok (), db) => some ({ w with
          db := db, up := true, count := workers
          workers := fun n => if n < workers then .top else .exited
          stop := false, cancelled := false, shutdown := .idle }.observe .started)
      | _ => some w
  | .crash => some { w with
      up := false, count := 0, workers := fun _ => .exited, stop := false, cancelled := false
      shutdown := .idle, hist := w.lost ++ w.hist }
  | .stopQueue => if w.up then some { w with stop := true } else none
  | .shutdown =>
    if w.up ∧ w.shutdown = .idle then some { w with stop := true, shutdown := .called } else none
  | .expire =>
    if w.shutdown = .called then some { w with cancelled := true } else none
  | .shutdownReturn =>
    -- `q.done` is closed once every worker has returned; `defer q.cancel()`
    if w.shutdown = .called ∧ ∀ n < w.count, w.workers n = .exited then
      some { w with cancelled := true, shutdown := .returned }
    else none
  | e =>
    match e.worker? with
    | some n => if n < w.count then workerStep rt w n e (w.workers n) else none
    | none => none

end Mailrelay
