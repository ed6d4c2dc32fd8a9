/-
  Accepting a message: `session.Data` (`internal/smtp/server.go`) and the
  handler of `buildHandler` (`cmd/mailrelay/main.go`) with a database.

  A `Session` takes one action at a time; deletions and other uses of the store
  fall in between.  Every store call may fail, also because the context is
  cancelled.  A failure to write the raw file or to record that no rule matched
  is only logged.

  * `acknowledged_step`: every step keeps `Acknowledged`;
  * `acknowledged_mail_is_queued`: the main result.
-/
import Mailrelay.Lib.Run
import Mailrelay.Rules.Engine
import Mailrelay.Webhook.Queue

namespace Mailrelay

open Lib

/-! ## The session -/

/-- The errors of `buildHandler`. -/
inductive HandlerError where
  | saving (e : DbError)
  | enqueueing (e : EnqueueError)
  deriving DecidableEq, Repr

/-- The errors of `Data`; an error of the reader becomes a reply of the SMTP
    library. -/
inductive DataError where
  | reading (text : String)
  | smtp (code : ℕ) (enhancedCode : ℕ × ℕ × ℕ) (message : String)
  deriving DecidableEq, Repr

/-- What `Data` reads and computes before it calls the handler. -/
structure Incoming where
  /-- `io.ReadAll` -/
  raw : Except String Unit
  /-- `VerifyAuth` -/
  auth : AuthResult × Except String Unit
  /-- `ParseEmail` -/
  parsed : Except String ParsedEmail

/-- `Data` up to the handler. -/
def receive (sender : String) (recipients : List String) (tls : Bool) (m : Incoming) :
    Except DataError ParsedEmail :=
  match m.raw with
  | .error e => .error (.reading ("reading email data: " ++ e))
  | .ok () =>
    let authResult := { m.auth.1 with tls := tls }
    match m.auth.2 with
    | .error e => .error (.smtp 550 (5, 7, 1) e)
    | .ok () =>
      match m.parsed with
      | .error _ => .error (.smtp 550 (5, 6, 0) "Failed to parse email")
      | .ok email => .ok { email with
          envelopeFrom := sender, envelopeTo := recipients, authResult := some authResult }

/-- `Data` after the handler. -/
def replyTo : Except HandlerError Unit → Except DataError Unit
  | .ok () => .ok ()
  | .error _ => .error (.smtp 451 (4, 3, 0) "Unable to queue email; try again later")

inductive SessionPhase where
  | receiving
  /-- before `SaveEmail` -/
  | saving (email : ParsedEmail)
  /-- before `Engine.Match` -/
  | matching (email : ParsedEmail)
  /-- before `UpdateEmailStatus` -/
  | dropping
  /-- before `Enqueue` -/
  | enqueueing (email : ParsedEmail) (matched : List Rule)
  | handled (result : Except HandlerError Unit)
  | replied (reply : Except DataError Unit)

/-- A committed `EnqueueDeliveries` of the handler. -/
structure Commit where
  batch : Uuid
  ids : ℕ → Uuid
  now : ℤ
  before : Db
  after : Db

/-- The ghost fields record what the handler matched, committed and returned. -/
structure Session where
  db : Db
  phase : SessionPhase
  matched : Option (ParsedEmail × List Rule)
  commits : List Commit
  returned : Option (Except HandlerError Unit)

namespace Session

def start (db : Db) : Session := ⟨db, .receiving, none, [], none⟩

def ret (s : Session) (result : Except HandlerError Unit) : Session :=
  { s with phase := .handled result, returned := some result }

end Session

inductive SessionEvent where
  | receive (m : Incoming)
  | save (receivedAt : Now) (fuse : Option ℕ)
  /-- with the rules that the engine holds -/
  | «match» (rules : List Rule)
  | drop (fuse : Option ℕ)
  /-- with the retry configuration of the dispatcher and fresh ids -/
  | enqueue (global : RetryConfig) (batch : Uuid) (ids : ℕ → Uuid) (now : Now) (fuse : Option ℕ)
  | reply
  | deleteEmail (id : Uuid) (fuse : Option ℕ)
  | deleteAllEmails (fuse : Option ℕ)
  /-- any other use of the store -/
  | other (db : Db)

/-- The fixed data of a session. -/
structure Mail where
  rt : Runtime
  /-- what `encoding/json` makes of a text -/
  utf8 : String → String
  patterns : Patterns
  emailId : Uuid
  sender : String
  recipients : List String
  tls : Bool

/-- The record that the handler saves, as its row is read. -/
def Mail.record (m : Mail) (email : ParsedEmail) (receivedAt : Now) : EmailRecord :=
  EmailRecord.readBack m.utf8 ⟨m.emailId, receivedAt.time, email.envelopeFrom, email.envelopeTo,
    email.from_, email.to_, email.subject, .received, "", some email, email.authResult⟩

def Session.step (m : Mail) (s : Session) : SessionEvent → Option Session
  | .receive incoming =>
    match s.phase with
    | .receiving =>
      match receive m.sender m.recipients m.tls incoming with
      | .error e => some { s with phase := .replied (.error e) }
      | .ok email => some { s with phase := .saving email }
    | _ => none
  | .save receivedAt fuse =>
    match s.phase with
    | .saving email =>
      match Tx.transaction (saveEmail (m.record email receivedAt)) fuse s.db with
      | (.error e, db) => some ({ s with db := db }.ret (.error (.saving e)))
      | (.ok (), db) => some { s with db := db, phase := .matching email }
    | _ => none
  | .match rules =>
    match s.phase with
    | .matching email =>
      let matched := engineMatch m.patterns rules email
      if matched.length = 0 then
        some { s with phase := .dropping, matched := some (email, matched) }
      else some { s with phase := .enqueueing email matched, matched := some (email, matched) }
    | _ => none
  | .drop fuse =>
    match s.phase with
    | .dropping =>
      let db := (Tx.transaction (updateEmailStatus m.emailId .dropped) fuse s.db).2
      some ({ s with db := db }.ret (.ok ()))
    | _ => none
  | .enqueue global batch ids now fuse =>
    match s.phase with
    | .enqueueing email matched =>
      match Mailrelay.enqueue m.rt global email matched m.emailId batch ids now.time fuse s.db with
      | (.error e, db) => some ({ s with db := db }.ret (.error (.enqueueing e)))
      | (.ok (), db) =>
        let commit := ⟨batch, ids, now.time, s.db, db⟩
        some ({ s with db := db, commits := commit :: s.commits }.ret (.ok ()))
    | _ => none
  | .reply =>
    match s.phase with
    | .handled result => some { s with phase := .replied (replyTo result) }
    | _ => none
  | .deleteEmail id fuse => some { s with db := (Tx.transaction (deleteEmail id) fuse s.db).2 }
  | .deleteAllEmails fuse => some { s with db := (Tx.transaction deleteAllEmails fuse s.db).2 }
  | .other db => some { s with db := db }

/-! ## What is acknowledged -/

/-- The snapshot carries the rule, less the signing secret, and the payload
    built for it, or the error of building it. -/
structure Carries (rt : Runtime) (email : ParsedEmail) (rule : Rule) (snap : DeliverySnapshot) : Prop where
  snapRule : snap.rule = { rule with webhook := { rule.webhook with signingSecret := "" } }
  signed : snap.signed = true ↔ rule.webhook.signingSecret ≠ ""
  payload : ∀ payload, buildPayload rt email rule.webhook = .ok payload →
    snap.payload = payload ∧ snap.payloadError = ""
  payloadError : ∀ e, buildPayload rt email rule.webhook = .error e → snap.payloadError = e

/-- A pending delivery of the rule that was not tried, and its queue row, which
    is due at once and holds the text of the snapshot. -/
structure Pends (m : Mail) (email : ParsedEmail) (batch : Uuid) (now : ℤ) (rule : Rule) (d : DeliveryRow)
    (q : QueueRow) : Prop where
  emailId : d.emailId = m.emailId
  ruleName : d.ruleName = rule.name
  status : d.status = .pending
  untried : d.attempts = 0 ∧ d.statusCode = 0 ∧ d.errorMessage = "" ∧ d.responseBody = ""
  times : d.createdAt = now ∧ d.updatedAt = now
  queued : q.deliveryId = d.id ∧ q.emailId = m.emailId ∧ q.batchId = batch
  due : q.nextAttemptAt = unixNano now
  snapshot : ∃ snap, m.rt.marshalSnapshot snap = .ok q.snapshot ∧ Carries m.rt email rule snap

/-- The transaction of a successful `Enqueue`: one pending delivery and one
    queue row for each rule, in order, in the batch of the email. -/
structure Published (m : Mail) (email : ParsedEmail) (matched : List Rule) (c : Commit)
    (rows : List (DeliveryRow × QueueRow)) : Prop where
  pends : List.Forall₂ (fun rule row => Pends m email c.batch c.now rule row.1 row.2) matched rows
  deliveries : c.after.deliveries.rows = c.before.deliveries.rows ++ rows.map Prod.fst
  queue : c.after.queue.rows = c.before.queue.rows ++ rows.map Prod.snd
  email : ∃ e, c.before.emails.get? m.emailId = some e ∧ c.after.emails.get? m.emailId =
    some { e with status := .received, deliveryBatch := some c.batch }
  others : ∀ id ≠ m.emailId, c.after.emails.get? id = c.before.emails.get? id

/-- No delivery of the email is stored. -/
def NoRows (emailId : Uuid) (db : Db) : Prop :=
  (∀ d ∈ db.deliveries.rows, d.emailId ≠ emailId) ∧ ∀ q ∈ db.queue.rows, q.emailId ≠ emailId

/-- Other users of the store enqueue nothing for this email. -/
def Session.Allowed (m : Mail) (s : Session) : SessionEvent → Prop
  | .other db => NoRows m.emailId s.db → NoRows m.emailId db
  | _ => True

/-- What the session has done for the email, by phase. -/
inductive Acknowledged (m : Mail) (s : Session) : Prop
  | before : (s.phase = .receiving ∨ (∃ email, s.phase = .saving email) ∨
      (∃ email, s.phase = .matching email) ∨ ∃ e, s.phase = .replied (.error e)) →
      s.matched = none → s.commits = [] → s.returned = none → NoRows m.emailId s.db →
      Acknowledged m s
  | dropping (email : ParsedEmail) : s.phase = .dropping → s.matched = some (email, []) →
      s.commits = [] → s.returned = none → NoRows m.emailId s.db → Acknowledged m s
  | enqueueing (email : ParsedEmail) (matched : List Rule) : s.phase = .enqueueing email matched →
      s.matched = some (email, matched) → matched ≠ [] → s.commits = [] → s.returned = none →
      NoRows m.emailId s.db → Acknowledged m s
  | refused (e : HandlerError) : s.returned = some (.error e) →
      (s.phase = .handled (.error e) ∨ s.phase = .replied (replyTo (.error e))) →
      s.commits = [] → NoRows m.emailId s.db → Acknowledged m s
  | dropped (email : ParsedEmail) : s.returned = some (.ok ()) →
      (s.phase = .handled (.ok ()) ∨ s.phase = .replied (replyTo (.ok ()))) →
      s.matched = some (email, []) → s.commits = [] → Acknowledged m s
  | queued (email : ParsedEmail) (matched : List Rule) (c : Commit)
      (rows : List (DeliveryRow × QueueRow)) : s.returned = some (.ok ()) →
      (s.phase = .handled (.ok ()) ∨ s.phase = .replied (replyTo (.ok ()))) →
      s.matched = some (email, matched) → s.commits = [c] → Published m email matched c rows →
      Acknowledged m s

section
variable {m : Mail} {s s' : Session}

theorem noRows_of_fresh {db : Db} {emailId : Uuid} (h : db.emails.get? emailId = none) :
    NoRows emailId db := by
  constructor
  · rintro d hd rfl
    have := db.deliveryEmail d hd
    rw [h] at this; cases this
  · rintro q hq rfl
    have := db.queueEmail q hq
    rw [h] at this; cases this

theorem NoRows.congr {db db' : Db} {emailId : Uuid} (h : NoRows emailId db)
    (hd : db'.deliveries = db.deliveries) (hq : db'.queue = db.queue) : NoRows emailId db' := by
  unfold NoRows
  rw [hd, hq]
  exact h

theorem NoRows.deleteEmails {db : Db} {emailId : Uuid} (h : NoRows emailId db)
    (p : EmailRow → Bool) : NoRows emailId (db.deleteEmails p) := by
  constructor
  · intro d hd
    rw [Db.deleteEmails_deliveries] at hd
    exact h.1 d (List.mem_of_mem_filter hd)
  · intro q hq
    rw [Db.deleteEmails_queue] at hq
    exact h.2 q (List.mem_of_mem_filter hq)

/-- A call that deletes emails, whether it fails or not. -/
theorem NoRows.transaction {α : Type} {body : Tx α} {fuse : Option ℕ} {db : Db} {emailId : Uuid}
    (h : NoRows emailId db)
    (hb : ∀ a db' fuse', body (db, fuse) = .ok (a, db', fuse') → NoRows emailId db') :
    NoRows emailId (Tx.transaction body fuse db).2 := by
  rcases ht : Tx.transaction body fuse db with ⟨e | a, db'⟩
  · rw [Tx.transaction_error ht]; exact h
  · obtain ⟨fuse', hok⟩ := Tx.transaction_ok ht
    exact hb a db' fuse' hok

theorem NoRows.deleteTx {db : Db} {emailId : Uuid} (h : NoRows emailId db) (fuse : Option ℕ)
    (p : EmailRow → Bool) :
    NoRows emailId (Tx.transaction (Tx.stmt fun db => .ok (db.deleteEmails p)) fuse db).2 := by
  refine h.transaction fun _ db' _ hok => ?_
  obtain rfl := Except.ok.inj (Tx.stmt_ok hok)
  exact h.deleteEmails p

theorem NoRows.saveEmail {db : Db} {emailId : Uuid} (h : NoRows emailId db) (fuse : Option ℕ)
    (record : EmailRecord) : NoRows emailId (Tx.transaction (saveEmail record) fuse db).2 := by
  refine h.transaction fun _ db' _ hok => ?_
  obtain ⟨-, hd, hq, -⟩ := insertEmail_ok (Tx.stmt_ok hok)
  exact h.congr hd hq

/-- Another user of the store takes its turn. -/
theorem Acknowledged.other (h : Acknowledged m s) {db : Db}
    (hd : NoRows m.emailId s.db → NoRows m.emailId db) : Acknowledged m { s with db := db } := by
  cases h with
  | before hp hm hc hr hn => exact .before hp hm hc hr (hd hn)
  | dropping email hp hm hc hr hn => exact .dropping email hp hm hc hr (hd hn)
  | enqueueing email matched hp hm hne hc hr hn =>
    exact .enqueueing email matched hp hm hne hc hr (hd hn)
  | refused e hr hp hc hn => exact .refused e hr hp hc (hd hn)
  | dropped email hr hp hm hc => exact .dropped email hr hp hm hc
  | queued email matched c rows hr hp hm hc hpub =>
    exact .queued email matched c rows hr hp hm hc hpub

theorem snapshotOf_carries (rt : Runtime) (global : RetryConfig) (email : ParsedEmail) (rule : Rule) :
    Carries rt email rule (snapshotOf rt global email rule) := by
  refine ⟨rfl, ?_, fun payload hp => ?_, fun e he => ?_⟩
  · simp [snapshotOf]
  · simp only [snapshotOf, hp, and_self]
  · simp only [snapshotOf, he]

/-- The rows of a job are those of its rule. -/
theorem jobOf_pends {global : RetryConfig} {email : ParsedEmail} {rule : Rule} {job : QueuedDelivery}
    (h : JobOf m.rt global email rule job) (id batch : Uuid) (now : ℤ) :
    Pends m email batch now rule (deliveryRow m.emailId now (id, job))
      (queueRow m.emailId batch now (id, job)) where
  emailId := rfl
  ruleName := h.1
  status := rfl
  untried := ⟨rfl, rfl, rfl, rfl⟩
  times := ⟨rfl, rfl⟩
  queued := ⟨rfl, rfl, rfl⟩
  due := rfl
  snapshot := ⟨snapshotOf m.rt global email rule, h.2, snapshotOf_carries m.rt global email rule⟩

theorem numbered_cons (ids : ℕ → Uuid) (job : QueuedDelivery) (jobs : List QueuedDelivery) :
    numbered ids (job :: jobs) = (ids 0, job) :: numbered (fun i => ids (i + 1)) jobs := by
  simp [numbered, List.mapIdx_cons]

/-- Numbered jobs have rows rule by rule. -/
theorem jobs_pend {global : RetryConfig} {email : ParsedEmail} {matched : List Rule}
    {jobs : List QueuedDelivery} (h : List.Forall₂ (JobOf m.rt global email) matched jobs)
    (ids : ℕ → Uuid) (batch : Uuid) (now : ℤ) :
    List.Forall₂ (fun rule row => Pends m email batch now rule row.1 row.2) matched
      ((numbered ids jobs).map fun j => (deliveryRow m.emailId now j, queueRow m.emailId batch now j)) := by
  induction h generalizing ids with
  | nil => exact .nil
  | cons hjob _ ih =>
    rw [numbered_cons]
    exact .cons (jobOf_pends hjob (ids 0) batch now) (ih fun i => ids (i + 1))

/-- **A successful `Enqueue` publishes the batch.** -/
theorem enqueue_published {global : RetryConfig} {email : ParsedEmail} {matched : List Rule}
    {batch : Uuid} {ids : ℕ → Uuid} {now : ℤ} {fuse : Option ℕ} {db db' : Db} (hne : matched ≠ [])
    (h : enqueue m.rt global email matched m.emailId batch ids now fuse db = (.ok (), db')) :
    ∃ rows, Published m email matched ⟨batch, ids, now, db, db'⟩ rows := by
  obtain ⟨jobs, hjobs, he⟩ := enqueue_ok h
  have hj : numbered ids jobs ≠ [] := by
    intro hnil
    have hlen : (numbered ids jobs).length = matched.length := by
      rw [numbered, List.length_mapIdx, hjobs.length_eq]
    rw [hnil] at hlen
    exact hne (List.length_eq_zero_iff.1 hlen.symm)
  obtain ⟨e, hem⟩ := Option.isSome_iff_exists.1 (he.email hj)
  have hid : (e.id == m.emailId) = true := beq_iff_eq.2 (Table.get?_key hem)
  refine ⟨_, jobs_pend hjobs ids batch now, ?_, ?_, ⟨e, hem, ?_⟩, fun id hne => ?_⟩
  · rw [he.deliveries, List.map_map]
    rfl
  · rw [he.queue, List.map_map]
    rfl
  · rw [he.emails, Table.get?_update, hem, Option.map_some, if_pos hid]
  · rw [he.emails, Table.get?_update]
    cases hother : db.emails.get? id with
    | none => rfl
    | some e' =>
      have hid' : (e'.id == m.emailId) = false := by
        rw [beq_eq_false_iff_ne]
        exact fun heq => hne ((Table.get?_key hother).symm.trans heq)
      rw [Option.map_some, hid']
      rfl

/-- Before the rules are matched, nothing is stored for the email. -/
theorem Acknowledged.unmatched (h : Acknowledged m s)
    (hp : s.phase = .receiving ∨ (∃ email, s.phase = .saving email) ∨
      ∃ email, s.phase = .matching email) :
    s.matched = none ∧ s.commits = [] ∧ s.returned = none ∧ NoRows m.emailId s.db := by
  cases h with
  | before _ hm hc hr hn => exact ⟨hm, hc, hr, hn⟩
  | dropping _ hp' | enqueueing _ _ hp' => rw [hp'] at hp; simp at hp
  | refused _ _ hp' | dropped _ _ hp' | queued _ _ _ _ _ hp' =>
    rcases hp' with hp' | hp' <;> rw [hp'] at hp <;> simp at hp

theorem Acknowledged.of_dropping (h : Acknowledged m s) (hp : s.phase = .dropping) :
    ∃ email, s.matched = some (email, []) ∧ s.commits = [] := by
  cases h with
  | dropping email _ hm hc => exact ⟨email, hm, hc⟩
  | enqueueing _ _ hp' => rw [hp] at hp'; cases hp'
  | before hp' | refused _ _ hp' | dropped _ _ hp' | queued _ _ _ _ _ hp' =>
    rw [hp] at hp'; simp at hp'

theorem Acknowledged.of_enqueueing (h : Acknowledged m s) {email : ParsedEmail}
    {matched : List Rule} (hp : s.phase = .enqueueing email matched) :
    s.matched = some (email, matched) ∧ matched ≠ [] ∧ s.commits = [] ∧ NoRows m.emailId s.db := by
  cases h with
  | enqueueing _ _ hp' hm hne hc _ hn =>
    rw [hp] at hp'
    cases hp'
    exact ⟨hm, hne, hc, hn⟩
  | dropping _ hp' => rw [hp] at hp'; cases hp'
  | before hp' | refused _ _ hp' | dropped _ _ hp' | queued _ _ _ _ _ hp' =>
    rw [hp] at hp'; simp at hp'

/-- The handler returned once, and what it did stands. -/
theorem Acknowledged.reply (h : Acknowledged m s) {result : Except HandlerError Unit}
    (hp : s.phase = .handled result) :
    Acknowledged m { s with phase := .replied (replyTo result) } := by
  cases h with
  | before hp' => rw [hp] at hp'; simp at hp'
  | dropping _ hp' | enqueueing _ _ hp' => rw [hp] at hp'; cases hp'
  | refused e hr hp' hc hn =>
    have hres : result = .error e := by simpa [hp] using hp'
    exact .refused e hr (Or.inr (by rw [hres])) hc hn
  | dropped email hr hp' hm hc =>
    have hres : result = .ok () := by simpa [hp] using hp'
    exact .dropped email hr (Or.inr (by rw [hres])) hm hc
  | queued email matched c rows hr hp' hm hc hpub =>
    have hres : result = .ok () := by simpa [hp] using hp'
    exact .queued email matched c rows hr (Or.inr (by rw [hres])) hm hc hpub

/-- **Every step keeps `Acknowledged`.** -/
theorem acknowledged_step {e : SessionEvent} (h : Acknowledged m s) (ha : Session.Allowed m s e)
    (hs : s.step m e = some s') : Acknowledged m s' := by
  cases e with
  | receive incoming =>
    simp only [Session.step] at hs
    split at hs
    next hphase =>
      obtain ⟨hm, hc, hr, hn⟩ := h.unmatched (Or.inl hphase)
      split at hs <;> cases hs
      · exact .before (Or.inr (Or.inr (Or.inr ⟨_, rfl⟩))) hm hc hr hn
      · exact .before (Or.inr (Or.inl ⟨_, rfl⟩)) hm hc hr hn
    next => cases hs
  | save receivedAt fuse =>
    simp only [Session.step] at hs
    split at hs
    next email hphase =>
      obtain ⟨hm, hc, hr, hn⟩ := h.unmatched (Or.inr (Or.inl ⟨email, hphase⟩))
      have hdb := hn.saveEmail fuse (m.record email receivedAt)
      split at hs
      next e db ht =>
        cases hs
        rw [ht] at hdb
        exact .refused (.saving e) rfl (Or.inl rfl) hc hdb
      next db ht =>
        cases hs
        rw [ht] at hdb
        exact .before (Or.inr (Or.inr (Or.inl ⟨email, rfl⟩))) hm hc hr hdb
    next => cases hs
  | «match» rules =>
    simp only [Session.step] at hs
    split at hs
    next email hphase =>
      obtain ⟨-, hc, hr, hn⟩ := h.unmatched (Or.inr (Or.inr ⟨email, hphase⟩))
      split_ifs at hs with hlen <;> cases hs
      · rw [List.length_eq_zero_iff] at hlen
        exact .dropping email rfl (by rw [hlen]) hc hr hn
      · refine .enqueueing email _ rfl rfl (fun hnil => hlen ?_) hc hr hn
        rw [hnil]; rfl
    next => cases hs
  | drop fuse =>
    simp only [Session.step] at hs
    split at hs
    next hphase =>
      obtain ⟨email, hm, hc⟩ := h.of_dropping hphase
      cases hs
      exact .dropped email rfl (Or.inl rfl) hm hc
    next => cases hs
  | enqueue global batch ids now fuse =>
    simp only [Session.step] at hs
    split at hs
    next email matched hphase =>
      obtain ⟨hm, hne, hc, hn⟩ := h.of_enqueueing hphase
      split at hs
      next e db ht =>
        cases hs
        rw [enqueue_error ht]
        exact .refused (.enqueueing e) rfl (Or.inl rfl) hc hn
      next db ht =>
        cases hs
        obtain ⟨rows, hpub⟩ := enqueue_published hne ht
        exact .queued email matched _ rows rfl (Or.inl rfl) hm (by rw [hc]; rfl) hpub
    next => cases hs
  | reply =>
    simp only [Session.step] at hs
    split at hs
    next result hphase =>
      cases hs
      exact h.reply hphase
    next => cases hs
  | deleteEmail id fuse =>
    cases hs; exact h.other fun hn => hn.deleteTx fuse _
  | deleteAllEmails fuse =>
    cases hs; exact h.other fun hn => hn.deleteTx fuse _
  | other db => cases hs; exact h.other ha

/-- Acknowledged mail is queued, refused mail is not. -/
structure Answered (m : Mail) (s : Session) : Prop where
  success : s.phase = .replied (.ok ()) → s.returned = some (.ok ())
  queued : s.returned = some (.ok ()) → ∀ email matched, s.matched = some (email, matched) →
    matched ≠ [] → ∃ c rows, s.commits = [c] ∧ Published m email matched c rows
  refused : ∀ e, s.returned = some (.error e) → s.commits = [] ∧ NoRows m.emailId s.db

/-- Before the handler returns there is no answer. -/
theorem answered_of_unreturned (hp : s.phase ≠ .replied (.ok ())) (hr : s.returned = none) :
    Answered m s := by
  refine ⟨fun hok => absurd hok hp, fun hok => ?_, fun e he => ?_⟩
  · rw [hr] at hok; cases hok
  · rw [hr] at he; cases he

theorem Acknowledged.answered (h : Acknowledged m s) : Answered m s := by
  cases h with
  | before hp hm hc hr hn =>
    refine answered_of_unreturned (fun hok => ?_) hr
    rw [hok] at hp
    rcases hp with hp | ⟨_, hp⟩ | ⟨_, hp⟩ | ⟨_, hp⟩ <;> cases hp
  | dropping email hp hm hc hr hn => exact answered_of_unreturned (by rw [hp]; nofun) hr
  | enqueueing email matched hp hm hne hc hr hn =>
    exact answered_of_unreturned (by rw [hp]; nofun) hr
  | refused e hr hp hc hn =>
    refine ⟨fun hok => ?_, fun hok => ?_, fun _ _ => ⟨hc, hn⟩⟩
    · rw [hok] at hp
      rcases hp with hp | hp <;> cases hp
    · rw [hr] at hok; cases hok
  | dropped email hr hp hm hc =>
    refine ⟨fun _ => hr, fun _ email' matched' hm' hne => ?_, fun e he => ?_⟩
    · rw [hm] at hm'; cases hm'; exact absurd rfl hne
    · rw [hr] at he; cases he
  | queued email matched c rows hr hp hm hc hpub =>
    refine ⟨fun _ => hr, fun _ email' matched' hm' _ => ?_, fun e he => ?_⟩
    · rw [hm] at hm'; cases hm'; exact ⟨c, rows, hc, hpub⟩
    · rw [hr] at he; cases he

end

/-- **Acknowledged mail is queued, refused mail is not**: in every run of a
    session, with deletions and other uses of the store in between. -/
theorem acknowledged_mail_is_queued (m : Mail) (db : Db) (es : List SessionEvent) (s : Session)
    (hfresh : db.emails.get? m.emailId = none)
    (hrun : Run (Session.step m) (Session.Allowed m) (.start db) es s) : Answered m s := by
  refine Acknowledged.answered (hrun.inv (I := Acknowledged m)
    (fun _ _ _ hi hp hs => acknowledged_step hi hp hs) ?_)
  exact .before (Or.inl rfl) rfl rfl rfl (noRows_of_fresh hfresh)

/-- A second rule, whose deliveries are signed. -/
def journalRule : Rule :=
  { signedRule "s3cret" with
    name := "journal", webhook := { (signedRule "s3cret").webhook with payloadTemplate := "\x7b\x7d" } }

def journalText : String :=
  "\x7b\"Rule\":\x7b\"name\":\"journal\",\"match\":\x7b\x7d,\"webhook\":\x7b\"url\":" ++
  "\"https://hooks.example.com/a\",\"method\":\"POST\",\"payload_template\":\"\x7b\x7d\"\x7d\x7d," ++
  "\"Signed\":true,\"Payload\":\"e30=\",\"Retry\":\x7b\"max_retries\":1,\"initial_wait\":1000000000," ++
  "\"max_wait\":60000000000,\"timeout\":30000000000,\"retry_on_timeout\":true\x7d," ++
  "\"PayloadError\":\"\"\x7d"

def sampleMail : Mail where
  rt := { sampleRuntime sampleText sampleSnapshot with
    marshalSnapshot := fun snap => .ok (if snap.rule.name = "journal" then journalText else sampleText) }
  utf8 := id
  patterns := ⟨.ascii, fun _ => none, fun pattern value => some (pattern == value)⟩
  emailId := 1
  sender := "a@example.com"
  recipients := ["b@example.org"]
  tls := true

/-- A message that two rules match; another email is deleted in between. -/
def sampleSession : List SessionEvent :=
  [.receive ⟨.ok (), (⟨false, .pass, .none, .none, .none⟩, .ok ()),
      .ok ⟨"a@example.com", ["b@example.org"], [], "hello", "", "", [], [], none, "", []⟩⟩,
    .save (clock 100) none, .match [sampleRule, journalRule], .deleteEmail 9 none,
    .enqueue sampleSnapshot.retry 2 (· + 3) (clock 200) none, .reply]

theorem acknowledged_mail_is_queued_sample : ∃ s, Answered sampleMail s ∧ s.returned = some (.ok ()) ∧
    s.db.deliveries.rows.map (fun d => (d.id, d.ruleName, d.status)) =
      [(3, "alerts", .pending), (4, "journal", .pending)] ∧
    s.db.queue.rows.map (fun q => (q.deliveryId, q.batchId, q.snapshot)) =
      [(3, 2, sampleText), (4, 2, journalText)] ∧
    s.db.emails.rows.map EmailRow.deliveryBatch = [some 2] := by
  have hs : (exec (Session.step sampleMail) (.start .empty) sampleSession).map
      (fun s => (s.returned, s.db.deliveries.rows, s.db.queue.rows,
        s.db.emails.rows.map EmailRow.deliveryBatch)) =
      some (some (.ok ()),
        [⟨3, 1, "alerts", .pending, 0, "", "", 0, 200, 200⟩,
          ⟨4, 1, "journal", .pending, 0, "", "", 0, 200, 200⟩],
        [⟨3, 2, 1, sampleText, 200⟩, ⟨4, 2, 1, journalText, 200⟩], [some 2]) := by decide +kernel
  obtain ⟨s, hw, hrows⟩ := Option.map_eq_some_iff.1 hs
  simp only [Prod.mk.injEq] at hrows
  obtain ⟨hreturned, hdeliveries, hqueue, hemails⟩ := hrows
  refine ⟨s, acknowledged_mail_is_queued sampleMail .empty sampleSession s rfl
    (Run.of_exec (fun e he _ => ?_) hw), hreturned, ?_, ?_, hemails⟩
  · simp only [sampleSession, List.mem_cons, List.not_mem_nil, or_false] at he
    rcases he with rfl | rfl | rfl | rfl | rfl | rfl <;> trivial
  · rw [hdeliveries]
    rfl
  · rw [hqueue]
    rfl

end Mailrelay
