/-
  Emails in the store (`internal/storage/store.go`).

  `Db.delivery? id` is a queued delivery: its row of `deliveries` joined with
  its row of `delivery_queue`.  The delivery queue is reasoned about through
  this view and `emails.get?`; the lemmas below say what each statement on
  emails does to it.
-/
import Mailrelay.Storage.Db

namespace Mailrelay

open Lib

namespace Db

/-- `deliveries d JOIN delivery_queue q ON d.id = q.delivery_id`, at one id. -/
def delivery? (db : Db) (id : Uuid) : Option (DeliveryRow × QueueRow) :=
  (db.deliveries.get? id).bind fun d => (db.queue.get? id).map fun q => (d, q)

/-- `EXISTS (SELECT 1 FROM delivery_queue q JOIN deliveries d ON d.id = q.delivery_id
    WHERE q.email_id = … AND d.status IN ('pending','in_progress'))` -/
def hasUnfinished (db : Db) (emailId : Uuid) : Bool :=
  db.queue.rows.any fun q => q.emailId == emailId &&
    (db.deliveries.get? q.deliveryId).any fun d => d.status.unfinished

end Db

/-! ## JSON columns -/

section
variable (utf8 : String → String)

/-- The parsed email as it is read from its column.  A text may have bytes that
    are not UTF-8; `encoding/json` replaces these (`utf8`). -/
def ParsedEmail.readBack (email : ParsedEmail) : ParsedEmail where
  from_ := utf8 email.from_
  to_ := email.to_.map utf8
  cc := email.cc.map utf8
  subject := utf8 email.subject
  textBody := utf8 email.textBody
  htmlBody := utf8 email.htmlBody
  headers := email.headers.map fun (key, values) => (utf8 key, values.map utf8)
  attachments := email.attachments.map fun a => ⟨utf8 a.filename, utf8 a.contentType, utf8 a.content⟩
  authResult := email.authResult
  envelopeFrom := utf8 email.envelopeFrom
  envelopeTo := email.envelopeTo.map utf8

/-- The record as it is read from its row.  The other texts have columns of
    their own, which keep them as they are. -/
def EmailRecord.readBack (record : EmailRecord) : EmailRecord :=
  { record with
    envelopeTo := record.envelopeTo.map utf8
    headerTo := record.headerTo.map utf8
    parsedEmail := record.parsedEmail.map (ParsedEmail.readBack utf8) }

end

/-! ## Operations -/

/-- `SaveEmail`, of a record as its row is read. -/
def saveEmail (record : EmailRecord) : Tx Unit :=
  .stmt (Db.insertEmail { record with deliveryBatch := none })

def updateEmailStatus (id : Uuid) (status : EmailStatus) : Tx Unit :=
  .stmt fun db => .ok (db.updateEmails
    (fun e => e.id == id && (status != .dropped ||
      !db.deliveries.rows.any fun d => d.emailId == e.id && d.status.unfinished))
    (fun e => { e with status := status }) fun _ => rfl)

def deleteEmail (id : Uuid) : Tx Unit :=
  .stmt fun db => .ok (db.deleteEmails fun e => e.id == id)

def deleteAllEmails : Tx Unit :=
  .stmt fun db => .ok (db.deleteEmails fun _ => true)

/-- `CleanupExpired`: `time.Duration` arithmetic wraps.  The result is the ids
    of the deleted emails. -/
def cleanupExpired (retentionDays now : ℤ) : Tx (List Uuid) :=
  if retentionDays ≤ 0 then pure []
  else do
    let cutoff := now + wrap64 (-retentionDays * 24 * (3600 * second))
    let expired (db : Db) (e : EmailRow) : Bool :=
      decide (e.receivedAt < cutoff) && !db.hasUnfinished e.id
    let ids ← Tx.query fun db => (db.emails.rows.filter (expired db)).map fun e => e.id
    Tx.stmt fun db => .ok (db.deleteEmails (expired db))
    pure ids

/-! ## The view of a delivery -/

namespace Db

variable {db db' : Db} {id : Uuid} {d : DeliveryRow} {q : QueueRow}

theorem delivery?_eq_some : db.delivery? id = some (d, q) ↔
    db.deliveries.get? id = some d ∧ db.queue.get? id = some q := by
  unfold delivery?
  rcases db.deliveries.get? id with _ | d' <;> rcases db.queue.get? id with _ | q' <;> simp

theorem delivery?_id (h : db.delivery? id = some (d, q)) : d.id = id ∧ q.deliveryId = id :=
  ⟨Table.get?_key (delivery?_eq_some.1 h).1, Table.get?_key (delivery?_eq_some.1 h).2⟩

theorem delivery?_congr (hd : db'.deliveries = db.deliveries) (hq : db'.queue = db.queue) :
    db'.delivery? id = db.delivery? id := by
  unfold delivery?; rw [hd, hq]

/-- A queued delivery belongs to an email. -/
theorem delivery?_email (h : db.delivery? id = some (d, q)) :
    (db.emails.get? q.emailId).isSome :=
  db.queueEmail q (Table.mem_of_get? (delivery?_eq_some.1 h).2)

theorem hasUnfinished_iff {emailId : Uuid} : db.hasUnfinished emailId ↔
    ∃ id d q, db.delivery? id = some (d, q) ∧ q.emailId = emailId ∧ d.status.unfinished := by
  simp only [hasUnfinished, List.any_eq_true, Bool.and_eq_true, beq_iff_eq, Option.any_eq_true]
  constructor
  · rintro ⟨q, hq, he, d, hd, hu⟩
    exact ⟨q.deliveryId, d, q, delivery?_eq_some.2 ⟨hd, Table.get?_of_mem hq⟩, he, hu⟩
  · rintro ⟨id, d, q, h, he, hu⟩
    obtain ⟨hd, hq⟩ := delivery?_eq_some.1 h
    have hk := (delivery?_id h).2
    exact ⟨q, Table.mem_of_get? hq, he, d, by rw [hk]; exact hd, hu⟩

/-- The two rows of every delivery agree on the email, and no delivery is
    without its queue row.  The program keeps this; the schema does not. -/
structure Paired (db : Db) : Prop where
  email : ∀ {id d q}, db.delivery? id = some (d, q) → d.emailId = q.emailId
  queued : ∀ {id d}, db.deliveries.get? id = some d → ∃ q, db.queue.get? id = some q

theorem paired_empty : empty.Paired := ⟨nofun, nofun⟩

theorem Paired.congr (h : db.Paired) (hd : db'.deliveries = db.deliveries)
    (hq : db'.queue = db.queue) : db'.Paired :=
  ⟨fun h' => h.email (by rwa [delivery?_congr hd hq] at h'),
    fun h' => by rw [hq]; rw [hd] at h'; exact h.queued h'⟩

/-- The guard of `UpdateEmailStatus` looks at `deliveries` alone; with every
    delivery queued it is the guard of the other statements. -/
theorem Paired.any_unfinished (h : db.Paired) (emailId : Uuid) :
    (db.deliveries.rows.any fun d => d.emailId == emailId && d.status.unfinished) =
      db.hasUnfinished emailId := by
  rw [Bool.eq_iff_iff, hasUnfinished_iff]
  simp only [List.any_eq_true, Bool.and_eq_true, beq_iff_eq]
  constructor
  · rintro ⟨d, hd, he, hu⟩
    have hg := Table.get?_of_mem hd
    obtain ⟨q, hq⟩ := h.queued hg
    have hj := delivery?_eq_some.2 ⟨hg, hq⟩
    exact ⟨_, d, q, hj, by rw [← h.email hj]; exact he, hu⟩
  · rintro ⟨id, d, q, hj, he, hu⟩
    exact ⟨d, Table.mem_of_get? (delivery?_eq_some.1 hj).1, by rw [h.email hj]; exact he, hu⟩

/-! ## Updates -/

section
variable {p : EmailRow → Bool} {f : EmailRow → EmailRow} {hf : ∀ e, (f e).id = e.id}

theorem get?_updateEmails (emailId : Uuid) : (db.updateEmails p f hf).emails.get? emailId =
    (db.emails.get? emailId).map fun e => if p e then f e else e := by
  simp only [updateEmails, Table.get?_update]

theorem Paired.updateEmails (h : db.Paired) : (db.updateEmails p f hf).Paired := h.congr rfl rfl

end

section
variable {p : DeliveryRow → Bool} {f : DeliveryRow → DeliveryRow} {hf : ∀ d, (f d).id = d.id}
  {he : ∀ d, (f d).emailId = d.emailId}

@[simp] theorem delivery?_updateDeliveries : (db.updateDeliveries p f hf he).delivery? id =
    (db.delivery? id).map fun r => (if p r.1 then f r.1 else r.1, r.2) := by
  simp only [delivery?, updateDeliveries, Table.get?_update]
  rcases db.deliveries.get? id with _ | d
  · rfl
  · rcases db.queue.get? id with _ | q <;> rfl

theorem get?_updateDeliveries (id : Uuid) : (db.updateDeliveries p f hf he).deliveries.get? id =
    (db.deliveries.get? id).map fun d => if p d then f d else d := by
  simp only [updateDeliveries, Table.get?_update]

theorem Paired.updateDeliveries (h : db.Paired) : (db.updateDeliveries p f hf he).Paired := by
  constructor
  · intro id d q hj
    rw [delivery?_updateDeliveries, Option.map_eq_some_iff] at hj
    obtain ⟨⟨d₀, q₀⟩, hj₀, hr⟩ := hj
    cases hr
    by_cases hp : p d₀
    · simp only [hp, if_true, he]; exact h.email hj₀
    · simp only [hp]; exact h.email hj₀
  · intro id d hd
    simp only [Db.updateDeliveries, Table.get?_update, Option.map_eq_some_iff] at hd
    obtain ⟨d₀, hd₀, -⟩ := hd
    exact h.queued hd₀

end

section
variable {p : QueueRow → Bool} {f : QueueRow → QueueRow}
  {hf : ∀ q, (f q).deliveryId = q.deliveryId} {he : ∀ q, (f q).emailId = q.emailId}

@[simp] theorem delivery?_updateQueue : (db.updateQueue p f hf he).delivery? id =
    (db.delivery? id).map fun r => (r.1, if p r.2 then f r.2 else r.2) := by
  simp only [delivery?, updateQueue, Table.get?_update]
  rcases db.deliveries.get? id with _ | d
  · rfl
  · rcases db.queue.get? id with _ | q <;> rfl

theorem get?_updateQueue (id : Uuid) : (db.updateQueue p f hf he).queue.get? id =
    (db.queue.get? id).map fun q => if p q then f q else q := by
  simp only [updateQueue, Table.get?_update]

theorem Paired.updateQueue (h : db.Paired) : (db.updateQueue p f hf he).Paired := by
  constructor
  · intro id d q hj
    rw [delivery?_updateQueue, Option.map_eq_some_iff] at hj
    obtain ⟨⟨d₀, q₀⟩, hj₀, hr⟩ := hj
    cases hr
    by_cases hp : p q₀
    · simp only [hp, if_true, he]; exact h.email hj₀
    · simp only [hp]; exact h.email hj₀
  · intro id d hd
    obtain ⟨q, hq⟩ := h.queued hd
    exact ⟨_, by simp only [Db.updateQueue, Table.get?_update, hq]; rfl⟩

end

/-- Dropping an email spares one with unfinished deliveries. -/
theorem updateEmailStatus_dropped_ok {emailId : Uuid} {fuse fuse' : Option ℕ} (hp : db.Paired)
    (h : updateEmailStatus emailId .dropped (db, fuse) = .ok ((), db', fuse')) :
    db'.deliveries = db.deliveries ∧ db'.queue = db.queue ∧
      ∀ id, db'.emails.get? id = (db.emails.get? id).map fun e =>
        if e.id == emailId && !db.hasUnfinished e.id then { e with status := .dropped } else e := by
  obtain rfl := Except.ok.inj (Tx.stmt_ok h)
  refine ⟨rfl, rfl, fun id => ?_⟩
  rw [get?_updateEmails]
  simp only [hp.any_unfinished, bne_self_eq_false, Bool.false_or]

/-! ## Deleting emails -/

theorem get?_deleteEmails {p : EmailRow → Bool} (emailId : Uuid) :
    (db.deleteEmails p).emails.get? emailId = (db.emails.get? emailId).filter fun e => !p e :=
  Table.get?_delete

theorem deleteEmails_deliveries (p : EmailRow → Bool) : (db.deleteEmails p).deliveries =
    db.deliveries.delete fun d => ((db.deleteEmails p).emails.get? d.emailId).isNone := rfl

theorem deleteEmails_queue (p : EmailRow → Bool) : (db.deleteEmails p).queue =
    db.queue.delete fun q => ((db.deleteEmails p).deliveries.get? q.deliveryId).isNone ||
      ((db.deleteEmails p).emails.get? q.emailId).isNone := rfl

/-- Deleting no email changes nothing. -/
theorem deleteEmails_none (db : Db) : db.deleteEmails (fun _ => false) = db := by
  have he : (db.deleteEmails fun _ => false).emails = db.emails :=
    Table.delete_of_not fun _ _ => rfl
  have hd : (db.deleteEmails fun _ => false).deliveries = db.deliveries := by
    rw [deleteEmails_deliveries, he]
    exact Table.delete_of_not fun d hd => Option.isNone_eq_false_iff.2 (db.deliveryEmail d hd)
  refine ext' he hd ?_
  rw [deleteEmails_queue, he, hd]
  refine Table.delete_of_not fun q hq => Bool.or_eq_false_iff.2 ⟨?_, ?_⟩
  · exact Option.isNone_eq_false_iff.2 (db.queueDelivery q hq)
  · exact Option.isNone_eq_false_iff.2 (db.queueEmail q hq)

/-- A delivery goes exactly with its email. -/
theorem delivery?_deleteEmails (hp : db.Paired) (p : EmailRow → Bool) :
    (db.deleteEmails p).delivery? id = (db.delivery? id).filter fun r =>
      ((db.deleteEmails p).emails.get? r.2.emailId).isSome := by
  rcases h : db.delivery? id with _ | ⟨d, q⟩
  · rcases h' : (db.deleteEmails p).delivery? id with _ | ⟨d, q⟩
    · rfl
    · -- the rows of a surviving delivery were there before
      obtain ⟨hd, hq⟩ := delivery?_eq_some.1 h'
      rw [deleteEmails_deliveries, Table.get?_delete] at hd
      rw [deleteEmails_queue, Table.get?_delete] at hq
      have := delivery?_eq_some.2
        ⟨(Option.filter_eq_some_iff.1 hd).1, (Option.filter_eq_some_iff.1 hq).1⟩
      rw [this] at h; cases h
  · obtain ⟨hd, hq⟩ := delivery?_eq_some.1 h
    have he := hp.email h
    have hk := (delivery?_id h).2
    simp only [Option.filter_some]
    by_cases hs : ((db.deleteEmails p).emails.get? q.emailId).isSome
    · rw [if_pos hs]
      have hs' := Option.isNone_eq_false_iff.2 hs
      have hd' : (db.deleteEmails p).deliveries.get? id = some d := by
        rw [deleteEmails_deliveries, Table.get?_delete, hd, Option.filter_some, he, hs']; rfl
      refine delivery?_eq_some.2 ⟨hd', ?_⟩
      rw [deleteEmails_queue, Table.get?_delete, hq, Option.filter_some, hk, hd', hs']; rfl
    · rw [if_neg hs]
      rcases h' : (db.deleteEmails p).delivery? id with _ | ⟨d', q'⟩
      · rfl
      · have hq' := (delivery?_eq_some.1 h').2
        have hmem := (db.deleteEmails p).queueEmail q' (Table.mem_of_get? hq')
        rw [deleteEmails_queue, Table.get?_delete, hq] at hq'
        obtain ⟨hqq, -⟩ := Option.filter_eq_some_iff.1 hq'
        cases hqq; exact absurd hmem hs

theorem Paired.deleteEmails (h : db.Paired) (p : EmailRow → Bool) : (db.deleteEmails p).Paired := by
  constructor
  · intro id d q hj
    rw [delivery?_deleteEmails h] at hj
    exact h.email (Option.filter_eq_some_iff.1 hj).1
  · intro id d hd
    have hs := (db.deleteEmails p).deliveryEmail d (Table.mem_of_get? hd)
    simp only [Db.deleteEmails, Table.get?_delete] at hd
    obtain ⟨hd₀, -⟩ := Option.filter_eq_some_iff.1 hd
    obtain ⟨q, hq⟩ := h.queued hd₀
    have hj := delivery?_eq_some.2 ⟨hd₀, hq⟩
    have : (db.deleteEmails p).delivery? id = some (d, q) := by
      rw [delivery?_deleteEmails h, hj, Option.filter_some, ← h.email hj, if_pos hs]
    exact ⟨q, (delivery?_eq_some.1 this).2⟩

end Db

end Mailrelay
