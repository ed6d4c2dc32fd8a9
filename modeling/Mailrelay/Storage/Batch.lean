/-
  Batches and the status of an email.

  The status that `FinishDelivery` writes looks at two sets of rows: all
  queued deliveries of the email, to see whether one is unfinished, and those
  of its newest batch, for the verdict.  The lemmas below say what each
  operation does to the ids of a batch (`batchIds`) and to the rows behind
  them.

  * `aggregateStatus_eq`: the SQL verdict is `computeStatus` of the results.
-/
import Mailrelay.Storage.Queue

namespace Mailrelay

open Lib

namespace Db

variable {db db' : Db} {emailId batch : Uuid}

/-- The deliveries of a batch, in the order they were enqueued. -/
def batchIds (db : Db) (emailId batch : Uuid) : List Uuid :=
  (db.queue.rows.filter fun q => q.emailId == emailId && decide (some q.batchId = some batch)).map
    (·.deliveryId)

theorem batchRows_eq (db : Db) (emailId batch : Uuid) :
    db.batchRows emailId (some batch) = (db.batchIds emailId batch).filterMap db.deliveries.get? := by
  rw [batchIds, List.filterMap_map]; rfl

theorem mem_batchIds {id : Uuid} : id ∈ db.batchIds emailId batch ↔
    ∃ d q, db.delivery? id = some (d, q) ∧ q.emailId = emailId ∧ q.batchId = batch := by
  simp only [batchIds, List.mem_map, List.mem_filter, Bool.and_eq_true, beq_iff_eq,
    decide_eq_true_eq, Option.some.injEq]
  constructor
  · rintro ⟨q, ⟨hq, he, hb⟩, rfl⟩
    obtain ⟨d, hd⟩ := Option.isSome_iff_exists.1 (db.queueDelivery q hq)
    exact ⟨d, q, delivery?_eq_some.2 ⟨hd, Table.get?_of_mem hq⟩, he, hb⟩
  · rintro ⟨d, q, h, he, hb⟩
    exact ⟨q, ⟨Table.mem_of_get? (delivery?_eq_some.1 h).2, he, hb⟩, (delivery?_id h).2⟩

/-- The rows of a batch change only with the rows of its deliveries. -/
theorem batchRows_congr (hids : db'.batchIds emailId batch = db.batchIds emailId batch)
    (hrows : ∀ id ∈ db.batchIds emailId batch, db'.deliveries.get? id = db.deliveries.get? id) :
    db'.batchRows emailId (some batch) = db.batchRows emailId (some batch) := by
  rw [batchRows_eq, batchRows_eq, hids]
  exact List.filterMap_congr hrows

theorem batchIds_setNext (id : Uuid) (next : ℤ) :
    (db.setNext id next).batchIds emailId batch = db.batchIds emailId batch := by
  have hcol : ∀ q : QueueRow, (if q.deliveryId == id then q.setNext next else q).emailId = q.emailId ∧
      (if q.deliveryId == id then q.setNext next else q).batchId = q.batchId ∧
      (if q.deliveryId == id then q.setNext next else q).deliveryId = q.deliveryId := by
    intro q
    unfold QueueRow.setNext
    split_ifs <;> exact ⟨rfl, rfl, rfl⟩
  show ((db.queue.rows.map fun q => if q.deliveryId == id then q.setNext next else q).filter _).map _
    = _
  rw [List.filter_map, List.map_map, batchIds]
  congr 1
  · funext q; exact (hcol q).2.2
  · refine List.filter_congr fun q _ => ?_
    simp only [Function.comp, (hcol q).1, (hcol q).2.1]

end Db

section
variable {db db' : Db} {emailId batch : Uuid} {jobs : List (Uuid × QueuedDelivery)} {now : ℤ}

/-- A fresh batch consists of its jobs. -/
theorem Enqueued.batchIds_new (h : Enqueued db emailId batch jobs now db')
    (hb : ∀ q ∈ db.queue.rows, q.batchId ≠ batch) :
    db'.batchIds emailId batch = jobs.map Prod.fst := by
  have hold : (db.queue.rows.filter fun q => q.emailId == emailId &&
      decide (some q.batchId = some batch)) = [] := by
    rw [List.filter_eq_nil_iff]
    intro q hq
    simp [hb q hq]
  have hnew : ((jobs.map (queueRow emailId batch now)).filter fun q => q.emailId == emailId &&
      decide (some q.batchId = some batch)) = jobs.map (queueRow emailId batch now) := by
    rw [List.filter_eq_self]
    intro q hq
    obtain ⟨j, -, rfl⟩ := List.mem_map.1 hq
    simp [queueRow]
  rw [Db.batchIds, h.queue, List.filter_append, hold, hnew, List.nil_append, List.map_map]
  rfl

/-- Other batches stay as they are. -/
theorem Enqueued.batchIds_old (h : Enqueued db emailId batch jobs now db') {emailId' batch' : Uuid}
    (hb : batch' ≠ batch) : db'.batchIds emailId' batch' = db.batchIds emailId' batch' := by
  have hnew : ((jobs.map (queueRow emailId batch now)).filter fun q => q.emailId == emailId' &&
      decide (some q.batchId = some batch')) = [] := by
    rw [List.filter_eq_nil_iff]
    intro q hq
    obtain ⟨j, -, rfl⟩ := List.mem_map.1 hq
    simp [queueRow, Ne.symm hb]
  rw [Db.batchIds, h.queue, List.filter_append, hnew, List.append_nil]
  rfl

/-- The batches of an email that is not deleted stay as they are. -/
theorem batchIds_deleteEmails (hp : db.Paired) {p : EmailRow → Bool}
    (he : ((db.deleteEmails p).emails.get? emailId).isSome) :
    (db.deleteEmails p).batchIds emailId batch = db.batchIds emailId batch := by
  rw [Db.batchIds, Db.deleteEmails_queue, Db.batchIds]
  show ((db.queue.rows.filter _).filter _).map _ = _
  rw [List.filter_filter]
  congr 1
  refine List.filter_congr fun q hq => ?_
  by_cases hq' : q.emailId = emailId
  · -- the queue row stays, since its delivery does
    obtain ⟨d, hd⟩ := Option.isSome_iff_exists.1 (db.queueDelivery q hq)
    have hr := Db.delivery?_eq_some.2 ⟨hd, Table.get?_of_mem hq⟩
    have hr' : (db.deleteEmails p).delivery? q.deliveryId = some (d, q) := by
      rw [Db.delivery?_deleteEmails hp, hr, Option.filter_some, if_pos (by rw [hq']; exact he)]
    have hd' := (Db.delivery?_eq_some.1 hr').1
    simp only [hq', hd', Option.isNone_eq_false_iff.2 he, Option.isNone_some, Bool.or_self,
      Bool.not_false, Bool.and_true]
  · simp [hq']

/-! ## The verdict -/

/-- **The SQL verdict is `computeStatus`** of results with the same statuses. -/
theorem aggregateStatus_eq {rows : List DeliveryRow} {results : List DeliveryResult}
    (hne : rows ≠ []) (h : rows.map (·.status) = results.map (·.status)) :
    aggregateStatus rows = computeStatus results := by
  have hlen : rows.length = results.length := by
    rw [← List.length_map (·.status), h, List.length_map]
  have hcount : (rows.countP fun d => d.status = .success) =
      results.countP fun r => r.status = .success := by
    have h₁ := List.countP_map (p := fun s => decide (s = DeliveryStatus.success))
      (f := DeliveryRow.status) (l := rows)
    have h₂ := List.countP_map (p := fun s => decide (s = DeliveryStatus.success))
      (f := DeliveryResult.status) (l := results)
    rw [h, h₂] at h₁
    exact h₁.symm
  have hne' : results.length ≠ 0 := by
    rw [← hlen]; exact fun h => hne (List.length_eq_zero_iff.1 h)
  unfold aggregateStatus computeStatus
  rw [hcount, hlen, if_neg hne']
  simp only [ne_eq, hne, not_false_eq_true, true_and]

end

end Mailrelay
