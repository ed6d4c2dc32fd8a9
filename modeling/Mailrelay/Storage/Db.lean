/-
  The database: schema, statements and transactions (`internal/storage`).

  `Db` holds the tables of `migrate` that the delivery queue uses, with the
  schema's constraints as fields: primary keys (in `Table`) and foreign keys.
  A statement is a function `Db → Except DbError Db` that keeps them: inserts
  check the keys, updates leave key columns alone, and deleting an email
  cascades to its deliveries and queue rows (`foreign_keys(1)`).

  A transaction body is a `Tx`: a sequence of statements that may fail.  Its
  fuse is the number of statements (`BEGIN` and `COMMIT` included) that
  succeed before one fails for an outside reason (an I/O error, a cancelled
  context, a crash); `none` never fails.  `transaction` runs a body and rolls
  back on any error.

  * `transaction_ok`: a committed transaction ran all of its statements;
  * `transaction_error`: a failed one leaves the database as it was.
-/
import Mailrelay.Lib.Table
import Mailrelay.Models

namespace Mailrelay

open Lib

/-! ## Tables -/

/-- `emails`; a `delivery_batch` of `''` is `none`. -/
structure EmailRow extends EmailRecord where
  deliveryBatch : Option Uuid
  deriving DecidableEq, Repr

/-- `deliveries` -/
structure DeliveryRow where
  id : Uuid
  emailId : Uuid
  ruleName : String
  status : DeliveryStatus
  statusCode : ℤ
  errorMessage : String
  responseBody : String
  attempts : ℤ
  createdAt : ℤ
  updatedAt : ℤ
  deriving DecidableEq, Repr

/-- `delivery_queue` -/
structure QueueRow where
  deliveryId : Uuid
  batchId : Uuid
  emailId : Uuid
  snapshot : String
  nextAttemptAt : ℤ
  deriving DecidableEq, Repr

instance : Keyed EmailRow Uuid := ⟨fun e => e.id⟩
instance : Keyed DeliveryRow Uuid := ⟨fun d => d.id⟩
instance : Keyed QueueRow Uuid := ⟨fun q => q.deliveryId⟩

/-- A database that meets the constraints of the schema. -/
structure Db where
  emails : Table EmailRow
  deliveries : Table DeliveryRow
  queue : Table QueueRow
  deliveryEmail : ∀ d ∈ deliveries.rows, (emails.get? d.emailId).isSome
  queueDelivery : ∀ q ∈ queue.rows, (deliveries.get? q.deliveryId).isSome
  queueEmail : ∀ q ∈ queue.rows, (emails.get? q.emailId).isSome

namespace Db

/-- A database after its first `migrate`. -/
def empty : Db :=
  ⟨.empty, .empty, .empty, by simp [Table.empty], by simp [Table.empty], by simp [Table.empty]⟩

theorem ext' {db db' : Db} (he : db.emails = db'.emails) (hd : db.deliveries = db'.deliveries)
    (hq : db.queue = db'.queue) : db = db' := by
  cases db; cases db'; simp_all

instance : DecidableEq Db := fun db db' =>
  decidable_of_iff (db.emails = db'.emails ∧ db.deliveries = db'.deliveries ∧ db.queue = db'.queue)
    ⟨fun ⟨he, hd, hq⟩ => ext' he hd hq, fun h => h ▸ ⟨rfl, rfl, rfl⟩⟩

end Db

/-! ## Statements -/

inductive DbError where
  | io | unique | foreignKey
  deriving DecidableEq, Repr

namespace Db

def insertEmail (e : EmailRow) (db : Db) : Except DbError Db :=
  match h : db.emails.insert? e with
  | none => .error .unique
  | some t => .ok { db with
      emails := t
      deliveryEmail := fun d hd => by
        have := db.deliveryEmail d hd
        rw [Table.get?_insert h]; split_ifs
        · rfl
        · exact this
      queueEmail := fun q hq => by
        have := db.queueEmail q hq
        rw [Table.get?_insert h]; split_ifs
        · rfl
        · exact this }

def insertDelivery (d : DeliveryRow) (db : Db) : Except DbError Db :=
  if he : (db.emails.get? d.emailId).isSome then
    match h : db.deliveries.insert? d with
    | none => .error .unique
    | some t => .ok { db with
        deliveries := t
        deliveryEmail := fun d' hd' => by
          rw [(Table.insert?_eq_some h).1, List.mem_append, List.mem_singleton] at hd'
          rcases hd' with hd' | rfl
          · exact db.deliveryEmail d' hd'
          · exact he
        queueDelivery := fun q hq => by
          have := db.queueDelivery q hq
          rw [Table.get?_insert h]; split_ifs
          · rfl
          · exact this }
  else .error .foreignKey

def insertQueue (q : QueueRow) (db : Db) : Except DbError Db :=
  if hq : (db.deliveries.get? q.deliveryId).isSome ∧ (db.emails.get? q.emailId).isSome then
    match h : db.queue.insert? q with
    | none => .error .unique
    | some t => .ok { db with
        queue := t
        queueDelivery := fun q' hq' => by
          rw [(Table.insert?_eq_some h).1, List.mem_append, List.mem_singleton] at hq'
          rcases hq' with hq' | rfl
          · exact db.queueDelivery q' hq'
          · exact hq.1
        queueEmail := fun q' hq' => by
          rw [(Table.insert?_eq_some h).1, List.mem_append, List.mem_singleton] at hq'
          rcases hq' with hq' | rfl
          · exact db.queueEmail q' hq'
          · exact hq.2 }
  else .error .foreignKey

def updateEmails (p : EmailRow → Bool) (f : EmailRow → EmailRow) (hf : ∀ e, (f e).id = e.id)
    (db : Db) : Db :=
  { db with
    emails := db.emails.update p f hf
    deliveryEmail := fun d hd => by
      rw [Table.get?_update, Option.isSome_map]; exact db.deliveryEmail d hd
    queueEmail := fun q hq => by
      rw [Table.get?_update, Option.isSome_map]; exact db.queueEmail q hq }

def updateDeliveries (p : DeliveryRow → Bool) (f : DeliveryRow → DeliveryRow)
    (hf : ∀ d, (f d).id = d.id) (he : ∀ d, (f d).emailId = d.emailId) (db : Db) : Db :=
  { db with
    deliveries := db.deliveries.update p f hf
    deliveryEmail := fun d hd => by
      obtain ⟨d', hd', rfl⟩ := List.mem_map.1 hd
      by_cases hp : p d'
      · rw [if_pos hp, he]; exact db.deliveryEmail d' hd'
      · rw [if_neg hp]; exact db.deliveryEmail d' hd'
    queueDelivery := fun q hq => by
      rw [Table.get?_update, Option.isSome_map]; exact db.queueDelivery q hq }

def updateQueue (p : QueueRow → Bool) (f : QueueRow → QueueRow)
    (hf : ∀ q, (f q).deliveryId = q.deliveryId) (he : ∀ q, (f q).emailId = q.emailId) (db : Db) :
    Db :=
  { db with
    queue := db.queue.update p f hf
    queueDelivery := fun q hq => by
      obtain ⟨q', hq', rfl⟩ := List.mem_map.1 hq
      by_cases hp : p q'
      · rw [if_pos hp, hf]; exact db.queueDelivery q' hq'
      · rw [if_neg hp]; exact db.queueDelivery q' hq'
    queueEmail := fun q hq => by
      obtain ⟨q', hq', rfl⟩ := List.mem_map.1 hq
      by_cases hp : p q'
      · rw [if_pos hp, he]; exact db.queueEmail q' hq'
      · rw [if_neg hp]; exact db.queueEmail q' hq' }

/-- `DELETE FROM emails WHERE p`, with the cascades: a row goes when a row it
    references is gone. -/
def deleteEmails (p : EmailRow → Bool) (db : Db) : Db :=
  let emails := db.emails.delete p
  let deliveries := db.deliveries.delete fun d => (emails.get? d.emailId).isNone
  { emails := emails
    deliveries := deliveries
    queue := db.queue.delete fun q =>
      (deliveries.get? q.deliveryId).isNone || (emails.get? q.emailId).isNone
    deliveryEmail := fun d hd => by
      have := (List.mem_filter.1 hd).2
      rw [Bool.not_eq_true', Option.isNone_eq_false_iff] at this
      exact this
    queueDelivery := fun q hq => by
      have := (List.mem_filter.1 hq).2
      rw [Bool.not_eq_true', Bool.or_eq_false_iff, Option.isNone_eq_false_iff] at this
      exact this.1
    queueEmail := fun q hq => by
      have := (List.mem_filter.1 hq).2
      rw [Bool.not_eq_true', Bool.or_eq_false_iff, Option.isNone_eq_false_iff,
        Option.isNone_eq_false_iff] at this
      exact this.2 }

end Db

/-! ## Transactions -/

/-- A transaction body: the database seen inside the transaction and the fuse. -/
abbrev Tx := StateT (Db × Option ℕ) (Except DbError)

namespace Tx

/-- One statement. -/
def stmt (f : Db → Except DbError Db) : Tx Unit := fun (db, fuse) =>
  match fuse with
  | some 0 => .error .io
  | fuse => (f db).map fun db' => ((), db', fuse.map (· - 1))

/-- One query. -/
def query {α : Type} (f : Db → α) : Tx α := fun (db, fuse) =>
  match fuse with
  | some 0 => .error .io
  | fuse => .ok (f db, db, fuse.map (· - 1))

/-- `BEGIN` and `COMMIT`: statements that change nothing but may fail. -/
def begin_ : Tx Unit := stmt .ok
def commit : Tx Unit := stmt .ok

/-- Run a body; `defer tx.Rollback()` undoes it on an error. -/
def transaction {α : Type} (body : Tx α) (fuse : Option ℕ) (db : Db) : Except DbError α × Db :=
  match body (db, fuse) with
  | .ok (a, db', _) => (.ok a, db')
  | .error e => (.error e, db)

variable {α β : Type} {db db' : Db} {fuse fuse' : Option ℕ}

theorem bind_ok {x : Tx α} {f : α → Tx β} {s : Db × Option ℕ} {b : β} {s' : Db × Option ℕ} :
    (x >>= f) s = .ok (b, s') ↔ ∃ a s₁, x s = .ok (a, s₁) ∧ f a s₁ = .ok (b, s') := by
  show (x s >>= fun p => f p.1 p.2) = _ ↔ _
  rcases x s with e | ⟨a, s₁⟩
  · exact ⟨nofun, nofun⟩
  · exact ⟨fun h => ⟨a, s₁, rfl, h⟩, fun ⟨_, _, h, h'⟩ => by cases h; exact h'⟩

theorem pure_ok {a b : α} {s s' : Db × Option ℕ} :
    (pure a : Tx α) s = .ok (b, s') ↔ a = b ∧ s = s' := by
  show Except.ok (a, s) = _ ↔ _
  simp

theorem stmt_ok {f : Db → Except DbError Db} (h : stmt f (db, fuse) = .ok ((), db', fuse')) :
    f db = .ok db' := by
  rcases fuse with _ | _ | n
  · rcases hf : f db with e | d <;> simp [stmt, hf, Except.map] at h; rw [h.1]
  · cases h
  · rcases hf : f db with e | d <;> simp [stmt, hf, Except.map] at h; rw [h.1]

theorem query_ok {f : Db → α} {a : α} (h : query f (db, fuse) = .ok (a, db', fuse')) :
    a = f db ∧ db' = db := by
  rcases fuse with _ | _ | n
  · simp [query] at h; exact ⟨h.1.symm, h.2.1.symm⟩
  · cases h
  · simp [query] at h; exact ⟨h.1.symm, h.2.1.symm⟩

theorem commit_ok (h : commit (db, fuse) = .ok ((), db', fuse')) : db' = db :=
  (Except.ok.inj (stmt_ok h)).symm

theorem begin_ok (h : begin_ (db, fuse) = .ok ((), db', fuse')) : db' = db :=
  (Except.ok.inj (stmt_ok h)).symm

/-- **A committed transaction ran its whole body.** -/
theorem transaction_ok {body : Tx α} {a : α} (h : transaction body fuse db = (.ok a, db')) :
    ∃ fuse', body (db, fuse) = .ok (a, db', fuse') := by
  unfold transaction at h
  split at h
  next a' db₁ fuse₁ hb => cases h; exact ⟨fuse₁, hb⟩
  next => cases h

/-- **A failed transaction changes nothing.** -/
theorem transaction_error {body : Tx α} {e : DbError}
    (h : transaction body fuse db = (.error e, db')) : db' = db := by
  unfold transaction at h
  split at h
  next => cases h
  next => cases h; rfl

end Tx

end Mailrelay
