/-
  The columns of an email (`internal/storage/store.go`, `cmd/mailrelay/main.go`,
  `internal/webui/handler.go`).

  A row keeps the envelope, the result of authentication and the time of
  receipt in columns of their own, and the sender, recipients and subject of
  the header beside the parsed email.  Rows come from the accepting and from
  the rejecting handler; a replay may replace the parsed email by what
  `ParseEmail` makes of the raw file now.  `RecordsWorld` adds the rejecting
  handler to the operations of `FilesWorld`.

  The parsed email and the lists of recipients are stored as JSON, where bytes
  that are not UTF-8 are replaced; the other columns keep them.

  * `rows_step`: what one step does to the rows;
  * `sound_records_step`: every step keeps `SoundRecords`;
  * `records_agree`: the main result.
-/
import Mailrelay.Smtp.Conversation
import Mailrelay.System.Files

namespace Mailrelay

open Lib

/-! ## The rejecting handler -/

/-- The record of `buildRejectionHandler`, as its row is read; `parsed` is what
    `ParseEmail` makes of the message, if it can be read. -/
def rejectedRecord (utf8 : String → String) (id : Uuid) (r : Rejection)
    (parsed : Option ParsedEmail) (receivedAt : Now) : EmailRecord :=
  let email : ParsedEmail :=
    match parsed with
    | some email => { email with
        envelopeFrom := r.sender, envelopeTo := r.recipients, authResult := some r.authResult }
    | none => ⟨"", [], [], "", "", "", [], [], some r.authResult, r.sender, r.recipients⟩
  EmailRecord.readBack utf8 ⟨id, receivedAt.time, r.sender, r.recipients, email.from_, email.to_,
    email.subject, .rejected, r.reason, some email, some r.authResult⟩

structure RecordsWorld where
  files : FilesWorld
  /-- the raw files that rejecting handlers have still to write -/
  rejecting : List Uuid

inductive RecordsEvent where
  | files (e : FilesEvent)
  /-- the rejecting handler: `SaveEmail`, whose error is only logged -/
  | reject (id : Uuid) (r : Rejection) (parsed : Option ParsedEmail) (receivedAt : Now)
      (fuse : Option ℕ)
  /-- and `os.WriteFile` -/
  | keepRaw (id : Uuid)

namespace RecordsWorld

def init : RecordsWorld := ⟨.init, []⟩

def step (lib : HandlerLib) (w : RecordsWorld) : RecordsEvent → Option RecordsWorld
  | .files e => (w.files.step lib e).map fun files => { w with files := files }
  | .reject id r parsed receivedAt fuse =>
    if id ∈ w.files.issued then none
    else some {
      files := { w.files with
        issued := id :: w.files.issued
        db := (Tx.transaction
          (saveEmail (rejectedRecord lib.utf8 id r parsed receivedAt)) fuse w.files.db).2 }
      rejecting := if 0 < r.raw.length then id :: w.rejecting else w.rejecting }
  | .keepRaw id =>
    if id ∈ w.rejecting then some {
      files := { w.files with files := id :: w.files.files }
      rejecting := w.rejecting.erase id }
    else none

end RecordsWorld

/-! ## Rows -/

/-- The parsed email was received in the mail transaction of the row. -/
structure ParsedEmail.OfRow (utf8 : String → String) (email : ParsedEmail) (e : EmailRow) : Prop where
  envelopeFrom : utf8 email.envelopeFrom = utf8 e.envelopeFrom
  envelopeTo : email.envelopeTo = e.envelopeTo
  authResult : email.authResult = e.authResult

/-- The parsed email has what the columns have; of a column that is a text of its
    own, it has what JSON makes of it. -/
structure ParsedEmail.Agrees (utf8 : String → String) (email : ParsedEmail) (e : EmailRow) : Prop where
  from_ : email.from_ = utf8 e.headerFrom
  to_ : email.to_ = e.headerTo
  subject : email.subject = utf8 e.subject
  envelopeFrom : email.envelopeFrom = utf8 e.envelopeFrom
  envelopeTo : email.envelopeTo = e.envelopeTo
  authResult : email.authResult = e.authResult

def EmailRow.Agrees (utf8 : String → String) (e : EmailRow) : Prop :=
  ∃ email, e.parsedEmail = some email ∧ email.Agrees utf8 e

/-- What is known from the mail transaction is the same. -/
structure EmailRow.SameOrigin (e e' : EmailRow) : Prop where
  receivedAt : e'.receivedAt = e.receivedAt
  envelopeFrom : e'.envelopeFrom = e.envelopeFrom
  envelopeTo : e'.envelopeTo = e.envelopeTo
  authResult : e'.authResult = e.authResult
  rejectionReason : e'.rejectionReason = e.rejectionReason

theorem EmailRow.SameOrigin.refl (e : EmailRow) : e.SameOrigin e := ⟨rfl, rfl, rfl, rfl, rfl⟩

theorem EmailRow.SameOrigin.trans {a b c : EmailRow} (h : a.SameOrigin b) (h' : b.SameOrigin c) :
    a.SameOrigin c :=
  ⟨h'.receivedAt.trans h.receivedAt, h'.envelopeFrom.trans h.envelopeFrom,
    h'.envelopeTo.trans h.envelopeTo, h'.authResult.trans h.authResult,
    h'.rejectionReason.trans h.rejectionReason⟩

theorem ParsedEmail.OfRow.congr {utf8 : String → String} {email : ParsedEmail} {e e' : EmailRow}
    (h : email.OfRow utf8 e) (hs : e.SameOrigin e') : email.OfRow utf8 e' :=
  ⟨h.envelopeFrom.trans (congrArg utf8 hs.envelopeFrom.symm), h.envelopeTo.trans hs.envelopeTo.symm,
    h.authResult.trans hs.authResult.symm⟩

/-- The same row but for the status and the batch of deliveries. -/
structure EmailRow.SameRecord (e e' : EmailRow) : Prop extends e.SameOrigin e' where
  headerFrom : e'.headerFrom = e.headerFrom
  headerTo : e'.headerTo = e.headerTo
  subject : e'.subject = e.subject
  parsedEmail : e'.parsedEmail = e.parsedEmail

theorem EmailRow.SameRecord.refl (e : EmailRow) : e.SameRecord e := ⟨.refl e, rfl, rfl, rfl, rfl⟩

theorem EmailRow.SameRecord.agrees {utf8 : String → String} {e e' : EmailRow} (h : e.SameRecord e')
    (ha : e.Agrees utf8) : e'.Agrees utf8 := by
  obtain ⟨email, hp, ha⟩ := ha
  refine ⟨email, h.parsedEmail.trans hp, ?_, ?_, ?_, ?_, ?_, ?_⟩
  · rw [h.headerFrom, ha.from_]
  · rw [h.headerTo, ha.to_]
  · rw [h.subject, ha.subject]
  · rw [h.envelopeFrom, ha.envelopeFrom]
  · rw [h.envelopeTo, ha.envelopeTo]
  · rw [h.authResult, ha.authResult]

/-- No row is new, and none changes but for its status and batch. -/
def Db.KeepsRows (db db' : Db) : Prop :=
  ∀ id e', db'.emails.get? id = some e' → ∃ e, db.emails.get? id = some e ∧ e.SameRecord e'

section
variable {db db' : Db} {fuse : Option ℕ}

theorem Db.KeepsRows.refl (db : Db) : db.KeepsRows db := fun _ e' h => ⟨e', h, .refl e'⟩

theorem Db.KeepsRows.updateEmails {p : EmailRow → Bool} {f : EmailRow → EmailRow}
    {hf : ∀ e, (f e).id = e.id} (h : ∀ e : EmailRow, e.SameRecord (f e)) :
    db.KeepsRows (db.updateEmails p f hf) := by
  intro id e' he'
  rw [Db.get?_updateEmails] at he'
  obtain ⟨e, he, rfl⟩ := Option.map_eq_some_iff.1 he'
  refine ⟨e, he, ?_⟩
  split_ifs
  · exact h e
  · exact .refl e

theorem Db.KeepsRows.deleteEmails (p : EmailRow → Bool) : db.KeepsRows (db.deleteEmails p) := by
  intro id e' he'
  rw [Db.get?_deleteEmails] at he'
  exact ⟨e', (Option.filter_eq_some_iff.1 he').1, .refl e'⟩

theorem Db.KeepsRows.congr (h : db'.emails = db.emails) : db.KeepsRows db' := by
  intro id e' he'
  rw [h] at he'
  exact ⟨e', he', .refl e'⟩

/-- A call that keeps the rows, whether it fails or not. -/
theorem Db.KeepsRows.transaction {α : Type} {body : Tx α}
    (hb : ∀ a db' fuse', body (db, fuse) = .ok (a, db', fuse') → db.KeepsRows db') :
    db.KeepsRows (Tx.transaction body fuse db).2 := by
  rcases ht : Tx.transaction body fuse db with ⟨e | a, db'⟩
  · rw [Tx.transaction_error ht]
    exact .refl db
  · obtain ⟨fuse', hok⟩ := Tx.transaction_ok ht
    exact hb a db' fuse' hok

theorem keepsRows_updateEmailStatus (id : Uuid) (status : EmailStatus) :
    db.KeepsRows (Tx.transaction (updateEmailStatus id status) fuse db).2 := by
  refine .transaction fun _ db' _ hok => ?_
  obtain rfl := Except.ok.inj (Tx.stmt_ok hok)
  exact .updateEmails fun e => ⟨⟨rfl, rfl, rfl, rfl, rfl⟩, rfl, rfl, rfl, rfl⟩

theorem keepsRows_enqueue {rt : Runtime} {global : RetryConfig} {email : ParsedEmail}
    {rules : List Rule} {emailId batch : Uuid} {ids : ℕ → Uuid} {now : ℤ}
    (h : enqueue rt global email rules emailId batch ids now fuse db = (.ok (), db')) :
    db.KeepsRows db' := by
  obtain ⟨jobs, -, he⟩ := enqueue_ok h
  intro id e' he'
  rw [he.emails, Table.get?_update] at he'
  obtain ⟨e, he, rfl⟩ := Option.map_eq_some_iff.1 he'
  refine ⟨e, he, ?_⟩
  split_ifs
  · exact ⟨⟨rfl, rfl, rfl, rfl, rfl⟩, rfl, rfl, rfl, rfl⟩
  · exact .refl e

theorem keepsRows_claimDelivery (now : ℤ) :
    db.KeepsRows (Tx.transaction (claimDelivery now) fuse db).2 := by
  refine .transaction fun _ db' _ hok => ?_
  rcases claimDelivery_ok hok with ⟨-, rfl⟩ | ⟨j, -, hc⟩
  · exact .refl _
  · rw [hc.db']
    exact .congr rfl

theorem keepsRows_finishDelivery (job : QueuedDelivery) (result : DeliveryResult) (next now : ℤ) :
    db.KeepsRows (Tx.transaction (finishDelivery job result next now) fuse db).2 := by
  refine .transaction fun _ db' _ hok => ?_
  rw [finishDelivery_ok hok]
  intro id e' he'
  rw [get?_finish] at he'
  obtain ⟨e, he, rfl⟩ := Option.map_eq_some_iff.1 he'
  refine ⟨e, he, ?_⟩
  split_ifs
  · exact ⟨⟨rfl, rfl, rfl, rfl, rfl⟩, rfl, rfl, rfl, rfl⟩
  · exact .refl e

theorem keepsRows_delete {id : Uuid} (h : Tx.transaction (deleteEmail id) fuse db = (.ok (), db')) :
    db.KeepsRows db' := by
  obtain ⟨fuse', hok⟩ := Tx.transaction_ok h
  obtain rfl := Except.ok.inj (Tx.stmt_ok hok)
  exact .deleteEmails _

theorem keepsRows_cleanup {days now : ℤ} {ids : List Uuid}
    (h : Tx.transaction (cleanupExpired days now) fuse db = (.ok ids, db')) : db.KeepsRows db' := by
  obtain ⟨fuse', hok⟩ := Tx.transaction_ok h
  obtain ⟨p, -, -, rfl⟩ := cleanupExpired_ok hok
  exact .deleteEmails _

theorem keepsRows_deleteAll : db.KeepsRows (Tx.transaction deleteAllEmails fuse db).2 := by
  refine .transaction fun _ db' _ hok => ?_
  obtain rfl := Except.ok.inj (Tx.stmt_ok hok)
  exact .deleteEmails _

/-- `SaveEmail` fails, or adds the row. -/
theorem get?_saveEmail {record : EmailRecord} {id : Uuid} {e' : EmailRow}
    (h : (Tx.transaction (saveEmail record) fuse db).2.emails.get? id = some e') :
    db.emails.get? id = some e' ∨ record.id = id ∧ e' = { record with deliveryBatch := none } := by
  rcases ht : Tx.transaction (saveEmail record) fuse db with ⟨e | a, db'⟩
  · rw [ht, Tx.transaction_error ht] at h
    exact .inl h
  · obtain ⟨fuse', hok⟩ := Tx.transaction_ok ht
    obtain ⟨hr, -, -, -⟩ := insertEmail_ok (Tx.stmt_ok hok)
    rw [ht] at h
    simp only [Table.get?_append hr, Option.or_eq_some_iff, List.find?_singleton] at h
    rcases h with h | ⟨-, h⟩
    · exact .inl h
    · split_ifs at h with hid
      cases h
      exact .inr ⟨of_decide_eq_true hid, rfl⟩

/-- `UpdateParsedEmail` fails, or replaces the parsed email of the row. -/
theorem get?_updateParsedEmail {utf8 : String → String} {id id' : Uuid} {email : ParsedEmail}
    {e' : EmailRow}
    (h : (Tx.transaction (updateParsedEmail utf8 id email) fuse db).2.emails.get? id' = some e') :
    ∃ e, db.emails.get? id' = some e ∧ (e' = e ∨ id' = id ∧ e' = { e with
      headerFrom := email.from_, headerTo := email.to_.map utf8, subject := email.subject
      parsedEmail := some (email.readBack utf8) }) := by
  rcases ht : Tx.transaction (updateParsedEmail utf8 id email) fuse db with ⟨err | a, db'⟩
  · rw [ht, Tx.transaction_error ht] at h
    exact ⟨e', h, .inl rfl⟩
  · obtain ⟨fuse', hok⟩ := Tx.transaction_ok ht
    obtain rfl := Except.ok.inj (Tx.stmt_ok hok)
    rw [ht, Db.get?_updateEmails] at h
    obtain ⟨e, he, rfl⟩ := Option.map_eq_some_iff.1 h
    refine ⟨e, he, ?_⟩
    split_ifs with hid
    · have hk : e.id = id' := Table.get?_key he
      exact .inr ⟨hk ▸ beq_iff_eq.1 hid, rfl⟩
    · exact .inl rfl

end

/-! ## What one step does to the rows -/

/-- The email that a replay carries to `UpdateParsedEmail`. -/
def FileOp.carried? : FileOp → Option (Uuid × ParsedEmail)
  | .rereading id email | .reparsed id email => some (id, email)
  | _ => none

inductive RowsTrans (utf8 : String → String) (w w' : FilesWorld) : Prop
  /-- no operation carries an email that was not carried before -/
  | keep : w.db.KeepsRows w'.db → w.issued ⊆ w'.issued →
      (∀ m p, (w'.ops m).carried? = some p → (w.ops m).carried? = some p) → RowsTrans utf8 w w'
  | save (id : Uuid) (email : ParsedEmail) (receivedAt : Now) : id ∉ w.issued →
      w'.issued = id :: w.issued →
      (∀ id' e', w'.db.emails.get? id' = some e' → w.db.emails.get? id' = some e' ∨
        id' = id ∧ e' = { receivedRecord utf8 id email receivedAt with deliveryBatch := none }) →
      (∀ m p, (w'.ops m).carried? = some p → (w.ops m).carried? = some p) → RowsTrans utf8 w w'
  /-- a replay reads a row -/
  | replay (n : ℕ) (id : Uuid) (e : EmailRow) (email : ParsedEmail) : w'.db = w.db →
      w'.issued = id :: w.issued → w.db.emails.get? id = some e → e.parsedEmail = some email →
      (∀ m p, (w'.ops m).carried? = some p → (w.ops m).carried? = some p ∨ p = (id, email)) →
      RowsTrans utf8 w w'
  /-- it reads the raw file -/
  | reread (n : ℕ) (id : Uuid) (email parsed : ParsedEmail) : w'.db = w.db → w'.issued = w.issued →
      (w.ops n).carried? = some (id, email) →
      (∀ m p, (w'.ops m).carried? = some p → (w.ops m).carried? = some p ∨
        p = (id, { parsed with
          envelopeFrom := email.envelopeFrom, envelopeTo := email.envelopeTo
          authResult := email.authResult })) → RowsTrans utf8 w w'
  | reparse (n : ℕ) (id : Uuid) (email : ParsedEmail) (fuse : Option ℕ) :
      (w.ops n).carried? = some (id, email) → w'.issued = w.issued →
      w'.db = (Tx.transaction (updateParsedEmail utf8 id email) fuse w.db).2 →
      (∀ m p, (w'.ops m).carried? = some p → (w.ops m).carried? = some p) → RowsTrans utf8 w w'

section
variable {lib : HandlerLib} {w w' : FilesWorld}

/-- An operation goes on that carries nothing. -/
theorem carried_setOp {n : ℕ} {op : FileOp} (hop : op.carried? = none) {v : FilesWorld}
    (hv : v.ops = w.ops) (m : ℕ) (p : Uuid × ParsedEmail)
    (h : ((v.setOp n op).ops m).carried? = some p) : (w.ops m).carried? = some p := by
  rw [FilesWorld.setOp_ops] at h
  split_ifs at h with hm
  · rw [hop] at h
    cases h
  · rwa [hv] at h

theorem carried_accept (v : FilesWorld) (id : Uuid) (handler : Bool) :
    (v.accept id handler).ops = v.ops ∧ (v.accept id handler).db = v.db ∧
      (v.accept id handler).issued = v.issued := by
  cases handler <;> exact ⟨rfl, rfl, rfl⟩

/-- An operation ends. -/
theorem rows_finish {n : ℕ} {id : Uuid} {handler : Bool} {db : Db} (hdb : w.db.KeepsRows db) :
    RowsTrans lib.utf8 w (({ w with db := db }.accept id handler).setOp n .idle) := by
  obtain ⟨hops, hadb, hissued⟩ := carried_accept { w with db := db } id handler
  refine .keep ?_ ?_ (carried_setOp rfl hops)
  · rw [FilesWorld.setOp_db, hadb]
    exact hdb
  · show w.issued ⊆ ({ w with db := db }.accept id handler).issued
    rw [hissued]
    exact List.Subset.refl _

/-- **What one step does to the rows.** -/
theorem rows_step {e : FilesEvent} (h : w.step lib e = some w') : RowsTrans lib.utf8 w w' := by
  have same : ∀ m p, (w.ops m).carried? = some p → (w.ops m).carried? = some p := fun _ _ h => h
  unfold FilesWorld.step at h
  split at h
  next n id email raw receivedAt fuse =>
    split at h
    next => cases h
    next hi =>
      simp only [not_or, not_not] at hi
      dsimp only at h
      split at h
      next ht =>
        cases h
        exact .keep (.refl _) (List.subset_cons_self _ _) same
      next db ht =>
        cases h
        refine .save id email receivedAt hi.2 rfl (fun id' e' he' => ?_)
          (carried_setOp (by split_ifs <;> rfl) rfl)
        have hrow : (Tx.transaction (saveEmail (receivedRecord lib.utf8 id email receivedAt)) fuse
            w.db).2.emails.get? id' = some e' := by
          rw [ht]
          exact he'
        have hsave := get?_saveEmail hrow
        exact hsave.imp_right fun ⟨hid, heq⟩ => ⟨hid.symm, heq⟩
  next n =>
    split at h
    next id email hw =>
      cases h
      exact .keep (.refl _) (List.Subset.refl _) (carried_setOp rfl rfl)
    next => cases h
  next n rules fuse =>
    split at h
    next id email handler hw =>
      split_ifs at h with hm
      cases h
      exact rows_finish (keepsRows_updateEmailStatus id .dropped)
    next => cases h
  next n rules global batch ids now fuse =>
    split at h
    next id email handler hw =>
      dsimp only at h
      split_ifs at h with hm
      split at h
      next =>
        cases h
        exact .keep (.refl _) (List.Subset.refl _) (carried_setOp rfl rfl)
      next db ht =>
        cases h
        exact rows_finish (keepsRows_enqueue ht)
    next => cases h
  next n id fuse =>
    split_ifs at h with hi
    dsimp only at h
    split at h
    next e hget =>
      have hrow : w.db.emails.get? id = some e := by
        rcases ht : Tx.transaction (getEmail id) fuse w.db with ⟨r, db'⟩
        rw [ht] at hget
        obtain rfl : r = .ok (some e) := hget
        obtain ⟨fuse', hok⟩ := Tx.transaction_ok ht
        exact (Tx.query_ok hok).1.symm
      split at h
      next email hp =>
        cases h
        refine .replay n id e email rfl rfl hrow hp fun m p hm => ?_
        rw [FilesWorld.setOp_ops] at hm
        split_ifs at hm with hmn
        · exact .inr (Option.some.inj hm).symm
        · exact .inl hm
      next =>
        cases h
        exact .keep (.refl _) (List.subset_cons_self _ _) same
    next =>
      cases h
      exact .keep (.refl _) (List.subset_cons_self _ _) same
  next n parsed =>
    split at h
    next id email hw =>
      split at h
      next parsed =>
        split_ifs at h
        · cases h
          refine .reread n id email parsed rfl rfl (by rw [hw]; rfl) fun m p hm => ?_
          rw [FilesWorld.setOp_ops] at hm
          split_ifs at hm with hmn
          · exact .inr (Option.some.inj hm).symm
          · exact .inl hm
        · cases h
          exact .keep (.refl _) (List.Subset.refl _) (carried_setOp rfl rfl)
      next =>
        cases h
        exact .keep (.refl _) (List.Subset.refl _) (carried_setOp rfl rfl)
    next => cases h
  next n fuse =>
    split at h
    next id email hw =>
      cases h
      exact .reparse n id email fuse (by rw [hw]; rfl) rfl rfl (carried_setOp rfl rfl)
    next => cases h
  next n id fuse =>
    split_ifs at h with hi
    dsimp only at h
    split at h
    next =>
      cases h
      exact .keep (.refl _) (List.subset_cons_self _ _) same
    next db ht =>
      cases h
      exact .keep (keepsRows_delete ht) (List.subset_cons_self _ _) (carried_setOp rfl rfl)
  next n days now fuse =>
    split_ifs at h with hi hd
    · cases h
      exact .keep (.refl _) (List.Subset.refl _) same
    · split at h
      next =>
        cases h
        exact .keep (.refl _) (List.Subset.refl _) same
      next ids db ht =>
        cases h
        exact .keep (keepsRows_cleanup ht) (List.Subset.refl _) (carried_setOp rfl rfl)
  next n =>
    split at h
    next id ids hw =>
      cases h
      exact .keep (.refl _) (List.Subset.refl _) (carried_setOp rfl rfl)
    next id ids hw =>
      cases h
      exact .keep (.refl _) (List.Subset.refl _) (carried_setOp rfl rfl)
    next => cases h
  next n =>
    split at h
    next hw =>
      cases h
      exact .keep (.refl _) (List.Subset.refl _) (carried_setOp rfl rfl)
    next => cases h
  next n fuse =>
    split_ifs at h with hi
    split at h
    next =>
      cases h
      exact .keep (.refl _) (List.Subset.refl _) (carried_setOp rfl rfl)
    next =>
      cases h
      exact .keep (.refl _) (List.Subset.refl _) (carried_setOp rfl rfl)
  next n fuse =>
    split at h
    next hw =>
      cases h
      exact .keep keepsRows_deleteAll (List.Subset.refl _) (carried_setOp rfl rfl)
    next => cases h
  next now fuse =>
    cases h
    exact .keep (keepsRows_claimDelivery now.time) (List.Subset.refl _) same
  next job result next now fuse =>
    cases h
    exact .keep (keepsRows_finishDelivery job result next now.time) (List.Subset.refl _) same

/-! ## What every step keeps -/

section
variable {utf8 : String → String}

/-- Rows agree with their parsed emails, their recipients are texts that JSON
    keeps, and replays carry emails of the mail transaction of their row. -/
structure SoundRecords (utf8 : String → String) (w : FilesWorld) : Prop where
  rows : ∀ id e, w.db.emails.get? id = some e →
    e.Agrees utf8 ∧ e.envelopeTo.map utf8 = e.envelopeTo ∧ id ∈ w.issued
  carried : ∀ n id email, (w.ops n).carried? = some (id, email) → id ∈ w.issued ∧
    ∀ e, w.db.emails.get? id = some e → email.OfRow utf8 e

/-- The rows of ids drawn before are rows from before, with the same origin. -/
structure KeepsOrigin (w w' : FilesWorld) : Prop where
  issued : w.issued ⊆ w'.issued
  rows : ∀ id e', w'.db.emails.get? id = some e' → id ∈ w.issued →
    ∃ e, w.db.emails.get? id = some e ∧ e.SameOrigin e'

theorem KeepsOrigin.refl (w : FilesWorld) : KeepsOrigin w w :=
  ⟨List.Subset.refl _, fun _ e' h _ => ⟨e', h, .refl e'⟩⟩

theorem KeepsOrigin.trans {a b c : FilesWorld} (h : KeepsOrigin a b) (h' : KeepsOrigin b c) :
    KeepsOrigin a c := by
  refine ⟨fun _ hid => h'.issued (h.issued hid), fun id e'' he'' hid => ?_⟩
  obtain ⟨e', he', hs'⟩ := h'.rows id e'' he'' (h.issued hid)
  obtain ⟨e, he, hs⟩ := h.rows id e' he' hid
  exact ⟨e, he, hs.trans hs'⟩

/-- A step after which the rows of ids drawn before have the same origin keeps
    what replays carry. -/
theorem SoundRecords.carried_of (h : SoundRecords utf8 w) (ho : KeepsOrigin w w') {n : ℕ} {id : Uuid}
    {email : ParsedEmail} (hc : (w.ops n).carried? = some (id, email)) :
    id ∈ w'.issued ∧ ∀ e, w'.db.emails.get? id = some e → email.OfRow utf8 e := by
  obtain ⟨hid, hrow⟩ := h.carried n id email hc
  refine ⟨ho.issued hid, fun e' he' => ?_⟩
  obtain ⟨e, he, hs⟩ := ho.rows id e' he' hid
  exact (hrow e he).congr hs

/-- A new row, of an id that was not drawn before. -/
theorem SoundRecords.add (h : SoundRecords utf8 w) {id : Uuid} {new : EmailRow} (hfresh : id ∉ w.issued)
    (hissued : w'.issued = id :: w.issued) (hnew : new.Agrees utf8)
    (hvalid : new.envelopeTo.map utf8 = new.envelopeTo)
    (hdb : ∀ id' e', w'.db.emails.get? id' = some e' →
      w.db.emails.get? id' = some e' ∨ id' = id ∧ e' = new)
    (hops : ∀ m p, (w'.ops m).carried? = some p → (w.ops m).carried? = some p) :
    SoundRecords utf8 w' ∧ KeepsOrigin w w' := by
  have ho : KeepsOrigin w w' := by
    refine ⟨by rw [hissued]; exact List.subset_cons_self _ _, fun id' e' he' hid => ?_⟩
    rcases hdb id' e' he' with he | ⟨rfl, -⟩
    · exact ⟨e', he, .refl e'⟩
    · exact absurd hid hfresh
  refine ⟨⟨fun id' e' he' => ?_, fun n id' email hc => h.carried_of ho (hops n _ hc)⟩, ho⟩
  rw [hissued]
  rcases hdb id' e' he' with he | ⟨rfl, rfl⟩
  · obtain ⟨hagrees, hrecipients, hid⟩ := h.rows id' e' he
    exact ⟨hagrees, hrecipients, List.mem_cons_of_mem _ hid⟩
  · exact ⟨hnew, hvalid, List.mem_cons_self⟩

theorem agrees_received (id : Uuid) (email : ParsedEmail) (receivedAt : Now) :
    EmailRow.Agrees utf8 { receivedRecord utf8 id email receivedAt with deliveryBatch := none } :=
  ⟨email.readBack utf8, rfl, rfl, rfl, rfl, rfl, rfl, rfl⟩

theorem agrees_rejected (id : Uuid) (r : Rejection) (parsed : Option ParsedEmail) (receivedAt : Now) :
    EmailRow.Agrees utf8 { rejectedRecord utf8 id r parsed receivedAt with deliveryBatch := none } := by
  cases parsed <;> exact ⟨_, rfl, rfl, rfl, rfl, rfl, rfl, rfl⟩

section
variable (hutf8 : ∀ s, utf8 (utf8 s) = utf8 s)
include hutf8

theorem map_utf8 (l : List String) : (l.map utf8).map utf8 = l.map utf8 := by
  rw [List.map_map]
  exact List.map_congr_left fun s _ => hutf8 s

theorem sound_rows (h : SoundRecords utf8 w) (ht : RowsTrans utf8 w w') :
    SoundRecords utf8 w' ∧ KeepsOrigin w w' := by
  cases ht with
  | keep hdb hissued hops =>
    have ho : KeepsOrigin w w' := by
      refine ⟨hissued, fun id e' he' _ => ?_⟩
      obtain ⟨e, he, hs⟩ := hdb id e' he'
      exact ⟨e, he, hs.toSameOrigin⟩
    refine ⟨⟨fun id e' he' => ?_, fun n id email hc => h.carried_of ho (hops n _ hc)⟩, ho⟩
    obtain ⟨e, he, hs⟩ := hdb id e' he'
    obtain ⟨hagrees, hrecipients, hid⟩ := h.rows id e he
    exact ⟨hs.agrees hagrees, by rw [hs.envelopeTo]; exact hrecipients, hissued hid⟩
  | save id email receivedAt hfresh hissued hdb hops =>
    exact h.add hfresh hissued (agrees_received id email receivedAt) (map_utf8 hutf8 _) hdb hops
  | replay n id e email hdb hissued hrow hp hops =>
    have ho : KeepsOrigin w w' := by
      refine ⟨by rw [hissued]; exact List.subset_cons_self _ _, fun id' e' he' _ => ?_⟩
      rw [hdb] at he'
      exact ⟨e', he', .refl e'⟩
    refine ⟨⟨fun id' e' he' => ?_, fun m id' email' hc => ?_⟩, ho⟩
    · rw [hdb] at he'
      obtain ⟨hagrees, hrecipients, hid⟩ := h.rows id' e' he'
      exact ⟨hagrees, hrecipients, ho.issued hid⟩
    · rcases hops m _ hc with hc | heq
      · exact h.carried_of ho hc
      · cases heq
        obtain ⟨⟨email'', hp', hagrees⟩, -, hid⟩ := h.rows id e hrow
        refine ⟨ho.issued hid, fun e' he' => ?_⟩
        rw [hdb, hrow] at he'
        cases he'
        cases hp.symm.trans hp'
        refine ⟨?_, hagrees.envelopeTo, hagrees.authResult⟩
        rw [hagrees.envelopeFrom, hutf8]
  | reread n id email parsed hdb hissued hcarried hops =>
    have ho : KeepsOrigin w w' := by
      refine ⟨by rw [hissued]; exact List.Subset.refl _, fun id' e' he' _ => ?_⟩
      rw [hdb] at he'
      exact ⟨e', he', .refl e'⟩
    refine ⟨⟨fun id' e' he' => ?_, fun m id' email' hc => ?_⟩, ho⟩
    · rw [hdb] at he'
      rw [hissued]
      exact h.rows id' e' he'
    · rcases hops m _ hc with hc | heq
      · exact h.carried_of ho hc
      · cases heq
        obtain ⟨hid, hrow⟩ := h.carried_of ho hcarried
        exact ⟨hid, fun e he => ⟨(hrow e he).envelopeFrom, (hrow e he).envelopeTo, (hrow e he).authResult⟩⟩
  | reparse n id email fuse hcarried hissued hdb hops =>
    have ho : KeepsOrigin w w' := by
      refine ⟨by rw [hissued]; exact List.Subset.refl _, fun id' e' he' _ => ?_⟩
      rw [hdb] at he'
      obtain ⟨e, he, rfl | ⟨-, rfl⟩⟩ := get?_updateParsedEmail he'
      · exact ⟨_, he, .refl _⟩
      · exact ⟨e, he, rfl, rfl, rfl, rfl, rfl⟩
    refine ⟨⟨fun id' e' he' => ?_, fun m id' email' hc => h.carried_of ho (hops m _ hc)⟩, ho⟩
    rw [hissued]
    rw [hdb] at he'
    obtain ⟨e, he, rfl | ⟨rfl, rfl⟩⟩ := get?_updateParsedEmail he'
    · exact h.rows id' _ he
    · have hof := (h.carried n id' email hcarried).2 e he
      obtain ⟨-, hrecipients, hid⟩ := h.rows id' e he
      refine ⟨⟨email.readBack utf8, rfl, rfl, rfl, rfl, hof.envelopeFrom, ?_, hof.authResult⟩,
        hrecipients, hid⟩
      show email.envelopeTo.map utf8 = e.envelopeTo
      rw [hof.envelopeTo, hrecipients]

end

end

end

/-- **Every step keeps `SoundRecords`**, and the origin of every row. -/
theorem sound_records_step {lib : HandlerLib} (hutf8 : ∀ s, lib.utf8 (lib.utf8 s) = lib.utf8 s)
    {w w' : RecordsWorld} {e : RecordsEvent} (h : SoundRecords lib.utf8 w.files)
    (hs : w.step lib e = some w') :
    SoundRecords lib.utf8 w'.files ∧ KeepsOrigin w.files w'.files := by
  cases e with
  | files e =>
    obtain ⟨files, hf, rfl⟩ := Option.map_eq_some_iff.1 hs
    exact sound_rows hutf8 h (rows_step hf)
  | reject id r parsed receivedAt fuse =>
    simp only [RecordsWorld.step] at hs
    split_ifs at hs with hfresh <;> cases hs
    all_goals
      refine h.add hfresh rfl (agrees_rejected id r parsed receivedAt) (map_utf8 hutf8 _)
        (fun id' e' he' => ?_)
        fun _ _ hc => hc
      exact (get?_saveEmail he').imp_right fun ⟨hid, heq⟩ => ⟨hid.symm, heq⟩
  | keepRaw id =>
    simp only [RecordsWorld.step] at hs
    split_ifs at hs
    cases hs
    exact ⟨⟨h.rows, h.carried⟩, List.Subset.refl _, fun _ e' he' _ => ⟨e', he', .refl e'⟩⟩

theorem sound_records_init (utf8 : String → String) : SoundRecords utf8 RecordsWorld.init.files := by
  constructor
  · intro id e he
    have hnone : RecordsWorld.init.files.db.emails.get? id = none := rfl
    rw [hnone] at he
    cases he
  · intro n id email hc
    have hnone : (RecordsWorld.init.files.ops n).carried? = none := rfl
    rw [hnone] at hc
    cases hc

/-- **Rows agree with their parsed emails, and keep their origin.**  In every
    state, a row has a parsed email, which has the recipients, the envelope and
    the result of authentication of the row, and its sender, subject and
    envelope sender but for bytes that are not UTF-8; and a row of an id that
    was drawn in an earlier state was a row then, with the same time, envelope,
    result and reason of rejection. -/
theorem records_agree {lib : HandlerLib} (hutf8 : ∀ s, lib.utf8 (lib.utf8 s) = lib.utf8 s)
    {w w' : RecordsWorld}
    (h : Reach (RecordsWorld.step lib) .init w) (h' : Reach (RecordsWorld.step lib) w w') :
    (∀ id e, w'.files.db.emails.get? id = some e → e.Agrees lib.utf8) ∧
      ∀ id e', w'.files.db.emails.get? id = some e' → id ∈ w.files.issued →
        ∃ e, w.files.db.emails.get? id = some e ∧ e.SameOrigin e' := by
  have hw : SoundRecords lib.utf8 w.files :=
    h.inv (I := fun w => SoundRecords lib.utf8 w.files)
      (fun _ _ _ hi hs => (sound_records_step hutf8 hi hs).1)
      (sound_records_init lib.utf8)
  have hw' : SoundRecords lib.utf8 w'.files :=
    h'.inv (I := fun w => SoundRecords lib.utf8 w.files)
      (fun _ _ _ hi hs => (sound_records_step hutf8 hi hs).1) hw
  obtain ⟨es, hrun⟩ := h'
  have horigin : KeepsOrigin w.files w'.files :=
    hrun.rel (I := fun w => SoundRecords lib.utf8 w.files) (R := fun w w' => KeepsOrigin w.files w'.files)
      (fun w => .refl w.files)
      (fun {a b c} (hab : KeepsOrigin a.files b.files) (hbc : KeepsOrigin b.files c.files) => hab.trans hbc)
      (fun _ _ _ hi _ hs => (sound_records_step hutf8 hi hs).1)
      (fun _ _ _ hi _ hs => (sound_records_step hutf8 hi hs).2) hw
  exact ⟨fun id e he => (hw'.rows id e he).1, horigin.rows⟩

def sampleRejection : Rejection :=
  ⟨"spam@example.com", ["me@example.org"], ⟨true, .fail, .none, .none, .none⟩, ["From: spam@example.com"],
    "SPF check failed for spam@example.com"⟩

/-- Texts as lists of bytes, one of which is not UTF-8. -/
def latinLib : HandlerLib :=
  { plainLib with utf8 := fun s => if s = "Caf\xe9" then "Caf\xef\xbf\xbd" else s }

/-- The raw file of a rejected message is read again. -/
def sampleReplay : List RecordsEvent :=
  [.files (.replay 0 1 none), .files (.reread 0 (some { plainEmail with subject := "Caf\xe9" })),
    .files (.reparse 0 none)]

theorem records_agree_sample : ∃ w : RecordsWorld, ∃ e : EmailRow, w.files.db.emails.get? 1 = some e ∧
    e.subject = "Caf\xe9" ∧ e.parsedEmail.map ParsedEmail.subject = some "Caf\xef\xbf\xbd" ∧
    e.Agrees latinLib.utf8 ∧ ∃ e₀ : EmailRow, e₀.SameOrigin e := by
  have h : ((exec (RecordsWorld.step latinLib) .init
      [.reject 1 sampleRejection none (clock 100) none, .keepRaw 1]).bind fun w =>
        (exec (RecordsWorld.step latinLib) w sampleReplay).bind fun w' =>
          (w'.files.db.emails.get? 1).map fun e =>
            (e.subject, e.parsedEmail.map ParsedEmail.subject, decide (1 ∈ w.files.issued))) =
      some ("Caf\xe9", some "Caf\xef\xbf\xbd", true) := by decide +kernel
  have hutf8 (s : String) : latinLib.utf8 (latinLib.utf8 s) = latinLib.utf8 s := by
    show (if (if s = "Caf\xe9" then "Caf\xef\xbf\xbd" else s) = "Caf\xe9" then _ else _) = _
    split_ifs with hs hcaf
    · exact absurd hcaf (by decide)
    · rfl
    · rfl
  obtain ⟨w, hw, h⟩ := Option.bind_eq_some_iff.1 h
  obtain ⟨w', hw', h⟩ := Option.bind_eq_some_iff.1 h
  obtain ⟨e, he, heq⟩ := Option.map_eq_some_iff.1 h
  rw [Prod.mk.injEq, Prod.mk.injEq, decide_eq_true_iff] at heq
  obtain ⟨hsubject, hparsed, hissued⟩ := heq
  obtain ⟨hagrees, horigin⟩ := records_agree hutf8 (Reach.of_exec hw) (Reach.of_exec hw')
  obtain ⟨e₀, -, hs⟩ := horigin 1 e he hissued
  exact ⟨w', e, he, hsubject, hparsed, hagrees 1 e he, e₀, hs⟩

end Mailrelay
