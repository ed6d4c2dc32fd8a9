/-
  Raw message files beside email rows (`cmd/mailrelay/main.go`,
  `internal/webui/handler.go`).

  The accepting handler saves the row and then writes `<id>.eml`;
  `handleDelete` and `cleanupOnce` delete rows and then remove their files;
  `handleDeleteAll` removes the files of the ids it listed and then deletes
  every row.  Each of them is a `FileOp` that makes one store call or one file
  operation at a time, and `FilesWorld.step` takes one action of one of them, so
  a run is any interleaving.  Store calls may fail and then change nothing; file
  operations do not fail.

  Identifiers are fresh: `issued` holds those drawn so far and those that a
  request has named (a request cannot name an id before it is drawn).
  `written` and `accepted` are ghost variables: the emails whose file was
  written, and those whose handler returned nil.

  * `FilesWorld.step_trans`: what one step can do;
  * `inStep_step_iff`: a step keeps rows and files in step exactly when it is
    `Allowed`;
  * `files_match_rows`: the main result.
-/
import Mailrelay.Lib.Run
import Mailrelay.Rules.Engine
import Mailrelay.System.Trans

namespace Mailrelay

open Lib

/-! ## Operations in flight -/

/-- The point that an operation has reached. -/
inductive FileOp where
  | idle
  /-- the handler, before `os.WriteFile` -/
  | writing (id : Uuid) (email : ParsedEmail)
  /-- the handler or a replay, before `Engine.Match` and the store call that
      follows from it -/
  | matching (id : Uuid) (email : ParsedEmail) (handler : Bool)
  /-- a replay, before `os.ReadFile` -/
  | rereading (id : Uuid) (email : ParsedEmail)
  /-- a replay, before `UpdateParsedEmail` -/
  | reparsed (id : Uuid) (email : ParsedEmail)
  /-- `handleDelete` and `cleanupOnce`, with files left to remove -/
  | removing (ids : List Uuid)
  /-- `handleDeleteAll`, with listed files left to remove -/
  | clearing (ids : List Uuid)
  deriving DecidableEq, Repr

namespace FileOp

/-- The operation is going to remove the file of `id`. -/
def removes : FileOp → Uuid → Bool
  | removing ids, id | clearing ids, id => decide (id ∈ ids)
  | _, _ => false

/-- The operation is a delete-all. -/
def clears : FileOp → Bool
  | clearing _ => true
  | _ => false

/-- The operation is the handler call of `id`, which has still to return. -/
def handles : FileOp → Uuid → Bool
  | matching id' _ true, id => decide (id' = id)
  | _, _ => false

end FileOp

structure FilesWorld where
  db : Db
  /-- the `.eml` files in the directory -/
  files : List Uuid
  issued : List Uuid
  ops : ℕ → FileOp
  written : List Uuid
  accepted : List Uuid

/-- The email row of `id` exists. -/
def Db.hasEmail (db : Db) (id : Uuid) : Bool := (db.emails.get? id).isSome

namespace FilesWorld

def init : FilesWorld := ⟨.empty, [], [], fun _ => .idle, [], []⟩

def setOp (w : FilesWorld) (n : ℕ) (op : FileOp) : FilesWorld :=
  { w with ops := Function.update w.ops n op }

def remove (w : FilesWorld) (id : Uuid) : FilesWorld :=
  { w with files := w.files.filter fun id' => id' ≠ id }

/-- The handler of `id` returns nil, a replay just ends. -/
def accept (w : FilesWorld) (id : Uuid) (handler : Bool) : FilesWorld :=
  if handler then { w with accepted := id :: w.accepted } else w

end FilesWorld

/-! ## Steps -/

/-- `UpdateParsedEmail`; `utf8` is what `encoding/json` makes of a text. -/
def updateParsedEmail (utf8 : String → String) (id : Uuid) (email : ParsedEmail) : Tx Unit :=
  .stmt fun db => .ok (db.updateEmails (fun e => e.id == id)
    (fun e => { e with
      headerFrom := email.from_, headerTo := email.to_.map utf8, subject := email.subject
      parsedEmail := some (email.readBack utf8) }) fun _ => rfl)

def getEmail (id : Uuid) : Tx (Option EmailRow) := .query fun db => db.emails.get? id

def allEmailIDs : Tx (List Uuid) := .query fun db => db.emails.rows.map fun e => e.id

inductive FilesEvent where
  /-- the handler's `SaveEmail` -/
  | receive (n : ℕ) (id : Uuid) (email : ParsedEmail) (raw : List UInt8) (receivedAt : Now)
      (fuse : Option ℕ)
  | write (n : ℕ)
  /-- no rule matched -/
  | drop (n : ℕ) (rules : List Rule) (fuse : Option ℕ)
  | enqueue (n : ℕ) (rules : List Rule) (global : RetryConfig) (batch : Uuid) (ids : ℕ → Uuid)
      (now : Now) (fuse : Option ℕ)
  /-- `handleReplay`: `GetEmail` -/
  | replay (n : ℕ) (id : Uuid) (fuse : Option ℕ)
  /-- `os.ReadFile`, and what `ParseEmail` makes of the file -/
  | reread (n : ℕ) (parsed : Option ParsedEmail)
  | reparse (n : ℕ) (fuse : Option ℕ)
  /-- `handleDelete`: `DeleteEmail` -/
  | delete (n : ℕ) (id : Uuid) (fuse : Option ℕ)
  /-- `cleanupOnce`: `CleanupExpired` -/
  | cleanup (n : ℕ) (days : ℤ) (now : Now) (fuse : Option ℕ)
  /-- `os.Remove` of the next file -/
  | remove (n : ℕ)
  | ret (n : ℕ)
  /-- `handleDeleteAll`: `AllEmailIDs` -/
  | list (n : ℕ) (fuse : Option ℕ)
  /-- `DeleteAllEmails` -/
  | deleteAll (n : ℕ) (fuse : Option ℕ)
  /-- the delivery queue -/
  | claim (now : Now) (fuse : Option ℕ)
  | finish (job : QueuedDelivery) (result : DeliveryResult) (next : ℤ) (now : Now) (fuse : Option ℕ)

/-- Go's libraries, as the handlers use them. -/
structure HandlerLib where
  rt : Runtime
  patterns : Patterns
  /-- what `encoding/json` makes of a text: bytes that are not UTF-8 are replaced -/
  utf8 : String → String

/-- The record that the handler saves, as its row is read. -/
def receivedRecord (utf8 : String → String) (id : Uuid) (email : ParsedEmail)
    (receivedAt : Now) : EmailRecord :=
  EmailRecord.readBack utf8 ⟨id, receivedAt.time, email.envelopeFrom, email.envelopeTo,
    email.from_, email.to_, email.subject, .received, "", some email, email.authResult⟩

namespace FilesWorld

def step (lib : HandlerLib) (w : FilesWorld) : FilesEvent → Option FilesWorld
  | .receive n id email raw receivedAt fuse =>
    if w.ops n ≠ .idle ∨ id ∈ w.issued then none
    else
      let w := { w with issued := id :: w.issued }
      match Tx.transaction (saveEmail (receivedRecord lib.utf8 id email receivedAt)) fuse w.db with
      | (.error _, _) => some w
      | (.ok (), db) =>
        let op := if 0 < raw.length then .writing id email else .matching id email true
        some ({ w with db := db }.setOp n op)
  | .write n =>
    match w.ops n with
    | .writing id email =>
      some ({ w with files := id :: w.files, written := id :: w.written }.setOp n
        (.matching id email true))
    | _ => none
  | .drop n rules fuse =>
    match w.ops n with
    | .matching id email handler =>
      if engineMatch lib.patterns rules email = [] then
        let db := (Tx.transaction (updateEmailStatus id .dropped) fuse w.db).2
        some (({ w with db := db }.accept id handler).setOp n .idle)
      else none
    | _ => none
  | .enqueue n rules global batch ids now fuse =>
    match w.ops n with
    | .matching id email handler =>
      let matched := engineMatch lib.patterns rules email
      if matched = [] then none
      else
        match Mailrelay.enqueue lib.rt global email matched id batch ids now.time fuse w.db with
        | (.error _, _) => some (w.setOp n .idle)
        | (.ok (), db) => some (({ w with db := db }.accept id handler).setOp n .idle)
    | _ => none
  | .replay n id fuse =>
    if w.ops n ≠ .idle then none
    else
      let w := { w with issued := id :: w.issued }
      match (Tx.transaction (getEmail id) fuse w.db).1 with
      | .ok (some e) =>
        match e.parsedEmail with
        | some email => some (w.setOp n (.rereading id email))
        | none => some w
      | _ => some w
  | .reread n parsed =>
    match w.ops n with
    | .rereading id email =>
      match parsed with
      | some parsed =>
        -- the envelope and the result of authentication are carried over
        if id ∈ w.files then some (w.setOp n (.reparsed id { parsed with
          envelopeFrom := email.envelopeFrom, envelopeTo := email.envelopeTo
          authResult := email.authResult }))
        else some (w.setOp n (.matching id email false))
      | none => some (w.setOp n (.matching id email false))
    | _ => none
  | .reparse n fuse =>
    match w.ops n with
    | .reparsed id email =>
      let db := (Tx.transaction (updateParsedEmail lib.utf8 id email) fuse w.db).2
      some ({ w with db := db }.setOp n (.matching id email false))
    | _ => none
  | .delete n id fuse =>
    if w.ops n ≠ .idle then none
    else
      let w := { w with issued := id :: w.issued }
      match Tx.transaction (deleteEmail id) fuse w.db with
      | (.error _, _) => some w
      | (.ok (), db) => some ({ w with db := db }.setOp n (.removing [id]))
  | .cleanup n days now fuse =>
    if w.ops n ≠ .idle then none
    else if days ≤ 0 then some w
    else
      match Tx.transaction (cleanupExpired days now.time) fuse w.db with
      | (.error _, _) => some w
      | (.ok ids, db) => some ({ w with db := db }.setOp n (.removing ids))
  | .remove n =>
    match w.ops n with
    | .removing (id :: ids) => some ((w.remove id).setOp n (.removing ids))
    | .clearing (id :: ids) => some ((w.remove id).setOp n (.clearing ids))
    | _ => none
  | .ret n =>
    match w.ops n with
    | .removing [] => some (w.setOp n .idle)
    | _ => none
  | .list n fuse =>
    if w.ops n ≠ .idle then none
    else
      match (Tx.transaction allEmailIDs fuse w.db).1 with
      -- only logged
      | .error _ => some (w.setOp n (.clearing []))
      | .ok ids => some (w.setOp n (.clearing ids))
  | .deleteAll n fuse =>
    match w.ops n with
    | .clearing [] =>
      some ({ w with db := (Tx.transaction deleteAllEmails fuse w.db).2 }.setOp n .idle)
    | _ => none
  | .claim now fuse => some { w with db := (Tx.transaction (claimDelivery now.time) fuse w.db).2 }
  | .finish job result next now fuse =>
    some { w with db := (Tx.transaction (finishDelivery job result next now.time) fuse w.db).2 }

end FilesWorld

/-! ## What the store calls do to the rows -/

section
variable {db db' : Db} {fuse : Option ℕ}

/-- A call that keeps every row, whether it fails or not. -/
theorem hasEmail_transaction {α : Type} {body : Tx α}
    (hb : ∀ a db' fuse', body (db, fuse) = .ok (a, db', fuse') →
      ∀ id, db'.hasEmail id = db.hasEmail id) (id : Uuid) :
    (Tx.transaction body fuse db).2.hasEmail id = db.hasEmail id := by
  rcases ht : Tx.transaction body fuse db with ⟨e | a, db'⟩
  · rw [Tx.transaction_error ht]
  · obtain ⟨fuse', hok⟩ := Tx.transaction_ok ht
    exact hb a db' fuse' hok id

theorem hasEmail_updateEmails {p : EmailRow → Bool} {f : EmailRow → EmailRow}
    {hf : ∀ e, (f e).id = e.id} (id : Uuid) :
    (db.updateEmails p f hf).hasEmail id = db.hasEmail id := by
  rw [Db.hasEmail, Db.get?_updateEmails, Option.isSome_map, Db.hasEmail]

theorem hasEmail_updateEmailStatus (id' : Uuid) (status : EmailStatus) (id : Uuid) :
    (Tx.transaction (updateEmailStatus id' status) fuse db).2.hasEmail id = db.hasEmail id := by
  refine hasEmail_transaction (fun _ db' _ hok id => ?_) id
  obtain rfl := Except.ok.inj (Tx.stmt_ok hok)
  exact hasEmail_updateEmails id

theorem hasEmail_updateParsedEmail (utf8 : String → String) (id' : Uuid) (email : ParsedEmail) (id : Uuid) :
    (Tx.transaction (updateParsedEmail utf8 id' email) fuse db).2.hasEmail id = db.hasEmail id := by
  refine hasEmail_transaction (fun _ db' _ hok id => ?_) id
  obtain rfl := Except.ok.inj (Tx.stmt_ok hok)
  exact hasEmail_updateEmails id

theorem hasEmail_claimDelivery (now : ℤ) (id : Uuid) :
    (Tx.transaction (claimDelivery now) fuse db).2.hasEmail id = db.hasEmail id := by
  refine hasEmail_transaction (fun _ db' _ hok id => ?_) id
  rcases claimDelivery_ok hok with ⟨-, rfl⟩ | ⟨j, -, hc⟩
  · rfl
  · rw [hc.db']; rfl

theorem hasEmail_finishDelivery (job : QueuedDelivery) (result : DeliveryResult) (next now : ℤ)
    (id : Uuid) : (Tx.transaction (finishDelivery job result next now) fuse db).2.hasEmail id =
      db.hasEmail id := by
  refine hasEmail_transaction (fun _ db' _ hok id => ?_) id
  rw [finishDelivery_ok hok, Db.hasEmail, get?_finish, Option.isSome_map, Db.hasEmail]

theorem hasEmail_enqueue {rt : Runtime} {global : RetryConfig} {email : ParsedEmail}
    {rules : List Rule} {emailId batch : Uuid} {ids : ℕ → Uuid} {now : ℤ}
    (h : enqueue rt global email rules emailId batch ids now fuse db = (.ok (), db')) (id : Uuid) :
    db'.hasEmail id = db.hasEmail id := by
  obtain ⟨jobs, -, he⟩ := enqueue_ok h
  rw [Db.hasEmail, he.emails, Table.get?_update, Option.isSome_map, Db.hasEmail]

theorem hasEmail_saveEmail {record : EmailRecord}
    (h : Tx.transaction (saveEmail record) fuse db = (.ok (), db')) (id : Uuid) :
    db'.hasEmail id = (decide (record.id = id) || db.hasEmail id) := by
  obtain ⟨fuse', hok⟩ := Tx.transaction_ok h
  obtain ⟨hr, -, -, -⟩ := insertEmail_ok (Tx.stmt_ok hok)
  rw [Db.hasEmail, Table.get?_append hr, Option.isSome_or, Bool.or_comm, Db.hasEmail]
  by_cases hid : record.id = id
  · subst hid; simp [Keyed.key]
  · simp [Keyed.key, hid]

theorem hasEmail_deleteEmails (p : EmailRow → Bool) (id : Uuid) :
    (db.deleteEmails p).hasEmail id = (db.hasEmail id && decide (id ∉ db.emailIds p)) := by
  rw [Db.hasEmail, Db.get?_deleteEmails, Db.hasEmail]
  rcases hg : db.emails.get? id with _ | e
  · rfl
  · obtain ⟨hm, hk⟩ := Table.get?_eq_some.1 hg
    have hmem : id ∈ db.emailIds p ↔ p e := by
      simp only [Db.emailIds, List.mem_map, List.mem_filter]
      constructor
      · rintro ⟨e', ⟨hm', hp⟩, he⟩
        have := Table.get?_of_mem hm'
        rw [show Keyed.key e' = id from he, hg] at this
        exact Option.some.inj this ▸ hp
      · intro hp
        exact ⟨e, ⟨hm, hp⟩, hk⟩
    by_cases hp : p e <;> simp [hmem, hp]

theorem hasEmail_deleteEmail {id' : Uuid}
    (h : Tx.transaction (deleteEmail id') fuse db = (.ok (), db')) (id : Uuid) :
    db'.hasEmail id = (db.hasEmail id && decide (id ∉ [id'])) := by
  obtain ⟨fuse', hok⟩ := Tx.transaction_ok h
  obtain rfl := Except.ok.inj (Tx.stmt_ok hok)
  rw [Db.hasEmail, Db.get?_deleteEmails, Db.hasEmail]
  rcases hg : db.emails.get? id with _ | e
  · rfl
  · have hk : e.id = id := Table.get?_key hg
    by_cases hid : id = id' <;> simp [hk, hid]

theorem hasEmail_cleanupExpired {days now : ℤ} {ids : List Uuid}
    (h : Tx.transaction (cleanupExpired days now) fuse db = (.ok ids, db')) (id : Uuid) :
    db'.hasEmail id = (db.hasEmail id && decide (id ∉ ids)) := by
  obtain ⟨fuse', hok⟩ := Tx.transaction_ok h
  obtain ⟨p, -, rfl, rfl⟩ := cleanupExpired_ok hok
  exact hasEmail_deleteEmails p id

/-- `DeleteAllEmails` fails, or leaves no row. -/
theorem hasEmail_deleteAllEmails (id : Uuid) :
    (Tx.transaction deleteAllEmails fuse db).2.hasEmail id =
      (db.hasEmail id && decide (fuse = some 0)) := by
  have hall (id : Uuid) : (db.deleteEmails fun _ => true).hasEmail id = false := by
    rw [Db.hasEmail, Db.get?_deleteEmails]
    cases db.emails.get? id <;> rfl
  rcases fuse with _ | _ | n
  · rw [decide_eq_false nofun, Bool.and_false]; exact hall id
  · rw [decide_eq_true rfl, Bool.and_true]; rfl
  · rw [decide_eq_false (by simp), Bool.and_false]; exact hall id

end

/-! ## What one step can do -/

/-- The operation has no file to remove, no row to delete and no mail to
    acknowledge. -/
def FileOp.plain : FileOp → Bool
  | .idle | .rereading _ _ | .reparsed _ _ | .matching _ _ false => true
  | _ => false

inductive FilesTrans (w : FilesWorld) : FilesEvent → FilesWorld → Prop
  /-- no operation moves: a first call failed, or the delivery queue took a step -/
  | same {e db} (ids : List Uuid) : (∀ id, db.hasEmail id = w.db.hasEmail id) →
      FilesTrans w e { w with db := db, issued := ids ++ w.issued }
  /-- an operation moves on without a file or a row in its hands -/
  | keep {e n op db} (ids : List Uuid) : (∀ id, db.hasEmail id = w.db.hasEmail id) →
      (∀ id, (w.ops n).removes id = false) → (w.ops n).clears = false → op.plain →
      FilesTrans w e ({ w with db := db, issued := ids ++ w.issued }.setOp n op)
  | save {e n id op db} (email : ParsedEmail) : w.ops n = .idle → id ∉ w.issued →
      (∀ id', db.hasEmail id' = (decide (id = id') || w.db.hasEmail id')) →
      op = .writing id email ∨ op = .matching id email true →
      FilesTrans w e ({ w with db := db, issued := id :: w.issued }.setOp n op)
  | write {n id email} : w.ops n = .writing id email → FilesTrans w (.write n)
      ({ w with files := id :: w.files, written := id :: w.written }.setOp n
        (.matching id email true))
  | accept {e n id email db} : w.ops n = .matching id email true →
      (∀ id, db.hasEmail id = w.db.hasEmail id) →
      FilesTrans w e ({ w with db := db, accepted := id :: w.accepted }.setOp n .idle)
  | delete {e n ids db} (named : List Uuid) : w.ops n = .idle →
      (∀ id, db.hasEmail id = (w.db.hasEmail id && decide (id ∉ ids))) →
      (∀ id ∈ ids, id ∈ named ∨ w.db.hasEmail id) →
      FilesTrans w e ({ w with db := db, issued := named ++ w.issued }.setOp n (.removing ids))
  | remove {n id ids} : w.ops n = .removing (id :: ids) →
      FilesTrans w (.remove n) ((w.remove id).setOp n (.removing ids))
  | clear {n id ids} : w.ops n = .clearing (id :: ids) →
      FilesTrans w (.remove n) ((w.remove id).setOp n (.clearing ids))
  | list {e n ids} : w.ops n = .idle → FilesTrans w e (w.setOp n (.clearing ids))
  | deleteAll {n fuse db} : w.ops n = .clearing [] →
      (∀ id, db.hasEmail id = (w.db.hasEmail id && decide (fuse = some 0))) →
      FilesTrans w (.deleteAll n fuse) ({ w with db := db }.setOp n .idle)

namespace FilesWorld

variable {lib : HandlerLib} {w w' : FilesWorld} {n : ℕ}

/-- A handler call or a replay ends well. -/
theorem finish_trans {e : FilesEvent} {id : Uuid} {email : ParsedEmail} {handler : Bool} {db : Db}
    (hw : w.ops n = .matching id email handler)
    (hdb : ∀ id, db.hasEmail id = w.db.hasEmail id) :
    FilesTrans w e (({ w with db := db }.accept id handler).setOp n .idle) := by
  rcases handler with _ | _
  · exact .keep [] hdb (by simp [hw, FileOp.removes]) (by rw [hw]; rfl) rfl
  · exact .accept hw hdb

/-- **Every step is a listed transition.** -/
theorem step_trans {e : FilesEvent} (h : w.step lib e = some w') : FilesTrans w e w' := by
  have refl : ∀ id, w.db.hasEmail id = w.db.hasEmail id := fun _ => rfl
  unfold step at h
  split at h
  next n id email raw receivedAt fuse =>
    split at h
    next => cases h
    next hi =>
      simp only [not_or, not_not] at hi
      dsimp only at h
      split at h
      next => cases h; exact .same [id] refl
      next db ht =>
        cases h
        refine .save email hi.1 hi.2 (hasEmail_saveEmail ht) ?_
        split_ifs
        · exact .inl rfl
        · exact .inr rfl
  next n =>
    split at h
    next id email hw => cases h; exact .write hw
    next => cases h
  next n rules fuse =>
    split at h
    next id email handler hw =>
      split_ifs at h with hm
      cases h
      exact finish_trans hw (hasEmail_updateEmailStatus id .dropped)
    next => cases h
  next n rules global batch ids now fuse =>
    split at h
    next id email handler hw =>
      dsimp only at h
      split_ifs at h with hm
      split at h
      next =>
        cases h
        exact .keep [] refl (by simp [hw, FileOp.removes]) (by rw [hw]; rfl) rfl
      next db ht => cases h; exact finish_trans hw (hasEmail_enqueue ht)
    next => cases h
  next n id fuse =>
    split_ifs at h with hi
    rw [ne_eq, not_not] at hi
    dsimp only at h
    split at h
    next e _ =>
      split at h
      next =>
        cases h
        exact .keep [id] refl (by simp [hi, FileOp.removes]) (by rw [hi]; rfl) rfl
      next => cases h; exact .same [id] refl
    next => cases h; exact .same [id] refl
  next n parsed =>
    split at h
    next id email hw =>
      have hr : ∀ id, (w.ops n).removes id = false := by simp [hw, FileOp.removes]
      have hc : (w.ops n).clears = false := by rw [hw]; rfl
      split at h
      next =>
        split_ifs at h
        · cases h; exact .keep [] refl hr hc rfl
        · cases h; exact .keep [] refl hr hc rfl
      next => cases h; exact .keep [] refl hr hc rfl
    next => cases h
  next n fuse =>
    split at h
    next id email hw =>
      cases h
      exact .keep [] (hasEmail_updateParsedEmail lib.utf8 id email) (by simp [hw, FileOp.removes])
        (by rw [hw]; rfl) rfl
    next => cases h
  next n id fuse =>
    split_ifs at h with hi
    rw [ne_eq, not_not] at hi
    dsimp only at h
    split at h
    next => cases h; exact .same [id] refl
    next db ht =>
      cases h
      exact .delete [id] hi (hasEmail_deleteEmail ht) fun _ hid => .inl hid
  next n days now fuse =>
    split_ifs at h with hi hd
    · cases h; exact .same [] refl
    · rw [not_not] at hi
      split at h
      next => cases h; exact .same [] refl
      next ids db ht =>
        cases h
        refine .delete [] hi (hasEmail_cleanupExpired ht) fun id hid => .inr ?_
        obtain ⟨fuse', hok⟩ := Tx.transaction_ok ht
        obtain ⟨p, -, rfl, -⟩ := cleanupExpired_ok hok
        obtain ⟨e, he, rfl⟩ := List.mem_map.1 hid
        have := Table.get?_of_mem (List.mem_of_mem_filter he)
        exact Option.isSome_iff_exists.2 ⟨e, this⟩
  next n =>
    split at h
    next id ids hw => cases h; exact .remove hw
    next id ids hw => cases h; exact .clear hw
    next => cases h
  next n =>
    split at h
    next hw =>
      cases h
      exact .keep [] refl (by simp [hw, FileOp.removes]) (by rw [hw]; rfl) rfl
    next => cases h
  next n fuse =>
    split_ifs at h with hi
    rw [ne_eq, not_not] at hi
    split at h
    next => cases h; exact .list hi
    next => cases h; exact .list hi
  next n fuse =>
    split at h
    next hw => cases h; exact .deleteAll hw fun id => hasEmail_deleteAllEmails id
    next => cases h
  next now fuse => cases h; exact .same [] (hasEmail_claimDelivery now.time)
  next job result next now fuse =>
    cases h
    exact .same [] (hasEmail_finishDelivery job result next now.time)

/-! ## In step -/

/-- The email is accepted, or its handler call may still return nil. -/
def Standing (w : FilesWorld) (id : Uuid) : Prop :=
  id ∈ w.accepted ∨ ∃ n, (w.ops n).handles id

/-- No operation is in flight. -/
def Quiet (w : FilesWorld) : Prop := ∀ n, w.ops n = .idle

/-- Rows and files are in step: every file belongs to a row, and every
    accepted row whose file was written has it. -/
structure Matched (w : FilesWorld) : Prop where
  file : ∀ id ∈ w.files, w.db.hasEmail id
  row : ∀ id ∈ w.accepted, w.db.hasEmail id → id ∈ w.written → id ∈ w.files

/-- The same with operations in flight: a file without a row is about to be
    removed, and a row without its file is about to be deleted. -/
structure InStep (w : FilesWorld) : Prop where
  file : ∀ id ∈ w.files, w.db.hasEmail id ∨ ∃ n, (w.ops n).removes id
  row : ∀ id ∈ w.written, w.db.hasEmail id → w.Standing id → id ∉ w.files → ∃ n, (w.ops n).clears

/-- The steps after which rows and files are still in step, in terms of the
    state before:

    * a file is written while its row exists or its removal is still to come;
    * `DeleteAllEmails` succeeds when no row has its file left, unless its
      removal is still to come;
    * it fails when every standing row whose file was written has it, unless
      another delete-all is in flight. -/
def Allowed (w : FilesWorld) : FilesEvent → Prop
  | .write n => ∀ id email, w.ops n = .writing id email →
      w.db.hasEmail id ∨ ∃ m, (w.ops m).removes id
  | .deleteAll n fuse =>
    if fuse = some 0 then ∀ id ∈ w.written, w.db.hasEmail id → w.Standing id → id ∉ w.files →
      ∃ m, m ≠ n ∧ (w.ops m).clears
    else ∀ id ∈ w.files, w.db.hasEmail id → ∃ m, (w.ops m).removes id
  | _ => True

/-- The ids that an operation has in hand. -/
def KnownOp (w : FilesWorld) : FileOp → Prop
  | .writing id _ => id ∈ w.issued
  | .removing ids => ∀ id ∈ ids, id ∈ w.issued ∧ w.db.hasEmail id = false
  | _ => True

structure Known (w : FilesWorld) : Prop where
  row : ∀ id, w.db.hasEmail id → id ∈ w.issued
  written : ∀ id ∈ w.written, id ∈ w.issued
  op : ∀ n, w.KnownOp (w.ops n)

section
variable {op : FileOp} {f : FileOp → Bool}

@[simp] theorem setOp_db : (w.setOp n op).db = w.db := rfl

theorem setOp_ops (m : ℕ) : (w.setOp n op).ops m = if m = n then op else w.ops m :=
  Function.update_apply _ _ _ _

end

/-! ### Preservation -/

variable {e : FilesEvent}

/-- Rows that appear have a new id, and files are written for known ids. -/
theorem Known.frame (hk : Known w) (hi : ∀ id ∈ w.issued, id ∈ w'.issued)
    (hr : ∀ id, w'.db.hasEmail id → w.db.hasEmail id ∨ id ∈ w'.issued ∧ id ∉ w.issued)
    (hw : ∀ id ∈ w'.written, id ∈ w.issued)
    (ho : ∀ n, w'.ops n = w.ops n ∨ w'.KnownOp (w'.ops n)) : Known w' := by
  refine ⟨fun id hid => ?_, fun id hid => hi id (hw id hid), fun n => ?_⟩
  · rcases hr id hid with h | h
    · exact hi id (hk.row id h)
    · exact h.1
  · rcases ho n with h | h
    · rw [h]
      have hn := hk.op n
      revert hn
      cases w.ops n with
      | writing id email => exact hi id
      | removing ids =>
        refine fun hn id hid => ⟨hi id (hn id hid).1, Bool.eq_false_iff.2 fun hid' => ?_⟩
        rcases hr id hid' with h | h
        · rw [(hn id hid).2] at h; cases h
        · exact h.2 (hn id hid).1
      | _ => exact fun _ => trivial
    · exact h

/-- With no operation in flight nothing is left to excuse a mismatch. -/
theorem InStep.matched (hi : InStep w) (hq : w.Quiet) : w.Matched := by
  refine ⟨fun id hid => ?_, fun id hid hr hw => by_contra fun hf => ?_⟩
  · rcases hi.file id hid with h | ⟨n, h⟩
    · exact h
    · rw [hq n] at h; cases h
  · obtain ⟨n, h⟩ := hi.row id hw hr (.inl hid) hf
    rw [hq n] at h; cases h

end FilesWorld

def plainEmail : ParsedEmail :=
  ⟨"a@example.com", ["b@example.org"], [], "hello", "hello", "", [], [], none, "a@example.com",
    ["b@example.org"]⟩

def plainLib : HandlerLib :=
  ⟨sampleRuntime sampleText sampleSnapshot, ⟨.ascii, fun _ => none, fun _ _ => some false⟩, id⟩

end Mailrelay
