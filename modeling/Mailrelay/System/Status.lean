/-
  The status of an email tells the truth about its deliveries.

  Several batches of one email can be in flight together and finish in any
  order.  `Truth` ties the stored status to the history: while a delivery of
  any batch is unfinished the status is `received`, and afterwards it is the
  verdict over the newest batch, or `dropped` if the email was dropped after
  its last final result.

  * `Anchored`: what a worker holds is a delivery of a known email, and its
    row is there as long as the email is;
  * `truth_trans`: every step keeps `Truth`;
  * `status_tells_truth`: the main result.
-/
import Mailrelay.Storage.Batch
import Mailrelay.System.Durability

namespace Mailrelay

open Lib

/-! ## Held deliveries and emails -/

structure Anchored (w : World) : Prop where
  email : ∀ {emailId}, (w.db.emails.get? emailId).isSome → emailId ∈ w.issued
  job : ∀ {n job}, (w.workers n).job? = some job → job.emailId ∈ w.issued
  row : ∀ {n job}, (w.workers n).job? = some job → (w.db.emails.get? job.emailId).isSome →
    (w.db.delivery? job.id).isSome

section
variable {rt : Runtime} {w w' : World} {n : ℕ}

theorem anchored_init : Anchored World.init := ⟨nofun, nofun, nofun⟩

theorem Anchored.frame (h : Anchored w) (hi : w.issued ⊆ w'.issued)
    (he : ∀ emailId, (w'.db.emails.get? emailId).isSome →
      (w.db.emails.get? emailId).isSome ∨ (emailId ∉ w.issued ∧ emailId ∈ w'.issued))
    (hw : ∀ m job, (w'.workers m).job? = some job → (w.workers m).job? = some job)
    (hr : ∀ id, (w.db.delivery? id).isSome → (w'.db.delivery? id).isSome) : Anchored w' := by
  constructor
  · intro emailId hs
    rcases he emailId hs with hs | ⟨-, hs⟩
    · exact hi (h.email hs)
    · exact hs
  · intro m job hj
    exact hi (h.job (hw m job hj))
  · intro m job hj hs
    rcases he job.emailId hs with hs | ⟨hs, -⟩
    · exact hr _ (h.row (hw m job hj) hs)
    · exact absurd (h.job (hw m job hj)) hs

/-- A worker's step that keeps the database and takes no delivery. -/
theorem Anchored.setPhase (h : Anchored w) {ph : Phase} (os : List Obs)
    (hj : ∀ job, ph.job? = some job → (w.workers n).job? = some job) :
    Anchored ({ w with hist := os }.setPhase n ph) := by
  refine h.frame (fun _ => id) (fun _ => Or.inl) (fun m job hm => ?_) fun _ => id
  rcases job?_setPhase hm with ⟨rfl, hph⟩ | ⟨-, hold⟩
  · exact hj job hph
  · exact hold

theorem Anchored.finish (h : Anchored w) {job : QueuedDelivery} {result : DeliveryResult}
    {next now : ℤ} {ph : Phase} (hph : ph.job? = none) (o : Obs) :
    Anchored (({ w with db := w.db.finish job result next now }.observe o).setPhase n ph) := by
  refine h.frame (fun _ => id) (fun emailId hs => Or.inl ?_) (fun m job' hm => ?_) fun id hs => ?_
  · have hs' : ((w.db.finish job result next now).emails.get? emailId).isSome := hs
    rw [get?_finish, Option.isSome_map] at hs'
    exact hs'
  · rcases job?_setPhase hm with ⟨-, hph'⟩ | ⟨-, hold⟩
    · rw [hph] at hph'; cases hph'
    · exact hold
  · show ((w.db.finish job result next now).delivery? id).isSome
    rw [delivery?_finish, Option.isSome_map]; exact hs

theorem Anchored.delete (h : Anchored w) (hw : Held w) (p : EmailRow → Bool) (o : Obs) :
    Anchored ({ w with db := w.db.deleteEmails p }.observe o) := by
  have hold : ∀ {emailId}, ((w.db.deleteEmails p).emails.get? emailId).isSome →
      (w.db.emails.get? emailId).isSome := by
    intro emailId hs
    rw [Db.get?_deleteEmails] at hs
    obtain ⟨e, he⟩ := Option.isSome_iff_exists.1 hs
    exact Option.isSome_iff_exists.2 ⟨e, (Option.filter_eq_some_iff.1 he).1⟩
  refine ⟨fun hs => h.email (hold hs), h.job, fun {m job} hj hs => ?_⟩
  have hs' : ((w.db.deleteEmails p).emails.get? job.emailId).isSome := hs
  obtain ⟨⟨d, q⟩, hr⟩ := Option.isSome_iff_exists.1 (h.row hj (hold hs'))
  have hq : q.emailId = job.emailId := by rw [(hw.row hj hr).2]; rfl
  show ((w.db.deleteEmails p).delivery? job.id).isSome
  rw [Db.delivery?_deleteEmails hw.paired, hr, Option.filter_some, if_pos (by rw [hq]; exact hs')]
  rfl

theorem anchored_trans {e : Event} (h : Anchored w) (hw : Held w) (ht : Trans rt w e w') :
    Anchored w' := by
  cases ht with
  | failed ids =>
    exact h.frame (fun _ hi => List.mem_append_right _ hi) (fun _ => Or.inl) (fun _ _ => id)
      fun _ => id
  | @saveEmail record _ db hi hins =>
    obtain ⟨he, hd, hq, -⟩ := insertEmail_ok hins
    refine h.frame (fun _ hi => List.mem_cons_of_mem _ hi) (fun emailId hs => ?_) (fun _ _ => id)
      fun id hs => ?_
    · by_cases hid : record.id = emailId
      · exact Or.inr ⟨hid ▸ hi, hid ▸ List.mem_cons_self⟩
      · have hs' : (db.emails.get? emailId).isSome := hs
        rw [Table.get?_append_old he (by
          intro e he hk; rw [List.mem_singleton.1 he] at hk; exact hid hk)] at hs'
        exact Or.inl hs'
    · show (db.delivery? id).isSome
      rw [Db.delivery?_congr hd hq]; exact hs
  | @enqueue emailId batch _ _ db jobs _ _ _ he =>
    refine h.frame (fun _ hi => List.mem_append_right _ hi) (fun emailId' hs => Or.inl ?_)
      (fun _ _ => id) fun id hs => ?_
    · have hs' : (db.emails.get? emailId').isSome := hs
      rw [he.emails, Table.get?_update, Option.isSome_map] at hs'
      exact hs'
    · show (db.delivery? id).isSome
      rcases he.delivery?_cases id with ⟨j, -, -, hn, -⟩ | ⟨-, ho⟩
      · rw [hn] at hs; cases hs
      · rw [ho]; exact hs
  | @drop emailId _ db hd =>
    obtain ⟨hd', hq, he⟩ := Db.updateEmailStatus_dropped_ok hw.paired hd
    refine h.frame (fun _ => id) (fun emailId' hs => Or.inl ?_) (fun _ _ => id) fun id hs => ?_
    · have hs' : (db.emails.get? emailId').isSome := hs
      rw [he, Option.isSome_map] at hs'
      exact hs'
    · show (db.delivery? id).isSome
      rw [Db.delivery?_congr hd' hq]; exact hs
  | remove p => exact h.delete hw p _
  | expire p _ => exact h.delete hw p _
  | @startQueue workers _ db _ hu hrec =>
    obtain ⟨he, -, -, hd⟩ := recoverDeliveries_ok hrec
    refine h.frame (fun _ => id) (fun emailId hs => Or.inl ?_) (fun m job hj => ?_) fun id hs => ?_
    · have hs' : (db.emails.get? emailId).isSome := hs
      rw [he] at hs'; exact hs'
    · have hj' : (if m < workers then Phase.top else .exited).job? = some job := hj
      split_ifs at hj' <;> cases hj'
    · show (db.delivery? id).isSome
      rw [hd, Option.isSome_map]; exact hs
  | crash => exact h.frame (fun _ => id) (fun _ => Or.inl) nofun fun _ => id
  | setRules | stopQueue | shutdown | cancel | shutdownReturn =>
    exact h.frame (fun _ => id) (fun _ => Or.inl) (fun _ _ => id) fun _ => id
  | check _ hw => exact h.setPhase _ (by intro job; split_ifs <;> exact nofun)
  | noClaim | noRelease | noSave | tick | halt => exact h.setPhase _ nofun
  | @claim n now _ job db _ _ hc =>
    obtain ⟨d, q, hr, -, -, hjob⟩ := mem_dueJobs.1 hc.due
    have hq : q.emailId = job.emailId := by rw [hjob]; rfl
    have hdb := hc.db'
    subst hdb
    refine ⟨h.email, fun {m job'} hj => ?_, fun {m job'} hj hs => ?_⟩
    · rcases job?_setPhase hj with ⟨-, hj'⟩ | ⟨-, hj'⟩
      · cases hj'
        rw [← hq]
        exact h.email (Db.delivery?_email hr)
      · exact h.job hj'
    · show ((w.db.setInProgress job.id now.time).delivery? job'.id).isSome
      rw [delivery?_setInProgress, Option.isSome_map]
      rcases job?_setPhase hj with ⟨-, hj'⟩ | ⟨-, hj'⟩
      · cases hj'; rw [hr]; rfl
      · exact h.row hj' hs
  | recheck _ hw => exact h.setPhase _ (by rw [hw]; intro job; split_ifs <;> exact id)
  | release | save => exact h.finish rfl _
  | refuse _ hw | send _ hw | settle _ hw =>
    exact h.setPhase _ (by rw [hw]; exact fun _ => id)

end

/-! ## Histories of an email -/

namespace Obs

def batchOf (emailId : Uuid) : Obs → Option (Uuid × List (Uuid × QueuedDelivery))
  | enqueued emailId' batch jobs => if emailId' = emailId then some (batch, jobs) else none
  | _ => none

def resultOf (id : Uuid) : Obs → Option DeliveryResult
  | saved job result _ _ => if job.id = id ∧ result.status.final then some result else none
  | _ => none

/-- Whether the observation drops the email (`true`) or finishes one of its
    deliveries (`false`). -/
def verdict (emailId : Uuid) : Obs → Option Bool
  | saved job result _ _ =>
    if job.emailId = emailId ∧ result.status.final then some false else none
  | dropped emailId' => if emailId' = emailId then some true else none
  | _ => none

/-- Says nothing about the status of an email. -/
def mute (o : Obs) : Prop :=
  (∀ e, o.batchOf e = none) ∧ (∀ id, o.resultOf id = none) ∧ ∀ e, o.verdict e = none

end Obs

/-- The most recently enqueued batch of an email. -/
def lastBatch (hist : List Obs) (emailId : Uuid) : Option (Uuid × List (Uuid × QueuedDelivery)) :=
  hist.findSome? (·.batchOf emailId)

/-- The final result of a delivery. -/
def finalResult (hist : List Obs) (id : Uuid) : Option DeliveryResult :=
  hist.findSome? (·.resultOf id)

/-- An `UpdateEmailStatus(dropped)` was committed after the last final result
    of the email. -/
def droppedLast (hist : List Obs) (emailId : Uuid) : Bool :=
  hist.findSome? (·.verdict emailId) == some true

section
variable {hist os : List Obs} {o : Obs} {id emailId : Uuid}

theorem findSome_mute {α : Type} {f : Obs → Option α} (hf : ∀ o ∈ os, f o = none) :
    (os ++ hist).findSome? f = hist.findSome? f := by
  rw [List.findSome?_append, List.findSome?_eq_none_iff.2 hf, Option.none_or]

theorem lastBatch_mute (hos : ∀ o ∈ os, o.mute) :
    lastBatch (os ++ hist) emailId = lastBatch hist emailId :=
  findSome_mute fun o ho => (hos o ho).1 emailId

theorem finalResult_mute (hos : ∀ o ∈ os, o.mute) :
    finalResult (os ++ hist) id = finalResult hist id :=
  findSome_mute fun o ho => (hos o ho).2.1 id

theorem droppedLast_mute (hos : ∀ o ∈ os, o.mute) :
    droppedLast (os ++ hist) emailId = droppedLast hist emailId := by
  rw [droppedLast, findSome_mute fun o ho => (hos o ho).2.2 emailId]; rfl

theorem lastBatch_cons_of_none (h : o.batchOf emailId = none) :
    lastBatch (o :: hist) emailId = lastBatch hist emailId :=
  List.findSome?_cons_of_isNone (by rw [h]; rfl)

theorem finalResult_cons_of_none (h : o.resultOf id = none) :
    finalResult (o :: hist) id = finalResult hist id :=
  List.findSome?_cons_of_isNone (by rw [h]; rfl)

theorem droppedLast_cons_of_none (h : o.verdict emailId = none) :
    droppedLast (o :: hist) emailId = droppedLast hist emailId := by
  rw [droppedLast, List.findSome?_cons_of_isNone (by rw [h]; rfl)]; rfl

theorem droppedLast_cons_of_some {b : Bool} (h : o.verdict emailId = some b) :
    droppedLast (o :: hist) emailId = b := by
  rw [droppedLast, List.findSome?_cons_of_isSome (by rw [h]; rfl), h]; cases b <;> rfl

end

/-! ## Rows of an email -/

/-- The status that the history gives to an email with newest batch `batch`. -/
def storedStatus (db : Db) (hist : List Obs) (emailId batch : Uuid) : EmailStatus :=
  if db.hasUnfinished emailId then .received
  else if droppedLast hist emailId then .dropped
  else aggregateStatus (db.batchRows emailId (some batch))

/-- The deliveries of the email are the same in both databases. -/
def SameRows (db db' : Db) (emailId : Uuid) : Prop := ∀ id r, r.2.emailId = emailId →
  (db.delivery? id = some r ↔ db'.delivery? id = some r)

section
variable {db db' : Db} {emailId batch : Uuid}

theorem SameRows.hasUnfinished (h : SameRows db db' emailId) :
    db'.hasUnfinished emailId = db.hasUnfinished emailId := by
  rw [Bool.eq_iff_iff, Db.hasUnfinished_iff, Db.hasUnfinished_iff]
  constructor
  · rintro ⟨id, d, q, hr, he, hu⟩; exact ⟨id, d, q, (h id (d, q) he).2 hr, he, hu⟩
  · rintro ⟨id, d, q, hr, he, hu⟩; exact ⟨id, d, q, (h id (d, q) he).1 hr, he, hu⟩

theorem SameRows.batchRows (h : SameRows db db' emailId)
    (hids : db'.batchIds emailId batch = db.batchIds emailId batch) :
    db'.batchRows emailId (some batch) = db.batchRows emailId (some batch) := by
  refine Db.batchRows_congr hids fun id hid => ?_
  obtain ⟨d, q, hr, he, -⟩ := Db.mem_batchIds.1 hid
  rw [(Db.delivery?_eq_some.1 hr).1, (Db.delivery?_eq_some.1 ((h id (d, q) he).1 hr)).1]

theorem SameRows.storedStatus {hist hist' : List Obs} (h : SameRows db db' emailId)
    (hids : db'.batchIds emailId batch = db.batchIds emailId batch)
    (hd : droppedLast hist' emailId = droppedLast hist emailId) :
    storedStatus db' hist' emailId batch = storedStatus db hist emailId batch := by
  unfold Mailrelay.storedStatus
  rw [h.hasUnfinished, h.batchRows hids, hd]

/-- Moving rows between pending and in progress does not change the status. -/
theorem storedStatus_alike {hist hist' : List Obs} (hq : db'.queue = db.queue)
    (ha : ∀ id, Option.Rel Alike (db.delivery? id) (db'.delivery? id))
    (hd : droppedLast hist' emailId = droppedLast hist emailId) :
    storedStatus db' hist' emailId batch = storedStatus db hist emailId batch := by
  have back : ∀ {id r'}, db'.delivery? id = some r' → ∃ r, db.delivery? id = some r ∧ Alike r r' := by
    intro id r' hr
    have := ha id
    rw [hr] at this
    exact rel_some this
  have forth : ∀ {id r}, db.delivery? id = some r →
      ∃ r', db'.delivery? id = some r' ∧ Alike r r' := by
    intro id r hr
    have := ha id
    rw [hr] at this
    rcases hr' : db'.delivery? id with _ | r'
    · rw [hr'] at this; cases this
    · rw [hr'] at this
      cases this with
      | some h => exact ⟨r', rfl, h⟩
  have hun : db'.hasUnfinished emailId = db.hasUnfinished emailId := by
    rw [Bool.eq_iff_iff, Db.hasUnfinished_iff, Db.hasUnfinished_iff]
    constructor
    · rintro ⟨id, d', q', hr', he, hu⟩
      obtain ⟨⟨d, q⟩, hr, h⟩ := back hr'
      have hqq : q' = q := h.queue
      exact ⟨id, d, q, hr, by rw [← hqq]; exact he, h.unfinished.symm.trans hu⟩
    · rintro ⟨id, d, q, hr, he, hu⟩
      obtain ⟨⟨d', q'⟩, hr', h⟩ := forth hr
      have hqq : q' = q := h.queue
      exact ⟨id, d', q', hr', by rw [hqq]; exact he, h.unfinished.trans hu⟩
  unfold storedStatus
  rw [hun, hd]
  by_cases hu : db.hasUnfinished emailId
  · rw [if_pos hu, if_pos hu]
  · rw [if_neg hu, if_neg hu]
    have hids : db'.batchIds emailId batch = db.batchIds emailId batch := by
      rw [Db.batchIds, hq]; rfl
    rw [Db.batchRows_congr hids]
    intro id hid
    obtain ⟨d, q, hr, he, -⟩ := Db.mem_batchIds.1 hid
    obtain ⟨r', hr', h⟩ := forth hr
    have hdone : d.status.unfinished = false := by
      rw [Bool.eq_false_iff]
      exact fun h => hu (Db.hasUnfinished_iff.2 ⟨id, d, q, hr, he, h⟩)
    rw [h.done hdone] at hr'
    rw [(Db.delivery?_eq_some.1 hr).1, (Db.delivery?_eq_some.1 hr').1]

end

/-! ## The invariant -/

structure Truth (w : World) : Prop where
  known : ∀ {emailId batch jobs}, lastBatch w.hist emailId = some (batch, jobs) →
    emailId ∈ w.issued ∧ batch ∈ w.issued
  batches : ∀ {q}, q ∈ w.db.queue.rows → q.batchId ∈ w.issued
  unqueued : ∀ {emailId}, lastBatch w.hist emailId = none →
    ∀ q ∈ w.db.queue.rows, q.emailId ≠ emailId
  results : ∀ {id d q}, w.db.delivery? id = some (d, q) → d.status.unfinished = false →
    ∃ r, finalResult w.hist id = some r ∧ r.status = d.status
  batch : ∀ {emailId e batch jobs}, w.db.emails.get? emailId = some e →
    lastBatch w.hist emailId = some (batch, jobs) → e.deliveryBatch = some batch ∧
      w.db.batchIds emailId batch = jobs.map Prod.fst ∧ jobs ≠ []
  status : ∀ {emailId e batch jobs}, w.db.emails.get? emailId = some e →
    lastBatch w.hist emailId = some (batch, jobs) →
    e.status = storedStatus w.db w.hist emailId batch

theorem truth_init : Truth World.init := ⟨nofun, nofun, nofun, nofun, nofun, nofun⟩

section
variable {rt : Runtime} {w w' : World}

/-- Steps that touch neither emails nor queue rows. -/
theorem Truth.alike (h : Truth w) {os : List Obs} (hos : ∀ o ∈ os, o.mute)
    (hh : w'.hist = os ++ w.hist) (hi : w.issued ⊆ w'.issued)
    (he : w'.db.emails = w.db.emails) (hq : w'.db.queue = w.db.queue)
    (ha : ∀ id, Option.Rel Alike (w.db.delivery? id) (w'.db.delivery? id)) : Truth w' := by
  have hlast : ∀ e, lastBatch w'.hist e = lastBatch w.hist e := by
    intro e; rw [hh, lastBatch_mute hos]
  constructor
  · intro emailId batch jobs hb
    rw [hlast] at hb
    exact (h.known hb).imp (fun h => hi h) fun h => hi h
  · intro q hm
    rw [hq] at hm
    exact hi (h.batches hm)
  · intro emailId hb
    rw [hlast] at hb
    rw [hq]
    exact h.unqueued hb
  · intro id d q hr hu
    have := ha id
    rw [hr] at this
    obtain ⟨r, hr₀, halike⟩ := rel_some this
    cases halike.done (halike.unfinished.symm.trans hu)
    rw [hh, finalResult_mute hos]
    exact h.results hr₀ hu
  · intro emailId e batch jobs hem hb
    rw [he] at hem
    rw [hlast] at hb
    have hids : w'.db.batchIds emailId batch = w.db.batchIds emailId batch := by
      rw [Db.batchIds, hq]; rfl
    rw [hids]
    exact h.batch hem hb
  · intro emailId e batch jobs hem hb
    rw [he] at hem
    rw [hlast] at hb
    rw [h.status hem hb, hh]
    exact (storedStatus_alike hq ha (droppedLast_mute hos)).symm

/-- Steps that keep the database. -/
theorem Truth.frame (h : Truth w) (os : List Obs) (hos : ∀ o ∈ os, o.mute)
    (hh : w'.hist = os ++ w.hist) (hi : w.issued ⊆ w'.issued) (hd : w'.db = w.db) : Truth w' := by
  refine h.alike hos hh hi (by rw [hd]) (by rw [hd]) fun id => ?_
  rw [hd]
  rcases w.db.delivery? id with _ | r
  · exact .none
  · exact .some (.refl r)

theorem Truth.saveEmail (h : Truth w) {record : EmailRecord} {db : Db}
    (hi : record.id ∉ w.issued)
    (hins : Db.insertEmail { record with deliveryBatch := none } w.db = .ok db) :
    Truth { w with db := db, issued := record.id :: w.issued } := by
  obtain ⟨he, hd, hq, -⟩ := insertEmail_ok hins
  have hrow : ∀ id, db.delivery? id = w.db.delivery? id := fun id => Db.delivery?_congr hd hq
  have hold : ∀ {emailId e x}, db.emails.get? emailId = some e →
      lastBatch w.hist emailId = some x → w.db.emails.get? emailId = some e := by
    intro emailId e x hem hb
    rw [Table.get?_append_old he (by
      intro e' he' hk
      rw [List.mem_singleton.1 he'] at hk
      have hk' : record.id = emailId := hk
      exact hi (hk' ▸ (h.known hb).1))] at hem
    exact hem
  have hsame : ∀ emailId, SameRows w.db db emailId := fun emailId id r _ => by rw [hrow]
  have hids : ∀ e b, db.batchIds e b = w.db.batchIds e b := fun e b => by rw [Db.batchIds, hq]; rfl
  constructor
  · intro emailId batch jobs hb
    exact (h.known hb).imp (List.mem_cons_of_mem _) (List.mem_cons_of_mem _)
  · intro q hm
    exact List.mem_cons_of_mem _ (h.batches (by rw [← hq]; exact hm))
  · intro emailId hb q hm
    exact h.unqueued hb q (by rw [← hq]; exact hm)
  · intro id d q hr hu
    exact h.results ((hrow id).symm.trans hr) hu
  · intro emailId e batch jobs hem hb
    have := h.batch (hold hem hb) hb
    rw [← hids] at this
    exact this
  · intro emailId e batch jobs hem hb
    rw [h.status (hold hem hb) hb]
    exact ((hsame emailId).storedStatus (hids _ _) rfl).symm

theorem Truth.drop (h : Truth w) (hw : Held w) {emailId : Uuid} {db : Db}
    (hd : updateEmailStatus emailId .dropped (w.db, none) = .ok ((), db, none)) :
    Truth ({ w with db := db }.observe (.dropped emailId)) := by
  obtain ⟨hd, hq, he⟩ := Db.updateEmailStatus_dropped_ok hw.paired hd
  have hrow : ∀ id, db.delivery? id = w.db.delivery? id := fun id => Db.delivery?_congr hd hq
  have hsame : ∀ e, SameRows w.db db e := fun e id r _ => by rw [hrow]
  have hids : ∀ e b, db.batchIds e b = w.db.batchIds e b := fun e b => by rw [Db.batchIds, hq]; rfl
  have hlast : ∀ e, lastBatch (Obs.dropped emailId :: w.hist) e = lastBatch w.hist e :=
    fun e => lastBatch_cons_of_none rfl
  constructor
  · intro e batch jobs hb
    exact h.known ((hlast e).symm.trans hb)
  · intro q hm
    exact h.batches (by rw [← hq]; exact hm)
  · intro e hb q hm
    exact h.unqueued ((hlast e).symm.trans hb) q (by rw [← hq]; exact hm)
  · intro id d q hr hu
    exact h.results ((hrow id).symm.trans hr) hu
  · intro e' e batch jobs hem hb
    obtain ⟨e₀, hem₀, rfl⟩ := Option.map_eq_some_iff.1 ((he e').symm.trans hem)
    have := h.batch hem₀ ((hlast e').symm.trans hb)
    rw [← hids] at this
    refine ⟨?_, this.2⟩
    split_ifs <;> exact this.1
  · intro e' e batch jobs hem hb
    obtain ⟨e₀, hem₀, rfl⟩ := Option.map_eq_some_iff.1 ((he e').symm.trans hem)
    have hs := h.status hem₀ ((hlast e').symm.trans hb)
    have hk : e₀.id = e' := Table.get?_key hem₀
    show _ = storedStatus db (.dropped emailId :: w.hist) e' batch
    by_cases hid : e' = emailId
    · -- the dropped email: spared while it has unfinished deliveries
      subst hid
      unfold storedStatus
      have hv : (Obs.dropped e').verdict e' = some true := if_pos rfl
      rw [(hsame e').hasUnfinished, droppedLast_cons_of_some hv, hk]
      by_cases hu : w.db.hasUnfinished e'
      · rw [storedStatus, if_pos hu] at hs
        simp [hu, hs]
      · simp [hu]
    · have hv : (Obs.dropped emailId).verdict e' = none := if_neg fun h => hid h.symm
      rw [(hsame e').storedStatus (hids _ _) (droppedLast_cons_of_none hv), ← hs, if_neg]
      rw [hk]
      simp [hid]

theorem Truth.delete (h : Truth w) (hw : Held w) (p : EmailRow → Bool) {o : Obs} (ho : o.mute) :
    Truth ({ w with db := w.db.deleteEmails p }.observe o) := by
  have hos : ∀ o' ∈ [o], o'.mute := fun o' ho' => by rw [List.mem_singleton.1 ho']; exact ho
  have hlast : ∀ e, lastBatch (o :: w.hist) e = lastBatch w.hist e :=
    fun e => lastBatch_mute hos
  have hmem : ∀ {q}, q ∈ (w.db.deleteEmails p).queue.rows → q ∈ w.db.queue.rows := by
    intro q hm
    rw [Db.deleteEmails_queue] at hm
    exact List.mem_of_mem_filter hm
  have hold : ∀ {e e'}, (w.db.deleteEmails p).emails.get? e = some e' →
      w.db.emails.get? e = some e' := by
    intro e e' hem
    rw [Db.get?_deleteEmails] at hem
    exact (Option.filter_eq_some_iff.1 hem).1
  -- an email that is kept keeps its deliveries
  have hsame : ∀ {e}, ((w.db.deleteEmails p).emails.get? e).isSome →
      SameRows w.db (w.db.deleteEmails p) e := by
    intro e hs id r he
    rw [Db.delivery?_deleteEmails hw.paired]
    constructor
    · intro hr
      rw [hr, Option.filter_some, if_pos (by rw [he]; exact hs)]
    · intro hr
      exact (Option.filter_eq_some_iff.1 hr).1
  constructor
  · intro e batch jobs hb
    exact h.known ((hlast e).symm.trans hb)
  · intro q hm
    exact h.batches (hmem hm)
  · intro e hb q hm
    exact h.unqueued ((hlast e).symm.trans hb) q (hmem hm)
  · intro id d q hr hu
    have := h.results (delivery?_of_deleteEmails hw hr) hu
    rw [← finalResult_mute hos] at this
    exact this
  · intro e' e batch jobs hem hb
    have hs : ((w.db.deleteEmails p).emails.get? e').isSome := Option.isSome_iff_exists.2 ⟨e, hem⟩
    have := h.batch (hold hem) ((hlast e').symm.trans hb)
    rw [← batchIds_deleteEmails hw.paired hs] at this
    exact this
  · intro e' e batch jobs hem hb
    have hs : ((w.db.deleteEmails p).emails.get? e').isSome := Option.isSome_iff_exists.2 ⟨e, hem⟩
    rw [h.status (hold hem) ((hlast e').symm.trans hb)]
    exact ((hsame hs).storedStatus (batchIds_deleteEmails hw.paired hs)
      (droppedLast_mute hos)).symm

/-- A new batch touches no row of another email. -/
theorem Enqueued.sameRows {db db' : Db} {emailId batch : Uuid} {now : ℤ}
    {jobs : List (Uuid × QueuedDelivery)} (h : Enqueued db emailId batch jobs now db') {e : Uuid}
    (hne : e ≠ emailId) : SameRows db db' e := by
  intro id r hr
  rcases h.delivery?_cases id with ⟨j, -, -, hn, hj⟩ | ⟨-, ho⟩
  · rw [hn, hj]
    refine ⟨nofun, fun hr' => ?_⟩
    cases hr'
    exact absurd hr.symm hne
  · rw [ho]

theorem Enqueued.mem_queue {db db' : Db} {emailId batch : Uuid} {now : ℤ}
    {jobs : List (Uuid × QueuedDelivery)} (h : Enqueued db emailId batch jobs now db') {q : QueueRow}
    (hq : q ∈ db'.queue.rows) : q ∈ db.queue.rows ∨ (q.emailId = emailId ∧ q.batchId = batch) := by
  rw [h.queue, List.mem_append] at hq
  rcases hq with hq | hq
  · exact Or.inl hq
  · obtain ⟨j, -, rfl⟩ := List.mem_map.1 hq
    exact Or.inr ⟨rfl, rfl⟩

theorem Truth.enqueue (h : Truth w) {emailId batch : Uuid} {now : ℤ} {db : Db}
    {jobs : List (Uuid × QueuedDelivery)} (hne : jobs ≠ [])
    (hi : ∀ id ∈ batch :: jobs.map Prod.fst, id ∉ w.issued) (hanch : Anchored w)
    (he : Enqueued w.db emailId batch jobs now db) :
    Truth ({ w with db := db, issued := (batch :: jobs.map Prod.fst) ++ w.issued }.observe
      (.enqueued emailId batch jobs)) := by
  have hbatch : batch ∉ w.issued := hi batch List.mem_cons_self
  have hnew : lastBatch (.enqueued emailId batch jobs :: w.hist) emailId = some (batch, jobs) := by
    rw [lastBatch, List.findSome?_cons_of_isSome] <;> simp [Obs.batchOf]
  have hold : ∀ {e}, e ≠ emailId →
      lastBatch (.enqueued emailId batch jobs :: w.hist) e = lastBatch w.hist e :=
    fun hne => lastBatch_cons_of_none (if_neg (Ne.symm hne))
  have hem : ∀ e, db.emails.get? e = (w.db.emails.get? e).map fun r =>
      if r.id == emailId then { r with status := .received, deliveryBatch := some batch } else r := by
    intro e; rw [he.emails, Table.get?_update]
  constructor
  · intro e b js hb
    by_cases hid : e = emailId
    · subst hid
      have hb' := hnew.symm.trans hb
      cases hb'
      exact ⟨List.mem_append_right _ (hanch.email (he.email hne)),
        List.mem_append_left _ List.mem_cons_self⟩
    · exact (h.known ((hold hid).symm.trans hb)).imp (List.mem_append_right _)
        (List.mem_append_right _)
  · intro q hm
    rcases he.mem_queue hm with hm | ⟨-, hb⟩
    · exact List.mem_append_right _ (h.batches hm)
    · rw [hb]
      exact List.mem_append_left _ List.mem_cons_self
  · intro e hb q hm
    by_cases hid : e = emailId
    · subst hid
      cases hnew.symm.trans hb
    · rcases he.mem_queue hm with hm | ⟨hq, -⟩
      · exact h.unqueued ((hold hid).symm.trans hb) q hm
      · rw [hq]
        exact Ne.symm hid
  · intro id d q hr hu
    rcases he.delivery?_cases id with ⟨j, -, -, -, hj⟩ | ⟨-, ho⟩
    · cases hj.symm.trans hr
      cases hu
    · exact h.results (ho.symm.trans hr) hu
  · intro e r b js hr hb
    obtain ⟨r₀, hr₀, rfl⟩ := Option.map_eq_some_iff.1 ((hem e).symm.trans hr)
    have hk : r₀.id = e := Table.get?_key hr₀
    by_cases hid : e = emailId
    · subst hid
      cases hnew.symm.trans hb
      refine ⟨by simp [hk], ?_, hne⟩
      exact he.batchIds_new fun q hq hqb => hbatch (hqb ▸ h.batches hq)
    · have hb' := (hold hid).symm.trans hb
      have hbne : b ≠ batch := fun hbb => hbatch (hbb ▸ (h.known hb').2)
      have := h.batch hr₀ hb'
      rw [← he.batchIds_old hbne] at this
      rw [if_neg (by simp [hk, hid])]
      exact this
  · intro e r b js hr hb
    obtain ⟨r₀, hr₀, rfl⟩ := Option.map_eq_some_iff.1 ((hem e).symm.trans hr)
    have hk : r₀.id = e := Table.get?_key hr₀
    by_cases hid : e = emailId
    · subst hid
      cases hnew.symm.trans hb
      obtain ⟨j, hj⟩ := List.exists_mem_of_ne_nil jobs hne
      have hu : db.hasUnfinished e := Db.hasUnfinished_iff.2
        ⟨j.1, _, _, (he.delivery?_new hj).2, rfl, rfl⟩
      show _ = storedStatus db _ e batch
      rw [storedStatus, if_pos hu]
      simp [hk]
    · have hb' := (hold hid).symm.trans hb
      have hbne : b ≠ batch := fun hbb => hbatch (hbb ▸ (h.known hb').2)
      rw [if_neg (by simp [hk, hid]), h.status hr₀ hb']
      exact ((he.sameRows hid).storedStatus (he.batchIds_old hbne)
        (droppedLast_cons_of_none rfl)).symm

theorem batchIds_finish (db : Db) (job : QueuedDelivery) (result : DeliveryResult) (next now : ℤ)
    (emailId batch : Uuid) :
    (db.finish job result next now).batchIds emailId batch = db.batchIds emailId batch :=
  Db.batchIds_setNext job.id next

/-- What the observation of a finished attempt says about an email. -/
theorem finish_verdict {n : ℕ} {job : QueuedDelivery} {result : DeliveryResult} {next : ℤ} {o : Obs}
    (ho : Finishing rt w n job result next o) :
    (∀ e, o.batchOf e = none) ∧ (∀ id, id ≠ job.id → o.resultOf id = none) ∧
    (∀ e, e ≠ job.emailId → o.verdict e = none) ∧
    (result.status.unfinished = false →
      o.resultOf job.id = some result ∧ o.verdict job.emailId = some false) := by
  rcases ho with ⟨rfl, rfl, -⟩ | ⟨attempt, rfl, -, hs⟩
  · exact ⟨fun _ => rfl, fun _ _ => rfl, fun _ _ => rfl, nofun⟩
  · refine ⟨fun _ => rfl, fun id hid => if_neg fun h => hid h.1.symm,
      fun e he => if_neg fun h => he h.1.symm, fun hu => ?_⟩
    rcases hs.outcome with ⟨hf, -⟩ | ⟨hp, -⟩
    · exact ⟨if_pos ⟨rfl, hf⟩, if_pos ⟨rfl, hf⟩⟩
    · rw [hp] at hu; cases hu

/-- Finishing keeps the email and the batch of every queue row. -/
theorem mem_finish_queue {db : Db} {job : QueuedDelivery} {result : DeliveryResult} {next now : ℤ}
    {q : QueueRow} (hq : q ∈ (db.finish job result next now).queue.rows) :
    ∃ q₀ ∈ db.queue.rows, q.emailId = q₀.emailId ∧ q.batchId = q₀.batchId := by
  obtain ⟨q₀, hq₀, rfl⟩ := List.mem_map.1 (show q ∈ List.map _ db.queue.rows from hq)
  refine ⟨q₀, hq₀, ?_⟩
  unfold QueueRow.setNext
  split_ifs <;> exact ⟨rfl, rfl⟩

/-- Finishing touches no row of another email. -/
theorem sameRows_finish {db : Db} {job : QueuedDelivery} {result : DeliveryResult} {next now : ℤ}
    {emailId : Uuid} (hjob : ∀ {d q}, db.delivery? job.id = some (d, q) → q.emailId = job.emailId)
    (hne : emailId ≠ job.emailId) : SameRows db (db.finish job result next now) emailId := by
  intro id r hr
  rw [delivery?_finish]
  by_cases hid : id = job.id
  · subst hid
    rcases hr₀ : db.delivery? job.id with _ | ⟨d₀, q₀⟩
    · simp
    · rw [Option.map_some, if_pos rfl]
      constructor
      · intro hr'
        cases hr'
        exact absurd (hr.symm.trans (hjob hr₀)) hne
      · intro hr'
        cases hr'
        rw [QueueRow.setNext_emailId] at hr
        exact absurd (hr.symm.trans (hjob hr₀)) hne
  · simp only [hid, if_false, Option.map_id']

/-- The email stays unfinished while the delivery goes back into the queue. -/
theorem hasUnfinished_finish {db : Db} {job : QueuedDelivery} {result : DeliveryResult}
    {next now : ℤ} {d : DeliveryRow} {q : QueueRow} (hr : db.delivery? job.id = some (d, q))
    (hq : q.emailId = job.emailId) (hu : result.status.unfinished) :
    (db.finish job result next now).hasUnfinished job.emailId := by
  refine Db.hasUnfinished_iff.2 ⟨job.id, d.setResult result now, q.setNext next, ?_, ?_, hu⟩
  · rw [delivery?_finish, hr, Option.map_some, if_pos rfl]
  · rw [QueueRow.setNext_emailId]; exact hq

variable (rt) in
theorem Truth.finish (h : Truth w) (hw : Held w) (hanch : Anchored w) {n : ℕ}
    {job : QueuedDelivery} {result : DeliveryResult} {next now : ℤ} {o : Obs}
    (hj : (w.workers n).job? = some job)
    (ho : Finishing rt w n job result next o)
    (hdb : w'.db = w.db.finish job result next now) (hi : w'.issued = w.issued)
    (hh : w'.hist = o :: w.hist) : Truth w' := by
  obtain ⟨hbatch, hres, hver, hfin⟩ := finish_verdict ho
  have hlast : ∀ e, lastBatch w'.hist e = lastBatch w.hist e := by
    intro e; rw [hh, lastBatch_cons_of_none (hbatch e)]
  have hshape : ∀ q ∈ w'.db.queue.rows, ∃ q₀ ∈ w.db.queue.rows,
      q.emailId = q₀.emailId ∧ q.batchId = q₀.batchId := by
    intro q hq
    rw [hdb] at hq
    exact mem_finish_queue hq
  -- the row of the delivery, if any, belongs to the email of the job
  have hjob : ∀ {d q}, w.db.delivery? job.id = some (d, q) → q.emailId = job.emailId := by
    intro d q hr
    rw [(hw.row hj hr).2]; rfl
  have hem : ∀ e, w'.db.emails.get? e = (w.db.emails.get? e).map fun r =>
      if r.id == job.emailId && !w'.db.hasUnfinished r.id then
        { r with status := aggregateStatus (w'.db.batchRows r.id r.deliveryBatch) } else r := by
    intro e; rw [hdb, get?_finish]
  have hids : ∀ e b, w'.db.batchIds e b = w.db.batchIds e b := by
    intro e b; rw [hdb, batchIds_finish]
  constructor
  · intro e b js hb
    rw [hlast] at hb
    rw [hi]
    exact h.known hb
  · intro q hq
    obtain ⟨q₀, hq₀, -, hb⟩ := hshape q hq
    rw [hi, hb]
    exact h.batches hq₀
  · intro e hb q hq
    rw [hlast] at hb
    obtain ⟨q₀, hq₀, he, -⟩ := hshape q hq
    rw [he]
    exact h.unqueued hb q₀ hq₀
  · intro id d q hr hu
    rw [hdb] at hr
    rw [hh]
    obtain ⟨d₀, q₀, hr₀, ⟨rfl, rfl, -⟩ | ⟨hid, rfl, -⟩⟩ := finish_row hr
    · rw [DeliveryRow.setResult_status] at hu
      refine ⟨result, ?_, rfl⟩
      have := (hfin hu).1
      rw [finalResult, List.findSome?_cons_of_isSome (by rw [this]; rfl), this]
    · rw [finalResult_cons_of_none (hres id hid)]
      exact h.results hr₀ hu
  · intro e r b js hr hb
    rw [hem] at hr
    rw [hlast] at hb
    rw [hids]
    obtain ⟨r₀, hr₀, rfl⟩ := Option.map_eq_some_iff.1 hr
    have := h.batch hr₀ hb
    refine ⟨?_, this.2⟩
    split_ifs <;> exact this.1
  · intro e r b js hr hb
    rw [hem] at hr
    rw [hlast] at hb
    obtain ⟨r₀, hr₀, rfl⟩ := Option.map_eq_some_iff.1 hr
    have hk : r₀.id = e := Table.get?_key hr₀
    have hs := h.status hr₀ hb
    by_cases hid : e = job.emailId
    · -- the delivery was in progress, so the status was `received`
      subst hid
      obtain ⟨⟨d, q⟩, hrow⟩ :=
        Option.isSome_iff_exists.1 (hanch.row hj (Option.isSome_iff_exists.2 ⟨r₀, hr₀⟩))
      have hu₀ : w.db.hasUnfinished job.emailId := Db.hasUnfinished_iff.2
        ⟨job.id, d, q, hrow, hjob hrow, by rw [(hw.row hj hrow).1]; rfl⟩
      rw [storedStatus, if_pos hu₀] at hs
      rw [hk, storedStatus]
      by_cases hu : w'.db.hasUnfinished job.emailId
      · simp [hu, hs]
      · -- the last delivery was finished just now
        have hru : result.status.unfinished = false := by
          rw [Bool.eq_false_iff]
          intro hru
          exact hu (by rw [hdb]; exact hasUnfinished_finish hrow (hjob hrow) hru)
        have hd : droppedLast w'.hist job.emailId = false := by
          rw [hh, droppedLast_cons_of_some (hfin hru).2]
        have hbb := (h.batch hr₀ hb).1
        simp [hu, hd, hbb]
    · rw [if_neg (by simp [hk, hid]), hs]
      have hsame : SameRows w.db w'.db e := by rw [hdb]; exact sameRows_finish hjob hid
      refine (hsame.storedStatus (hids _ _) ?_).symm
      rw [hh, droppedLast_cons_of_none (hver e hid)]

theorem mute_singleton {o : Obs} (ho : o.mute) : ∀ o' ∈ [o], o'.mute :=
  fun o' ho' => by rw [List.mem_singleton.1 ho']; exact ho

theorem lost_mute (w : World) : ∀ o ∈ w.lost, o.mute := by
  intro o ho
  obtain ⟨id, -, rfl⟩ := List.mem_map.1 ho
  exact ⟨fun _ => rfl, fun _ => rfl, fun _ => rfl⟩

/-- **Every step keeps `Truth`.** -/
theorem truth_trans {e : Event} (h : Truth w) (hs : Sound rt w) (hanch : Anchored w)
    (ht : Trans rt w e w') : Truth w' := by
  cases ht with
  | failed ids =>
    exact h.frame [] (List.forall_mem_nil _) rfl (fun _ hi => List.mem_append_right _ hi) rfl
  | saveEmail hi hins => exact h.saveEmail hi hins
  | enqueue hne _ hi he => exact h.enqueue hne hi hanch he
  | drop hd => exact h.drop hs.held hd
  | remove p => exact h.delete hs.held p ⟨fun _ => rfl, fun _ => rfl, fun _ => rfl⟩
  | expire p _ => exact h.delete hs.held p ⟨fun _ => rfl, fun _ => rfl, fun _ => rfl⟩
  | startQueue _ hrec =>
    obtain ⟨he, hq, -, hd⟩ := recoverDeliveries_ok hrec
    refine h.alike (mute_singleton ⟨fun _ => rfl, fun _ => rfl, fun _ => rfl⟩) rfl (fun _ => id) he hq
      fun id => ?_
    exact (hd id).symm ▸ recover_rel _
  | crash => exact h.frame _ (lost_mute w) rfl (fun _ => id) rfl
  | setRules | stopQueue | shutdown | cancel | shutdownReturn =>
    exact h.frame [] (List.forall_mem_nil _) rfl (fun _ => id) rfl
  | check | recheck | noRelease | send | noSave | halt =>
    exact h.frame [_] (mute_singleton ⟨fun _ => rfl, fun _ => rfl, fun _ => rfl⟩) rfl (fun _ => id) rfl
  | noClaim | refuse | settle | tick =>
    exact h.frame [] (List.forall_mem_nil _) rfl (fun _ => id) rfl
  | claim _ _ hc =>
    have hdb := hc.db'
    subst hdb
    exact h.alike (mute_singleton ⟨fun _ => rfl, fun _ => rfl, fun _ => rfl⟩) rfl (fun _ => id) rfl rfl
      (claim_alike hc)
  | release _ hw =>
    exact h.finish rt hs.held hanch (by rw [hw]; rfl) (Or.inl ⟨rfl, rfl, _, rfl⟩) rfl rfl rfl
  | save _ hw =>
    have hok := hs.ok ‹ℕ›
    rw [hw] at hok
    exact h.finish rt hs.held hanch (by rw [hw]; rfl) (Or.inr ⟨_, rfl, hw, hok⟩) rfl rfl rfl

/-! ## The main result -/

theorem truth_of_reach (h : Reach (step rt) World.init w) : Truth w := by
  have : Sound rt w ∧ Anchored w ∧ Truth w := by
    refine h.inv (I := fun w => Sound rt w ∧ Anchored w ∧ Truth w) ?_
      ⟨sound_init, anchored_init, truth_init⟩
    rintro w e w' ⟨hs, ha, ht⟩ hstep
    have htr := step_trans hstep
    exact ⟨sound_step hs hstep, anchored_trans ha hs.held htr, truth_trans ht hs ha htr⟩
  exact this.2.2

/-- The email has a pending delivery or one in progress, in any batch. -/
def Unfinished (db : Db) (emailId : Uuid) : Prop :=
  ∃ id d q, db.delivery? id = some (d, q) ∧ q.emailId = emailId ∧
    (d.status = .pending ∨ d.status = .inProgress)

/-- The status of the email is `received` while it has unfinished deliveries,
    and then the verdict over the final results of its newest batch, unless it
    was dropped after the last of its final results. -/
structure Truthful (w : World) (emailId : Uuid) (e : EmailRow) : Prop where
  unfinished : Unfinished w.db emailId → e.status = .received
  finished : ¬ Unfinished w.db emailId →
    ∃ batch jobs results, lastBatch w.hist emailId = some (batch, jobs) ∧
      jobs.map (fun j => finalResult w.hist j.1) = results.map some ∧
      e.status = if droppedLast w.hist emailId then .dropped else computeStatus results

/-- The rows of a finished batch go with its final results. -/
theorem results_of_rows {db : Db} {hist : List Obs} {jobs : List (Uuid × QueuedDelivery)}
    (h : ∀ j ∈ jobs, ∃ d r, db.deliveries.get? j.1 = some d ∧ finalResult hist j.1 = some r ∧
      r.status = d.status) :
    ∃ (rows : List DeliveryRow) (results : List DeliveryResult),
      (jobs.map Prod.fst).filterMap db.deliveries.get? = rows ∧
      jobs.map (fun j => finalResult hist j.1) = results.map some ∧
      rows.map (·.status) = results.map (·.status) := by
  induction jobs with
  | nil => exact ⟨[], [], rfl, rfl, rfl⟩
  | cons j jobs ih =>
    obtain ⟨d, r, hd, hr, hst⟩ := h j List.mem_cons_self
    obtain ⟨rows, results, h₁, h₂, h₃⟩ := ih fun j' hj' => h j' (List.mem_cons_of_mem _ hj')
    refine ⟨d :: rows, r :: results, ?_, ?_, ?_⟩
    · rw [List.map_cons, List.filterMap_cons_some hd, h₁]
    · rw [List.map_cons, hr, h₂]; rfl
    · rw [List.map_cons, List.map_cons, h₃, hst]

/-- Every delivery of a finished batch has a final result, with the status of
    its row. -/
theorem Truth.finished_row (h : Truth w) {emailId batch id : Uuid}
    (hu : ¬ w.db.hasUnfinished emailId) (hid : id ∈ w.db.batchIds emailId batch) :
    ∃ d r, w.db.deliveries.get? id = some d ∧ finalResult w.hist id = some r ∧
      r.status = d.status := by
  obtain ⟨d, q, hr, hqe, -⟩ := Db.mem_batchIds.1 hid
  have hd : d.status.unfinished = false := by
    rw [Bool.eq_false_iff]
    exact fun h => hu (Db.hasUnfinished_iff.2 ⟨id, d, q, hr, hqe, h⟩)
  obtain ⟨r, hr', hrs⟩ := h.results hr hd
  exact ⟨d, r, (Db.delivery?_eq_some.1 hr).1, hr', hrs⟩

/-- **The status of an email tells the truth about its deliveries.** -/
theorem status_tells_truth (rt : Runtime) (w : World) (emailId : Uuid) (e : EmailRow)
    (h : Reach (step rt) World.init w) (he : w.db.emails.get? emailId = some e)
    (hq : ∃ q ∈ w.db.queue.rows, q.emailId = emailId) : Truthful w emailId e := by
  have ht := truth_of_reach h
  have hun : Unfinished w.db emailId ↔ w.db.hasUnfinished emailId := by
    simp only [Unfinished, Db.hasUnfinished_iff, DeliveryStatus.unfinished_iff]
  rcases hb : lastBatch w.hist emailId with _ | ⟨batch, jobs⟩
  · obtain ⟨q, hm, hqe⟩ := hq
    exact absurd hqe (ht.unqueued hb q hm)
  have hs := ht.status he hb
  obtain ⟨-, hids, hne⟩ := ht.batch he hb
  refine ⟨fun hu => by rw [hs, storedStatus, if_pos (hun.1 hu)], fun hu => ?_⟩
  rw [hun] at hu
  obtain ⟨rows, results, hrows, hresults, hstat⟩ := results_of_rows fun j hj =>
    ht.finished_row hu (by rw [hids]; exact List.mem_map_of_mem hj)
  have hne' : rows ≠ [] := by
    rintro rfl
    have hlen := congrArg List.length hresults
    have hlen' := congrArg List.length hstat
    simp only [List.length_map, List.length_nil] at hlen hlen'
    exact hne (List.length_eq_zero_iff.1 (by omega))
  refine ⟨batch, jobs, results, hb, hresults, ?_⟩
  rw [hs, storedStatus, if_neg hu, Db.batchRows_eq, hids, hrows, aggregateStatus_eq hne' hstat]

end

/-- A replay, of two deliveries, before the first batch is finished. -/
def sampleReplayed : List Event :=
  sampleClaim sampleText ++
    [.enqueue 1 4 [(5, ⟨0, 0, "alerts", sampleText, 0, 0⟩), (6, ⟨0, 0, "broken", "", 0, 0⟩)]
      (clock 250) none,
      .recheck 0, .start 0, .settle 0 (.ok "thanks") (clock 300), .save 0 (clock 400) none]

/-- One of them succeeds, the other one cannot be read. -/
def sampleReplayEnds : List Event :=
  [.check 0, .claim 0 (clock 500) none, .recheck 0, .start 0, .settle 0 (.ok "thanks") (clock 600),
    .save 0 (clock 700) none, .claim 1 (clock 800) none, .recheck 1, .start 1, .save 1 (clock 900) none]

theorem status_tells_truth_sample : ∃ w w' e e',
    exec (step (sampleRuntime sampleText sampleSnapshot)) World.init sampleReplayed = some w ∧
      w.db.emails.get? 1 = some e ∧ e.status = .received ∧ Truthful w 1 e ∧
      exec (step (sampleRuntime sampleText sampleSnapshot)) w sampleReplayEnds = some w' ∧
      w'.db.emails.get? 1 = some e' ∧ e'.status = .partialFailure ∧ Truthful w' 1 e' := by
  have hs : ((exec (step (sampleRuntime sampleText sampleSnapshot)) World.init sampleReplayed).bind fun w =>
      (exec (step (sampleRuntime sampleText sampleSnapshot)) w sampleReplayEnds).map fun w' =>
        (((w.db.queue.rows.any fun q => q.emailId == 1), (w.db.emails.get? 1).map fun e => e.status),
          (w'.db.queue.rows.any fun q => q.emailId == 1), (w'.db.emails.get? 1).map fun e => e.status)) =
      some ((true, some .received), true, some .partialFailure) := by decide +kernel
  obtain ⟨w, hw, h⟩ := Option.bind_eq_some_iff.1 hs
  obtain ⟨w', hw', h⟩ := Option.map_eq_some_iff.1 h
  simp only [Prod.mk.injEq, List.any_eq_true, beq_iff_eq] at h
  obtain ⟨⟨hq, he⟩, hq', he'⟩ := h
  obtain ⟨e, he, hst⟩ := Option.map_eq_some_iff.1 he
  obtain ⟨e', he', hst'⟩ := Option.map_eq_some_iff.1 he'
  have hreach := Reach.of_exec hw
  exact ⟨w, w', e, e', hw, he, hst, status_tells_truth _ w 1 e hreach he hq, hw', he', hst',
    status_tells_truth _ w' 1 e' (hreach.trans (Reach.of_exec hw')) he' hq'⟩

end Mailrelay
