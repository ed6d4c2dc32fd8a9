/-
  No lost and no resurrected delivery.

  A delivery committed by `EnqueueDeliveries` stays in the queue, unfinished
  and with its snapshot, until a final result is committed or its email is
  deleted; a finished one never changes again.  `Durable` is this invariant
  over the history; it holds in every run.

  Whether an unfinished delivery can still be claimed is another matter:
  finished rows are marked by the greatest `next_attempt_at`, and a retry may
  be scheduled at that very instant (`retry_at_sentinel`).  `Schedulable` rules
  this out for one step, `Scheduled` is what it keeps.

  * `durable_of_reach`: the invariant;
  * `no_lost_delivery`: the main result, for runs of schedulable steps.
-/
import Mailrelay.System.Effect

namespace Mailrelay

open Lib

/-! ## Histories -/

namespace Obs

def commits (id emailId : Uuid) (snapshot : String) : Obs → Bool
  | enqueued emailId' _ jobs =>
    emailId' == emailId && jobs.any fun j => j.1 == id && j.2.snapshot == snapshot
  | _ => false

def finishes (id : Uuid) : Obs → Bool
  | saved job result _ _ => job.id == id && result.status.final
  | _ => false

def removes (emailId : Uuid) : Obs → Bool
  | removed ids => ids.contains emailId
  | _ => false

def expires (emailId : Uuid) : Obs → Bool
  | expired ids => ids.contains emailId
  | _ => false

@[simp] theorem finishes_saved {id : Uuid} {job : QueuedDelivery} {result : DeliveryResult} {next : ℤ}
    {attempt : Attempt} :
    (saved job result next attempt).finishes id ↔ job.id = id ∧ result.status.final := by
  simp [finishes]

@[simp] theorem removes_removed {emailId : Uuid} {ids : List Uuid} :
    (removed ids).removes emailId ↔ emailId ∈ ids := by
  simp [removes]

@[simp] theorem expires_expired {emailId : Uuid} {ids : List Uuid} :
    (expired ids).expires emailId ↔ emailId ∈ ids := by
  simp [expires]

end Obs

/-- Delivery `id` was committed for the email, with the given snapshot. -/
def Committed (hist : List Obs) (id emailId : Uuid) (snapshot : String) : Prop :=
  ∃ o ∈ hist, o.commits id emailId snapshot

/-- A final result of the delivery was committed. -/
def Finished (hist : List Obs) (id : Uuid) : Prop := ∃ o ∈ hist, o.finishes id

/-- The email was removed by `DeleteEmail` or `DeleteAllEmails`. -/
def Removed (hist : List Obs) (emailId : Uuid) : Prop := ∃ o ∈ hist, o.removes emailId

/-- The email was removed by `CleanupExpired`. -/
def Expired (hist : List Obs) (emailId : Uuid) : Prop := ∃ o ∈ hist, o.expires emailId

section
variable {hist os : List Obs} {o : Obs} {id emailId : Uuid} {snapshot : String}

instance : Decidable (Committed hist id emailId snapshot) :=
  inferInstanceAs (Decidable (∃ o ∈ hist, o.commits id emailId snapshot))

instance : Decidable (Finished hist id) := inferInstanceAs (Decidable (∃ o ∈ hist, o.finishes id))

instance : Decidable (Removed hist emailId) :=
  inferInstanceAs (Decidable (∃ o ∈ hist, o.removes emailId))

theorem seen_quiet {P : Obs → Prop} (hos : ∀ o ∈ os, o.quiet) (hP : ∀ o, o.quiet → ¬ P o) :
    (∃ o ∈ os ++ hist, P o) ↔ ∃ o ∈ hist, P o := by
  constructor
  · rintro ⟨o, ho, h⟩
    rcases List.mem_append.1 ho with ho | ho
    · exact absurd h (hP o (hos o ho))
    · exact ⟨o, ho, h⟩
  · rintro ⟨o, ho, h⟩
    exact ⟨o, List.mem_append_right _ ho, h⟩

theorem committed_quiet (hos : ∀ o ∈ os, o.quiet) :
    Committed (os ++ hist) id emailId snapshot ↔ Committed hist id emailId snapshot :=
  seen_quiet hos fun o ho => by cases o <;> simp_all [Obs.quiet, Obs.commits]

theorem finished_quiet (hos : ∀ o ∈ os, o.quiet) : Finished (os ++ hist) id ↔ Finished hist id :=
  seen_quiet hos fun o ho => by cases o <;> simp_all [Obs.quiet, Obs.finishes]

theorem removed_quiet (hos : ∀ o ∈ os, o.quiet) :
    Removed (os ++ hist) emailId ↔ Removed hist emailId :=
  seen_quiet hos fun o ho => by cases o <;> simp_all [Obs.quiet, Obs.removes]

theorem expired_quiet (hos : ∀ o ∈ os, o.quiet) :
    Expired (os ++ hist) emailId ↔ Expired hist emailId :=
  seen_quiet hos fun o ho => by cases o <;> simp_all [Obs.quiet, Obs.expires]

@[simp] theorem committed_cons : Committed (o :: hist) id emailId snapshot ↔
    o.commits id emailId snapshot ∨ Committed hist id emailId snapshot :=
  List.exists_mem_cons_iff ..

@[simp] theorem finished_cons : Finished (o :: hist) id ↔ o.finishes id ∨ Finished hist id :=
  List.exists_mem_cons_iff ..

@[simp] theorem removed_cons :
    Removed (o :: hist) emailId ↔ o.removes emailId ∨ Removed hist emailId :=
  List.exists_mem_cons_iff ..

@[simp] theorem expired_cons :
    Expired (o :: hist) emailId ↔ o.expires emailId ∨ Expired hist emailId :=
  List.exists_mem_cons_iff ..

end

/-! ## The invariant -/

structure Durable (w : World) : Prop where
  known : ∀ {id emailId snapshot}, Committed w.hist id emailId snapshot → id ∈ w.issued
  finished : ∀ {id}, Finished w.hist id → id ∈ w.issued
  email : ∀ {id emailId snapshot d q}, Committed w.hist id emailId snapshot →
    w.db.delivery? id = some (d, q) → q.emailId = emailId
  live : ∀ {id emailId snapshot d q}, Committed w.hist id emailId snapshot →
    ¬ Finished w.hist id → w.db.delivery? id = some (d, q) →
    d.status.unfinished ∧ q.snapshot = snapshot
  present : ∀ {id emailId snapshot}, Committed w.hist id emailId snapshot →
    ¬ Removed w.hist emailId → (¬ Finished w.hist id ∨ ¬ Expired w.hist emailId) →
    ∃ d q, w.db.delivery? id = some (d, q)
  done : ∀ {id d q}, Finished w.hist id → w.db.delivery? id = some (d, q) →
    d.status.final ∧ q.snapshot = ""

theorem durable_init : Durable World.init where
  known := fun ⟨_, h, _⟩ => nomatch h
  finished := fun ⟨_, h, _⟩ => nomatch h
  email := fun ⟨_, h, _⟩ => nomatch h
  live := fun ⟨_, h, _⟩ => nomatch h
  present := fun ⟨_, h, _⟩ => nomatch h
  done := fun ⟨_, h, _⟩ => nomatch h

section
variable {rt : Runtime} {w w' : World}

theorem rel_some {r' : DeliveryRow × QueueRow} {o : Option (DeliveryRow × QueueRow)}
    (h : Option.Rel Alike o (some r')) : ∃ r, o = some r ∧ Alike r r' := by
  cases h with
  | some h => exact ⟨_, rfl, h⟩

theorem Durable.alike (h : Durable w) {os : List Obs} (hos : ∀ o ∈ os, o.quiet)
    (hh : w'.hist = os ++ w.hist) (hi : w.issued ⊆ w'.issued)
    (hd : ∀ id, Option.Rel Alike (w.db.delivery? id) (w'.db.delivery? id)) : Durable w' := by
  have old : ∀ {id d q}, w'.db.delivery? id = some (d, q) →
      ∃ d₀, w.db.delivery? id = some (d₀, q) ∧ Alike (d₀, q) (d, q) := by
    intro id d q hr
    have := hd id
    rw [hr] at this
    obtain ⟨⟨d₀, q₀⟩, hr₀, ha⟩ := rel_some this
    have hq : q = q₀ := ha.queue
    exact ⟨d₀, by rw [hr₀, hq], by rw [hq]; rw [hq] at ha; exact ha⟩
  constructor
  · intro id emailId snapshot hc
    rw [hh, committed_quiet hos] at hc
    exact hi (h.known hc)
  · intro id hf
    rw [hh, finished_quiet hos] at hf
    exact hi (h.finished hf)
  · intro id emailId snapshot d q hc hr
    rw [hh, committed_quiet hos] at hc
    obtain ⟨d₀, hr₀, -⟩ := old hr
    exact h.email hc hr₀
  · intro id emailId snapshot d q hc hf hr
    rw [hh, committed_quiet hos] at hc
    rw [hh, finished_quiet hos] at hf
    obtain ⟨d₀, hr₀, ha⟩ := old hr
    obtain ⟨hu, hs⟩ := h.live hc hf hr₀
    exact ⟨ha.unfinished.trans hu, hs⟩
  · intro id emailId snapshot hc hn hf
    rw [hh, committed_quiet hos] at hc
    rw [hh, removed_quiet hos] at hn
    rw [hh, finished_quiet hos, expired_quiet hos] at hf
    obtain ⟨d, q, hr⟩ := h.present hc hn hf
    have := hd id
    rw [hr] at this
    rcases hr' : w'.db.delivery? id with _ | ⟨d', q'⟩
    · rw [hr'] at this; cases this
    · exact ⟨d', q', rfl⟩
  · intro id d q hf hr
    rw [hh, finished_quiet hos] at hf
    obtain ⟨d₀, hr₀, ha⟩ := old hr
    obtain ⟨hu, hs⟩ := h.done hf hr₀
    cases ha.done (DeliveryStatus.not_unfinished_of_final hu)
    exact ⟨hu, hs⟩

theorem Durable.enqueue (h : Durable w) {emailId batch : Uuid} {now : ℤ}
    {jobs : List (Uuid × QueuedDelivery)}
    (hi : ∀ id ∈ batch :: jobs.map Prod.fst, id ∉ w.issued)
    (he : Enqueued w.db emailId batch jobs now w'.db)
    (hi' : w'.issued = (batch :: jobs.map Prod.fst) ++ w.issued)
    (hh : w'.hist = .enqueued emailId batch jobs :: w.hist) : Durable w' := by
  have fresh : ∀ {j}, j ∈ jobs → j.1 ∉ w.issued := fun hj =>
    hi _ (List.mem_cons_of_mem _ (List.mem_map_of_mem hj))
  have hfin : ∀ {id}, Finished w'.hist id ↔ Finished w.hist id := by
    intro id; rw [hh, finished_cons]; simp [Obs.finishes]
  -- a committed delivery is a new one, with its new row, or an old one, with its old row
  have split : ∀ {id emailId' snapshot}, Committed w'.hist id emailId' snapshot →
      (∃ job, (id, job) ∈ jobs ∧ emailId = emailId' ∧ job.snapshot = snapshot) ∨
      (Committed w.hist id emailId' snapshot ∧ w'.db.delivery? id = w.db.delivery? id) := by
    intro id emailId' snapshot hc
    rw [hh, committed_cons] at hc
    rcases hc with hc | hc
    · simp only [Obs.commits, Bool.and_eq_true, beq_iff_eq, List.any_eq_true] at hc
      obtain ⟨hemail, ⟨_, job⟩, hj, rfl, hs⟩ := hc
      exact Or.inl ⟨job, hj, hemail, hs⟩
    · refine Or.inr ⟨hc, he.delivery?_old fun hmem => ?_⟩
      exact hi id (List.mem_cons_of_mem _ hmem) (h.known hc)
  constructor
  · intro id emailId' snapshot hc
    rw [hi']
    rcases split hc with ⟨job, hj, -, -⟩ | ⟨hc, -⟩
    · exact List.mem_append_left _ (List.mem_cons_of_mem _ (List.mem_map_of_mem hj))
    · exact List.mem_append_right _ (h.known hc)
  · intro id hf
    rw [hi']
    exact List.mem_append_right _ (h.finished (hfin.1 hf))
  · intro id emailId' snapshot d q hc hr
    rcases split hc with ⟨job, hj, rfl, -⟩ | ⟨hc, ho⟩
    · rw [(he.delivery?_new hj).2] at hr; cases hr; rfl
    · rw [ho] at hr; exact h.email hc hr
  · intro id emailId' snapshot d q hc hf hr
    rcases split hc with ⟨job, hj, -, rfl⟩ | ⟨hc, ho⟩
    · rw [(he.delivery?_new hj).2] at hr; cases hr; exact ⟨rfl, rfl⟩
    · rw [ho] at hr; exact h.live hc (mt hfin.2 hf) hr
  · intro id emailId' snapshot hc hn hf
    rcases split hc with ⟨job, hj, -, -⟩ | ⟨hc, ho⟩
    · exact ⟨_, _, (he.delivery?_new hj).2⟩
    · rw [hh, removed_cons] at hn
      rw [hfin, hh, expired_cons] at hf
      rw [ho]
      exact h.present hc (fun h' => hn (Or.inr h')) (hf.imp (fun h' => h') fun h' hx => h' (Or.inr hx))
  · intro id d q hf hr
    have hf' := hfin.1 hf
    rcases he.delivery?_cases id with ⟨j, hj, rfl, -, -⟩ | ⟨-, ho⟩
    · exact absurd (h.finished hf') (fresh hj)
    · rw [ho] at hr; exact h.done hf' hr

theorem delivery?_of_deleteEmails (h : Held w) {p : EmailRow → Bool} {id : Uuid}
    {r : DeliveryRow × QueueRow} (hr : (w.db.deleteEmails p).delivery? id = some r) :
    w.db.delivery? id = some r := by
  rw [Db.delivery?_deleteEmails h.paired] at hr
  exact (Option.filter_eq_some_iff.1 hr).1

theorem delivery?_deleteEmails_of_not_mem (h : Held w) {p : EmailRow → Bool} {id : Uuid}
    {d : DeliveryRow} {q : QueueRow} (hr : w.db.delivery? id = some (d, q))
    (hq : q.emailId ∉ w.db.emailIds p) : (w.db.deleteEmails p).delivery? id = some (d, q) := by
  obtain ⟨e, he⟩ := Option.isSome_iff_exists.1 (Db.delivery?_email hr)
  have hp : p e = false := by
    rw [Bool.eq_false_iff]
    intro hp
    refine hq (List.mem_map.2 ⟨e, List.mem_filter.2 ⟨Table.mem_of_get? he, hp⟩, ?_⟩)
    exact Table.get?_key he
  rw [Db.delivery?_deleteEmails h.paired, hr, Option.filter_some, if_pos]
  rw [Db.get?_deleteEmails, he, Option.filter_some, hp]; rfl

/-- Retention spares an email with unfinished deliveries. -/
theorem not_mem_emailIds {p : EmailRow → Bool} (hp : ∀ e, p e → w.db.hasUnfinished e.id = false)
    {id : Uuid} {d : DeliveryRow} {q : QueueRow} (hr : w.db.delivery? id = some (d, q))
    (hu : d.status.unfinished) : q.emailId ∉ w.db.emailIds p := by
  intro hm
  obtain ⟨e, he, hid⟩ := List.mem_map.1 hm
  have := hp e (List.mem_filter.1 he).2
  rw [hid, Db.hasUnfinished_iff.2 ⟨id, d, q, hr, rfl, hu⟩] at this
  cases this

theorem Durable.delete (h : Durable w) (hw : Held w) {p : EmailRow → Bool} {o : Obs}
    (ho : o = .removed (w.db.emailIds p) ∨
      (o = .expired (w.db.emailIds p) ∧ ∀ e, p e → w.db.hasUnfinished e.id = false))
    (hdb : w'.db = w.db.deleteEmails p) (hi : w'.issued = w.issued)
    (hh : w'.hist = o :: w.hist) : Durable w' := by
  have hcom : ∀ {id emailId snapshot}, Committed w'.hist id emailId snapshot ↔
      Committed w.hist id emailId snapshot := by
    intro id emailId snapshot
    rw [hh, committed_cons]
    rcases ho with rfl | ⟨rfl, -⟩ <;> simp [Obs.commits]
  have hfin : ∀ {id}, Finished w'.hist id ↔ Finished w.hist id := by
    intro id
    rw [hh, finished_cons]
    rcases ho with rfl | ⟨rfl, -⟩ <;> simp [Obs.finishes]
  have old : ∀ {id r}, w'.db.delivery? id = some r → w.db.delivery? id = some r := by
    intro id r hr
    rw [hdb] at hr
    exact delivery?_of_deleteEmails hw hr
  constructor
  · intro id emailId snapshot hc
    rw [hi]; exact h.known (hcom.1 hc)
  · intro id hf
    rw [hi]; exact h.finished (hfin.1 hf)
  · intro id emailId snapshot d q hc hr
    exact h.email (hcom.1 hc) (old hr)
  · intro id emailId snapshot d q hc hf hr
    exact h.live (hcom.1 hc) (mt hfin.2 hf) (old hr)
  · intro id emailId snapshot hc hn hf
    rw [hcom] at hc
    rw [hfin] at hf
    rw [hh, removed_cons] at hn
    rw [hh, expired_cons] at hf
    have hf' : ¬ Finished w.hist id ∨ ¬ Expired w.hist emailId :=
      hf.imp (fun h' => h') fun h' hx => h' (Or.inr hx)
    obtain ⟨d, q, hr⟩ := h.present hc (fun h' => hn (Or.inr h')) hf'
    refine ⟨d, q, ?_⟩
    rw [hdb]
    refine delivery?_deleteEmails_of_not_mem hw hr ?_
    rcases ho with rfl | ⟨rfl, hp⟩
    · rw [h.email hc hr]
      exact fun hm => hn (Or.inl (Obs.removes_removed.2 hm))
    · rcases hf with hf | hf
      · exact not_mem_emailIds hp hr (h.live hc hf hr).1
      · rw [h.email hc hr]
        exact fun hm => hf (Or.inl (Obs.expires_expired.2 hm))
  · intro id d q hf hr
    exact h.done (hfin.1 hf) (old hr)

/-- What `FinishDelivery` makes of a row. -/
theorem finish_row {job : QueuedDelivery} {result : DeliveryResult} {next now : ℤ} {id : Uuid}
    {d : DeliveryRow} {q : QueueRow} {db : Db}
    (hr : (db.finish job result next now).delivery? id = some (d, q)) :
    ∃ d₀ q₀, db.delivery? id = some (d₀, q₀) ∧
      ((id = job.id ∧ d = d₀.setResult result now ∧ q = q₀.setNext next) ∨
        (id ≠ job.id ∧ d = d₀ ∧ q = q₀)) := by
  rw [delivery?_finish] at hr
  obtain ⟨⟨d₀, q₀⟩, hr₀, he⟩ := Option.map_eq_some_iff.1 hr
  refine ⟨d₀, q₀, hr₀, ?_⟩
  by_cases hid : id = job.id
  · rw [if_pos hid] at he; cases he; exact Or.inl ⟨hid, rfl, rfl⟩
  · rw [if_neg hid] at he; cases he; exact Or.inr ⟨hid, rfl, rfl⟩

theorem QueueRow.setNext_emailId (q : QueueRow) (next : ℤ) : (q.setNext next).emailId = q.emailId := by
  unfold QueueRow.setNext; split_ifs <;> rfl

/-- A worker's result is final with a zero due time, or pending with a real
    one, and the history tells which. -/
theorem finish_outcome {n : ℕ} {job : QueuedDelivery} {result : DeliveryResult} {next : ℤ} {o : Obs}
    (ho : Finishing rt w n job result next o) :
    (result.status.final ∧ isZero next = true ∧ o.finishes job.id) ∨
    (result.status = .pending ∧ isZero next = false ∧ ∀ id, ¬ o.finishes id) := by
  rcases ho with ⟨rfl, rfl, t, rfl⟩ | ⟨attempt, rfl, -, hs⟩
  · exact Or.inr ⟨rfl, t.not_isZero, fun _ => Bool.false_ne_true⟩
  · rcases hs.outcome with ⟨hf, hz⟩ | ⟨hp, hz⟩
    · exact Or.inl ⟨hf, hz, Obs.finishes_saved.2 ⟨rfl, hf⟩⟩
    · refine Or.inr ⟨hp, hz, fun id hx => ?_⟩
      rw [Obs.finishes_saved, hp] at hx
      cases hx.2

/-- Finishing commits nothing. -/
theorem Finishing.committed {n : ℕ} {job : QueuedDelivery} {result : DeliveryResult} {next : ℤ}
    {o : Obs} (ho : Finishing rt w n job result next o) (hh : w'.hist = o :: w.hist)
    {id emailId : Uuid} {snapshot : String} (hc : Committed w'.hist id emailId snapshot) :
    Committed w.hist id emailId snapshot := by
  rw [hh, committed_cons] at hc
  refine hc.resolve_left fun hc => ?_
  rcases ho with ⟨rfl, -⟩ | ⟨_, rfl, -⟩ <;> cases hc

theorem Durable.finish (h : Durable w) (hw : Held w) {n : ℕ} {job : QueuedDelivery}
    {result : DeliveryResult} {next now : ℤ} {o : Obs} (hj : (w.workers n).job? = some job)
    (ho : Finishing rt w n job result next o)
    (hdb : w'.db = w.db.finish job result next now) (hi : w'.issued = w.issued)
    (hh : w'.hist = o :: w.hist) : Durable w' := by
  have hfid : ∀ {id}, o.finishes id → id = job.id := by
    intro id hx
    rcases ho with ⟨rfl, -⟩ | ⟨_, rfl, -⟩
    · cases hx
    · exact (Obs.finishes_saved.1 hx).1.symm
  have hout := finish_outcome ho
  constructor
  · intro id emailId snapshot hc
    rw [hi]; exact h.known (ho.committed hh hc)
  · intro id hf
    rw [hi]
    rw [hh, finished_cons] at hf
    rcases hf with hf | hf
    · rw [hfid hf]; exact hw.known hj
    · exact h.finished hf
  · intro id emailId snapshot d q hc hr
    rw [hdb] at hr
    obtain ⟨d₀, q₀, hr₀, ⟨-, -, rfl⟩ | ⟨-, -, rfl⟩⟩ := finish_row hr
    · rw [QueueRow.setNext_emailId]; exact h.email (ho.committed hh hc) hr₀
    · exact h.email (ho.committed hh hc) hr₀
  · intro id emailId snapshot d q hc hf hr
    rw [hdb] at hr
    rw [hh, finished_cons, not_or] at hf
    obtain ⟨d₀, q₀, hr₀, ⟨rfl, rfl, rfl⟩ | ⟨-, rfl, rfl⟩⟩ := finish_row hr
    · obtain ⟨-, hs⟩ := h.live (ho.committed hh hc) hf.2 hr₀
      rcases hout with ⟨-, -, hx⟩ | ⟨hp, hz, -⟩
      · exact absurd hx hf.1
      · refine ⟨?_, ?_⟩
        · rw [DeliveryRow.setResult_status, hp]; rfl
        · simp only [QueueRow.setNext, hz, Bool.false_eq_true, if_false]; exact hs
    · exact h.live (ho.committed hh hc) hf.2 hr₀
  · intro id emailId snapshot hc hn hf
    rw [hh, removed_cons, not_or] at hn
    rw [hh, finished_cons, expired_cons, not_or, not_or] at hf
    obtain ⟨d, q, hr⟩ := h.present (ho.committed hh hc) hn.2 (hf.imp And.right And.right)
    rw [hdb, delivery?_finish, hr]
    exact ⟨_, _, rfl⟩
  · intro id d q hf hr
    rw [hdb] at hr
    rw [hh, finished_cons] at hf
    obtain ⟨d₀, q₀, hr₀, ⟨rfl, rfl, rfl⟩ | ⟨hid, rfl, rfl⟩⟩ := finish_row hr
    · rcases hout with ⟨hfin, hz, -⟩ | ⟨-, -, hx⟩
      · exact ⟨hfin, by simp only [QueueRow.setNext, hz, if_true]⟩
      · -- a finished delivery is not in progress, so it is not held
        have hfin := (h.done (hf.resolve_left (hx _)) hr₀).1
        rw [(hw.row hj hr₀).1] at hfin
        cases hfin
    · exact h.done (hf.resolve_left fun h' => hid (hfid h')) hr₀

theorem durable_effect (h : Durable w) (hw : Held w) (he : Effect rt w w') : Durable w' := by
  cases he with
  | alike os hos hh hi hd => exact h.alike hos hh hi hd
  | enqueue _ _ hi he hi' hh => exact h.enqueue hi he hi' hh
  | delete p ho hdb hi hh => exact h.delete hw ho hdb hi hh
  | finish hj ho hdb hi hh => exact h.finish hw hj ho hdb hi hh

theorem durable_of_reach (h : Reach (step rt) World.init w) : Sound rt w ∧ Durable w :=
  h.inv (I := fun w => Sound rt w ∧ Durable w) (fun _ _ _ hi hs =>
    ⟨sound_step hi.1 hs, durable_effect hi.2 hi.1.held (effect_step hi.1 hs)⟩)
    ⟨sound_init, durable_init⟩

/-! ## Finished deliveries never change -/

/-- From one state to a later one, a finished delivery stays as it is or goes
    with its email. -/
def Frozen (w w' : World) : Prop := ∀ id, Finished w.hist id →
  Finished w'.hist id ∧ (w'.db.delivery? id = w.db.delivery? id ∨ w'.db.delivery? id = none)

theorem Frozen.refl (w : World) : Frozen w w := fun _ h => ⟨h, Or.inl rfl⟩

theorem Frozen.trans {a b c : World} (h₁ : Frozen a b) (h₂ : Frozen b c) : Frozen a c := by
  intro id hf
  obtain ⟨hb, h₁'⟩ := h₁ id hf
  obtain ⟨hc, h₂'⟩ := h₂ id hb
  refine ⟨hc, ?_⟩
  rcases h₂' with h₂' | h₂'
  · rw [h₂']; exact h₁'
  · exact Or.inr h₂'

theorem frozen_effect (h : Durable w) (hw : Held w) (he : Effect rt w w') : Frozen w w' := by
  intro id hf
  cases he with
  | alike os hos hh _ hd =>
    refine ⟨by rw [hh, finished_quiet hos]; exact hf, Or.inl ?_⟩
    have := hd id
    rcases hr : w.db.delivery? id with _ | ⟨d, q⟩
    · rw [hr] at this
      cases hr' : w'.db.delivery? id with
      | none => rfl
      | some r => rw [hr'] at this; cases this
    · have hfin := DeliveryStatus.not_unfinished_of_final (h.done hf hr).1
      rw [hr] at this
      cases hr' : w'.db.delivery? id with
      | none => rw [hr'] at this; cases this
      | some r =>
        rw [hr'] at this
        cases this with
        | some ha => rw [ha.done hfin]
  | enqueue _ _ hi he _ hh =>
    refine ⟨by rw [hh, finished_cons]; exact Or.inr hf, Or.inl (he.delivery?_old fun hm => ?_)⟩
    exact hi id (List.mem_cons_of_mem _ hm) (h.finished hf)
  | delete p _ hdb _ hh =>
    refine ⟨by rw [hh, finished_cons]; exact Or.inr hf, ?_⟩
    rcases hr : w'.db.delivery? id with _ | r
    · exact Or.inr rfl
    · rw [hdb] at hr
      exact Or.inl (delivery?_of_deleteEmails hw hr).symm
  | @finish n job result next now o hj _ hdb _ hh =>
    refine ⟨by rw [hh, finished_cons]; exact Or.inr hf, Or.inl ?_⟩
    rw [hdb, delivery?_finish]
    rcases hr : w.db.delivery? id with _ | ⟨d, q⟩
    · rfl
    · have hid : id ≠ job.id := by
        rintro rfl
        have := (h.done hf hr).1
        rw [(hw.row hj hr).1] at this
        cases this
      rw [Option.map_some, if_neg hid]

/-! ## Due times -/

/-- A retry is not scheduled at the greatest `next_attempt_at`, which marks
    finished rows. -/
def Schedulable (rt : Runtime) (w : World) : Event → Prop
  | .settle n outcome now => ∀ job snap, w.workers n = .sending job snap → w.cancelled = false →
      retries snap.retry (job.attempts + 1) outcome →
      unixNano (now.time + (backoff rt snap.retry (job.attempts + 1)).toInt) ≠ maxInt64
  | _ => True

structure Scheduled (w : World) : Prop where
  rows : ∀ {id d q}, w.db.delivery? id = some (d, q) → d.status.unfinished →
    q.nextAttemptAt < maxInt64
  saving : ∀ {n job result next attempt}, w.workers n = .saving job result next attempt →
    isZero next = false → unixNano next < maxInt64

theorem unixNano_lt_of_ne {t : ℤ} (h : unixNano t ≠ maxInt64) : unixNano t < maxInt64 :=
  lt_of_le_of_ne (wrap64_le t) h

/-- The rows stay scheduled: a new due time is the one of a saving worker or a
    clock reading. -/
theorem scheduled_rows (h : Scheduled w) (hw : Held w) (he : Effect rt w w') {id : Uuid}
    {d : DeliveryRow} {q : QueueRow} (hr : w'.db.delivery? id = some (d, q))
    (hu : d.status.unfinished) : q.nextAttemptAt < maxInt64 := by
  cases he with
  | alike os _ _ _ hd =>
    have := hd id
    rw [hr] at this
    obtain ⟨⟨d₀, q₀⟩, hr₀, ha⟩ := rel_some this
    have hq : q = q₀ := ha.queue
    rw [hq]
    exact h.rows hr₀ (ha.unfinished.symm.trans hu)
  | @enqueue _ _ now _ _ _ _ he =>
    rcases he.delivery?_cases id with ⟨j, -, -, -, hn⟩ | ⟨-, ho⟩
    · rw [hn] at hr; cases hr; exact now.unixNano_lt
    · rw [ho] at hr; exact h.rows hr hu
  | delete p _ hdb =>
    rw [hdb] at hr
    exact h.rows (delivery?_of_deleteEmails hw hr) hu
  | finish hj ho hdb =>
    rw [hdb] at hr
    obtain ⟨d₀, q₀, hr₀, ⟨-, rfl, rfl⟩ | ⟨-, rfl, rfl⟩⟩ := finish_row hr
    · rcases finish_outcome ho with ⟨hf, -, -⟩ | ⟨-, hz, -⟩
      · rw [DeliveryRow.setResult_status, DeliveryStatus.not_unfinished_of_final hf] at hu
        cases hu
      · simp only [QueueRow.setNext, hz, Bool.false_eq_true, if_false]
        rcases ho with ⟨-, -, t, rfl⟩ | ⟨attempt, -, hs, -⟩
        · exact t.unixNano_lt
        · exact h.saving hs hz
    · exact h.rows hr₀ hu

theorem scheduled_saving {e : Event} (h : Scheduled w) (hp : Schedulable rt w e)
    (ht : Trans rt w e w') {n : ℕ} {job : QueuedDelivery} {result : DeliveryResult} {next : ℤ}
    {attempt : Attempt} (hw : w'.workers n = .saving job result next attempt)
    (hz : isZero next = false) : unixNano next < maxInt64 := by
  -- a worker whose phase the step sets is saving only after `refuse` and `settle`
  have other : ∀ {m : ℕ} {ph : Phase} {w₀ : World}, w₀.workers = w.workers →
      (w₀.setPhase m ph).workers n = .saving job result next attempt →
      (∀ j r x a, ph ≠ .saving j r x a) → unixNano next < maxInt64 := by
    intro m ph w₀ hw₀ hs hph
    by_cases hm : n = m
    · subst hm
      rw [World.setPhase_self] at hs
      exact absurd hs (hph _ _ _ _)
    · rw [World.setPhase_of_ne _ _ hm, hw₀] at hs
      exact h.saving hs hz
  cases ht with
  | failed | saveEmail | enqueue | drop | remove | expire | setRules | stopQueue | shutdown
  | cancel | shutdownReturn => exact h.saving hw hz
  | @startQueue workers =>
    have hw' : (if n < workers then Phase.top else .exited) = .saving job result next attempt := hw
    split_ifs at hw'
  | crash => cases hw
  | check => refine other rfl hw fun _ _ _ _ => ?_; split_ifs <;> exact nofun
  | recheck => refine other rfl hw fun _ _ _ _ => ?_; split_ifs <;> exact nofun
  | noClaim | claim | release | noRelease | save | noSave | tick | halt =>
    exact other rfl hw fun _ _ _ _ => nofun
  | send => exact other rfl hw fun _ _ _ _ => nofun
  | @refuse m _ _ _ _ hp' =>
    by_cases hm : n = m
    · subst hm
      rw [World.setPhase_self] at hw
      cases hw
      exact absurd hz (by decide)
    · rw [World.setPhase_of_ne _ _ hm] at hw
      exact h.saving hw hz
  | @settle m job' snap outcome now _ hm' =>
    by_cases hm : n = m
    · subst hm
      rw [World.setPhase_self] at hw
      rcases hs : settle rt job' snap.retry outcome w.cancelled now.time with ⟨r, x⟩
      rw [hs] at hw
      injection hw with _ _ hx _
      have hx' : x = next := hx
      subst hx'
      rcases settle_cases hs with ⟨rfl, -⟩ | ⟨rfl, -⟩ | ⟨rfl, -, -, hc, hr, -⟩
      · exact absurd hz (by decide)
      · exact now.unixNano_lt
      · exact unixNano_lt_of_ne (hp job' snap hm' hc hr)
    · rw [World.setPhase_of_ne _ _ hm] at hw
      exact h.saving hw hz

theorem scheduled_step {e : Event} (h : Scheduled w) (hs : Sound rt w) (hp : Schedulable rt w e)
    (ht : step rt w e = some w') : Scheduled w' :=
  ⟨fun hr hu => scheduled_rows h hs.held (effect_step hs ht) hr hu,
    fun hw hz => scheduled_saving h hp (step_trans ht) hw hz⟩

end

/-! ## The main result -/

/-- Every committed delivery is kept until it is finished, and is then done
    for good. -/
structure NoLoss (w : World) : Prop where
  live : ∀ id emailId snapshot, Committed w.hist id emailId snapshot → ¬ Removed w.hist emailId →
    ¬ Finished w.hist id → ∃ d q, w.db.delivery? id = some (d, q) ∧ q.emailId = emailId ∧
      (d.status = .pending ∨ d.status = .inProgress) ∧ q.snapshot = snapshot ∧
      q.nextAttemptAt < 2 ^ 63 - 1
  spared : ∀ id emailId snapshot retentionDays now fuse ids db,
    Committed w.hist id emailId snapshot → ¬ Removed w.hist emailId → ¬ Finished w.hist id →
    Tx.transaction (cleanupExpired retentionDays now) fuse w.db = (.ok ids, db) →
    emailId ∉ ids ∧ db.delivery? id = w.db.delivery? id
  done : ∀ id d q, Finished w.hist id → w.db.delivery? id = some (d, q) →
    (d.status = .success ∨ d.status = .failed ∨ d.status = .rejected ∨ d.status = .error) ∧
      q.snapshot = ""
  kept : ∀ id emailId snapshot, Committed w.hist id emailId snapshot → Finished w.hist id →
    ¬ Removed w.hist emailId → ¬ Expired w.hist emailId → ∃ d q, w.db.delivery? id = some (d, q)
  unclaimed : ∀ id now fuse job db, Finished w.hist id →
    Tx.transaction (claimDelivery now) fuse w.db = (.ok (some job), db) → job.id ≠ id

section
variable {rt : Runtime} {w w' : World}

theorem noLoss (hs : Sound rt w) (h : Durable w) (hn : Scheduled w) : NoLoss w := by
  have row : ∀ {id emailId snapshot}, Committed w.hist id emailId snapshot →
      ¬ Removed w.hist emailId → ¬ Finished w.hist id →
      ∃ d q, w.db.delivery? id = some (d, q) ∧ q.emailId = emailId ∧ d.status.unfinished ∧
        q.snapshot = snapshot := by
    intro id emailId snapshot hc hr hf
    obtain ⟨d, q, hd⟩ := h.present hc hr (Or.inl hf)
    obtain ⟨hu, hsn⟩ := h.live hc hf hd
    exact ⟨d, q, hd, h.email hc hd, hu, hsn⟩
  constructor
  · intro id emailId snapshot hc hr hf
    obtain ⟨d, q, hd, he, hu, hsn⟩ := row hc hr hf
    exact ⟨d, q, hd, he, DeliveryStatus.unfinished_iff.1 hu, hsn, hn.rows hd hu⟩
  · intro id emailId snapshot retentionDays now fuse ids db hc hr hf ht
    obtain ⟨d, q, hd, he, hu, -⟩ := row hc hr hf
    obtain ⟨_, hok⟩ := Tx.transaction_ok ht
    obtain ⟨p, hp, rfl, rfl⟩ := cleanupExpired_ok hok
    have hm := not_mem_emailIds hp hd hu
    rw [he] at hm
    exact ⟨hm, by rw [hd]; exact delivery?_deleteEmails_of_not_mem hs.held hd (he ▸ hm)⟩
  · intro id d q hf hd
    obtain ⟨hst, hsn⟩ := h.done hf hd
    exact ⟨DeliveryStatus.final_iff.1 hst, hsn⟩
  · intro id emailId snapshot hc hf hr he
    exact h.present hc hr (Or.inr he)
  · rintro id now fuse job db hf ht rfl
    obtain ⟨_, hok⟩ := Tx.transaction_ok ht
    rcases claimDelivery_ok hok with ⟨hj, -⟩ | ⟨j, hj, hc⟩
    · cases hj
    · cases hj
      obtain ⟨d, q, hd, hp, -, -⟩ := mem_dueJobs.1 hc.due
      have := (h.done hf hd).1
      rw [hp] at this
      cases this

/-- The invariant of schedulable runs. -/
structure Lossless (rt : Runtime) (w : World) : Prop where
  sound : Sound rt w
  durable : Durable w
  scheduled : Scheduled w

theorem lossless_init : Lossless rt World.init := ⟨sound_init, durable_init, ⟨nofun, nofun⟩⟩

theorem lossless_step {e : Event} (h : Lossless rt w) (hp : Schedulable rt w e)
    (ht : step rt w e = some w') : Lossless rt w' :=
  ⟨sound_step h.sound ht, durable_effect h.durable h.sound.held (effect_step h.sound ht),
    scheduled_step h.scheduled h.sound hp ht⟩

/-- **No lost and no resurrected delivery**, in every state of every run in
    which no retry is scheduled at the greatest instant. -/
theorem no_lost_delivery (rt : Runtime) (es es' : List Event) (w w' : World)
    (h : Run (step rt) (Schedulable rt) World.init es w)
    (h' : Run (step rt) (Schedulable rt) w es' w') :
    NoLoss w ∧ ∀ id, Finished w.hist id →
      w'.db.delivery? id = w.db.delivery? id ∨ w'.db.delivery? id = none := by
  have hl : Lossless rt w := h.inv (fun _ _ _ hi hp hs => lossless_step hi hp hs) lossless_init
  refine ⟨noLoss hl.sound hl.durable hl.scheduled, fun id hf => ?_⟩
  have hz : Frozen w w' := h'.rel Frozen.refl Frozen.trans
    (fun _ _ _ hi hp hs => lossless_step hi hp hs)
    (fun _ _ _ hi _ hs => frozen_effect hi.durable hi.sound.held (effect_step hi.sound hs)) hl
  exact (hz id hf).2

end

/-- A delivery that succeeds at its first attempt. -/
def sampleSuccess : List Event :=
  sampleClaim sampleText ++ [.recheck 0, .start 0, .settle 0 (.ok "thanks") (clock 300),
    .save 0 (clock 400) none]

def sampleRestart : List Event := [.crash, .startQueue 1 none]

theorem schedulable_success (rt : Runtime) : ∀ e ∈ sampleSuccess, ∀ w, Schedulable rt w e := by
  simp [sampleSuccess, sampleClaim, Schedulable, retries]

theorem schedulable_restart (rt : Runtime) : ∀ e ∈ sampleRestart, ∀ w, Schedulable rt w e := by
  simp [sampleRestart, Schedulable]

/-- The delivery is still as it was after a crash and a restart. -/
theorem no_lost_delivery_sample : ∃ w w',
    exec (step (sampleRuntime sampleText sampleSnapshot)) w sampleRestart = some w' ∧
    Finished w.hist 3 ∧ NoLoss w ∧ ∀ id, Finished w.hist id →
      w'.db.delivery? id = w.db.delivery? id ∨ w'.db.delivery? id = none := by
  have hs : ((exec (step (sampleRuntime sampleText sampleSnapshot)) World.init sampleSuccess).bind
      fun w => (exec (step (sampleRuntime sampleText sampleSnapshot)) w sampleRestart).map
        fun _ => decide (Finished w.hist 3)) = some true := by decide +kernel
  obtain ⟨w, hw, hs⟩ := Option.bind_eq_some_iff.1 hs
  obtain ⟨w', hw', hf⟩ := Option.map_eq_some_iff.1 hs
  exact ⟨w, w', hw', of_decide_eq_true hf,
    no_lost_delivery _ sampleSuccess sampleRestart w w' (Run.of_exec (schedulable_success _) hw)
      (Run.of_exec (schedulable_restart _) hw')⟩

/-! ## A lost delivery -/

/-- A rule that waits about 234 years between attempts, as the rule editor
    accepts it. -/
def farSnapshot : DeliverySnapshot :=
  ⟨⟨"alerts", ⟨"", []⟩, ⟨"", "https://hooks.example.com/a", "POST", [], "", none, none,
      some 7400000000, some 7400000000, none⟩⟩, false, "\x7b\x7d",
    ⟨1, 7400000000000000000, 7400000000000000000, 30000000000, true⟩, ""⟩

def farText : String :=
  "\x7b\"Rule\":\x7b\"name\":\"alerts\",\"match\":\x7b\x7d,\"webhook\":\x7b\"url\":" ++
  "\"https://hooks.example.com/a\",\"method\":\"POST\",\"initial_wait\":7400000000," ++
  "\"max_wait\":7400000000\x7d\x7d,\"Signed\":false,\"Payload\":\"e30=\",\"Retry\":" ++
  "\x7b\"max_retries\":1,\"initial_wait\":7400000000000000000," ++
  "\"max_wait\":7400000000000000000,\"timeout\":30000000000,\"retry_on_timeout\":true\x7d," ++
  "\"PayloadError\":\"\"\x7d"

/-- The first attempt fails at 1823372036.854775807 s (October 2027). -/
def farEvents : List Event :=
  sampleClaim farText ++ [.recheck 0, .start 0,
    .settle 0 (.error (.other "sending request: connection refused"))
      (clock 854775807 1823372036),
    .save 0 (clock 854775808 1823372036) none]

/-- **A retry scheduled at the greatest instant is lost**: it is pending, but
    no later clock reading reaches its due time. -/
theorem retry_at_sentinel : ∃ w,
    exec (step (sampleRuntime farText farSnapshot)) World.init farEvents = some w ∧ ¬ NoLoss w := by
  have hs : ((exec (step (sampleRuntime farText farSnapshot)) World.init farEvents).map fun w =>
      (decide (Committed w.hist 3 1 farText), decide (Removed w.hist 1),
        decide (Finished w.hist 3), (w.db.delivery? 3).map fun r => r.2.nextAttemptAt)) =
      some (true, false, false, some (2 ^ 63 - 1)) := by decide +kernel
  obtain ⟨w, hw, h⟩ := Option.map_eq_some_iff.1 hs
  simp only [Prod.mk.injEq, decide_eq_true_eq, decide_eq_false_iff_not] at h
  obtain ⟨hc, hr, hf, hd⟩ := h
  refine ⟨w, hw, fun hn => ?_⟩
  obtain ⟨d, q, hd', -, -, -, hlt⟩ := hn.live 3 1 farText hc hr hf
  rw [hd', Option.map_some] at hd
  exact absurd hlt (by rw [Option.some.inj hd]; decide)

end Mailrelay
