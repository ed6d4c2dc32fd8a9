/-
  What one step can do.

  `Trans rt w e w'` lists the possible effects of an event: for each store
  call, what it committed (in the terms of `Enqueued`, `Claimed`, `Db.finish`
  and `Db.deleteEmails`), or that it failed and changed nothing.  Invariants
  are proved by cases on `Trans` and never unfold `step`.

  * `step_trans`: every step is one of them.
-/
import Mailrelay.System.World

namespace Mailrelay

open Lib

/-- The state after a started worker's step. -/
inductive Trans (rt : Runtime) (w : World) : Event → World → Prop
  /-- a store call of another user of the store failed -/
  | failed {e} (ids : List Uuid) : Trans rt w e { w with issued := ids ++ w.issued }
  | saveEmail {record fuse db} : record.id ∉ w.issued →
      Db.insertEmail { record with deliveryBatch := none } w.db = .ok db →
      Trans rt w (.saveEmail record fuse) { w with db := db, issued := record.id :: w.issued }
  | enqueue {emailId batch : Uuid} {now fuse db} {jobs : List (Uuid × QueuedDelivery)} :
      jobs ≠ [] → (batch :: jobs.map Prod.fst).Nodup →
      (∀ id ∈ batch :: jobs.map Prod.fst, id ∉ w.issued) →
      Enqueued w.db emailId batch jobs (Now.time now) db →
      Trans rt w (.enqueue emailId batch jobs now fuse)
        ({ w with db := db, issued := (batch :: jobs.map Prod.fst) ++ w.issued }.observe
          (.enqueued emailId batch jobs))
  | drop {emailId fuse db} : updateEmailStatus emailId .dropped (w.db, none) = .ok ((), db, none) →
      Trans rt w (.drop emailId fuse) ({ w with db := db }.observe (.dropped emailId))
  | remove {e} (p : EmailRow → Bool) : Trans rt w e
      ({ w with db := w.db.deleteEmails p }.observe (.removed (w.db.emailIds p)))
  | expire {e} (p : EmailRow → Bool) : (∀ e, p e → w.db.hasUnfinished e.id = false) →
      Trans rt w e ({ w with db := w.db.deleteEmails p }.observe (.expired (w.db.emailIds p)))
  | setRules {rules} : Trans rt w (.setRules rules) { w with rules := rules }
  | startQueue {workers fuse db fuse'} : w.up = false →
      recoverDeliveries (w.db, fuse) = .ok ((), db, fuse') →
      Trans rt w (.startQueue workers fuse) ({ w with
        db := db, up := true, count := workers
        workers := fun n => if n < workers then .top else .exited
        stop := false, cancelled := false, shutdown := .idle }.observe .started)
  | crash : Trans rt w .crash { w with
      up := false, count := 0, workers := fun _ => .exited, stop := false, cancelled := false
      shutdown := .idle, hist := w.lost ++ w.hist }
  | stopQueue : w.up → Trans rt w .stopQueue { w with stop := true }
  | shutdown : w.up → w.shutdown = .idle →
      Trans rt w .shutdown { w with stop := true, shutdown := .called }
  | cancel : w.shutdown = .called → Trans rt w .expire { w with cancelled := true }
  | shutdownReturn : w.shutdown = .called → (∀ n < w.count, w.workers n = .exited) →
      Trans rt w .shutdownReturn { w with cancelled := true, shutdown := .returned }
  | check {n} : n < w.count → w.workers n = .top → Trans rt w (.check n)
      ((w.observe (.checked n w.stop)).setPhase n (if w.stop then .exited else .claiming))
  | noClaim {n now fuse} : n < w.count → w.workers n = .claiming →
      Trans rt w (.claim n now fuse) (w.setPhase n .waiting)
  | claim {n now fuse job db} : n < w.count → w.workers n = .claiming →
      Claimed w.db (Now.time now) job db → Trans rt w (.claim n now fuse)
        (({ w with db := db }.observe (.claimed n job)).setPhase n (.rechecking job))
  | recheck {n job} : n < w.count → w.workers n = .rechecking job → Trans rt w (.recheck n)
      ((w.observe (.checked n w.stop)).setPhase n (if w.stop then .releasing job else .running job))
  | release {n job next now fuse} : n < w.count → w.workers n = .releasing job →
      Trans rt w (.release n next now fuse)
        (({ w with db := w.db.finish job (releaseResult job) (Now.time next) (Now.time now) }.observe
          (.released job)).setPhase n .exited)
  | noRelease {n job next now fuse} : n < w.count → w.workers n = .releasing job →
      Trans rt w (.release n next now fuse)
        ((w.observe (.unreleased job)).setPhase n .exited)
  | refuse {n job result} : n < w.count → w.workers n = .running job →
      prepare rt w.rules job = .error result →
      Trans rt w (.start n) (w.setPhase n (.saving job result zeroTime .unsent))
  | send {n job snap} : n < w.count → w.workers n = .running job →
      prepare rt w.rules job = .ok snap →
      Trans rt w (.start n) ((w.observe (.sent n job.id)).setPhase n (.sending job snap))
  | settle {n job snap outcome now} : n < w.count → w.workers n = .sending job snap →
      Trans rt w (.settle n outcome now) (w.setPhase n (.saving job
        (settle rt job snap.retry outcome w.cancelled (Now.time now)).1
        (settle rt job snap.retry outcome w.cancelled (Now.time now)).2
        (.of outcome w.cancelled)))
  | save {n job result next attempt now fuse} : n < w.count →
      w.workers n = .saving job result next attempt → Trans rt w (.save n now fuse)
        (({ w with db := w.db.finish job result next (Now.time now) }.observe
          (.saved job result next attempt)).setPhase n .top)
  | noSave {n job result next attempt now fuse} : n < w.count →
      w.workers n = .saving job result next attempt →
      Trans rt w (.save n now fuse) ((w.observe (.unsaved job attempt)).setPhase n .top)
  | tick {n} : n < w.count → w.workers n = .waiting →
      Trans rt w (.wait n true) (w.setPhase n .top)
  | halt {n} : n < w.count → w.workers n = .waiting → w.stop →
      Trans rt w (.wait n false) ((w.observe (.checked n true)).setPhase n .exited)

section
variable {rt : Runtime} {w w' : World}

theorem workerStep_trans {n : ℕ} {e : Event} (hn : n < w.count) (he : e.worker? = some n)
    (h : workerStep rt w n e (w.workers n) = some w') : Trans rt w e w' := by
  unfold workerStep at h
  split at h
  next hw => cases he; cases h; exact .check hn hw
  next now fuse hw =>
    cases he
    split at h
    next job db ht =>
      cases h
      obtain ⟨fuse', hok⟩ := Tx.transaction_ok ht
      rcases claimDelivery_ok hok with ⟨hj, -⟩ | ⟨j, hj, hc⟩
      · cases hj
      · cases hj; exact .claim hn hw hc
    next => cases h; exact .noClaim hn hw
  next job hw => cases he; cases h; exact .recheck hn hw
  next next now fuse job hw =>
    cases he
    split at h
    next db ht =>
      cases h
      obtain ⟨fuse', hok⟩ := Tx.transaction_ok ht
      obtain rfl := finishDelivery_ok hok
      exact .release hn hw
    next => cases h; exact .noRelease hn hw
  next job hw =>
    cases he
    split at h
    next result hp => cases h; exact .refuse hn hw hp
    next snap hp => cases h; exact .send hn hw hp
  next outcome now job snap hw =>
    cases he
    cases h
    exact .settle hn hw
  next now fuse job result next attempt hw =>
    cases he
    split at h
    next db ht =>
      cases h
      obtain ⟨fuse', hok⟩ := Tx.transaction_ok ht
      obtain rfl := finishDelivery_ok hok
      exact .save hn hw
    next => cases h; exact .noSave hn hw
  next tick hw =>
    cases he
    split_ifs at h with ht hs
    · cases h; subst ht; exact .tick hn hw
    · cases h
      rw [Bool.not_eq_true] at ht
      subst ht
      exact .halt hn hw hs
  next => cases h

theorem cleanupExpired_ok {retentionDays now : ℤ} {db db' : Db} {fuse fuse' : Option ℕ}
    {ids : List Uuid} (h : cleanupExpired retentionDays now (db, fuse) = .ok (ids, db', fuse')) :
    ∃ p : EmailRow → Bool, (∀ e, p e → db.hasUnfinished e.id = false) ∧ ids = db.emailIds p ∧
      db' = db.deleteEmails p := by
  unfold cleanupExpired at h
  split_ifs at h with hd
  · obtain ⟨rfl, hs⟩ := Tx.pure_ok.1 h
    cases hs
    exact ⟨fun _ => false, fun _ h => (Bool.false_ne_true h).elim, by simp [Db.emailIds],
      db.deleteEmails_none.symm⟩
  · obtain ⟨ids', ⟨db₁, f₁⟩, h₁, h'⟩ := Tx.bind_ok.1 h
    obtain ⟨_, ⟨db₂, f₂⟩, h₂, h₃⟩ := Tx.bind_ok.1 h'
    obtain ⟨hids, rfl⟩ := Tx.query_ok h₁
    obtain rfl := Except.ok.inj (Tx.stmt_ok h₂)
    obtain ⟨rfl, hs⟩ := Tx.pure_ok.1 h₃
    cases hs
    refine ⟨_, fun e he => ?_, hids, rfl⟩
    simp only [Bool.and_eq_true, Bool.not_eq_true'] at he
    exact he.2

/-- **Every step is a listed transition.** -/
theorem step_trans {e : Event} (h : step rt w e = some w') : Trans rt w e w' := by
  unfold step at h
  split at h
  next record fuse =>
    split_ifs at h with hi
    cases h
    rcases ht : Tx.transaction (saveEmail record) fuse w.db with ⟨err | _, db⟩
    · obtain rfl := Tx.transaction_error ht
      exact .failed [record.id]
    · obtain ⟨fuse', hok⟩ := Tx.transaction_ok ht
      exact .saveEmail hi (Tx.stmt_ok hok)
  next emailId batch jobs now fuse =>
    dsimp only at h
    split_ifs at h with hi
    simp only [not_or, not_not, not_exists, not_and] at hi
    split at h
    next db ht =>
      cases h
      obtain ⟨fuse', hok⟩ := Tx.transaction_ok ht
      exact .enqueue hi.1 hi.2.1 hi.2.2 (enqueueDeliveries_ok hok)
    next => cases h; exact .failed _
  next emailId fuse =>
    split at h
    next db ht =>
      cases h
      obtain ⟨fuse', hok⟩ := Tx.transaction_ok ht
      obtain rfl := Except.ok.inj (Tx.stmt_ok hok)
      exact .drop rfl
    next => cases h; exact .failed []
  next emailId fuse =>
    split at h
    next db ht =>
      cases h
      obtain ⟨fuse', hok⟩ := Tx.transaction_ok ht
      obtain rfl := Except.ok.inj (Tx.stmt_ok hok)
      exact .remove _
    next => cases h; exact .failed []
  next fuse =>
    split at h
    next db ht =>
      cases h
      obtain ⟨fuse', hok⟩ := Tx.transaction_ok ht
      obtain rfl := Except.ok.inj (Tx.stmt_ok hok)
      exact .remove _
    next => cases h; exact .failed []
  next retentionDays now fuse =>
    split at h
    next ids db ht =>
      cases h
      obtain ⟨fuse', hok⟩ := Tx.transaction_ok ht
      obtain ⟨p, hp, rfl, rfl⟩ := cleanupExpired_ok hok
      exact .expire p hp
    next => cases h; exact .failed []
  next => cases h; exact .setRules
  next workers fuse =>
    split_ifs at h with hi
    simp only [not_or, Bool.not_eq_true] at hi
    split at h
    next db ht =>
      cases h
      obtain ⟨fuse', hok⟩ := Tx.transaction_ok ht
      exact .startQueue hi.1 hok
    next => cases h; exact .failed []
  next => cases h; exact .crash
  next => split_ifs at h with hu; cases h; exact .stopQueue hu
  next => split_ifs at h with hu; cases h; exact .shutdown hu.1 hu.2
  next => split_ifs at h with hu; cases h; exact .cancel hu
  next => split_ifs at h with hu; cases h; exact .shutdownReturn hu.1 hu.2
  next =>
    split at h
    next n he =>
      split_ifs at h with hn
      exact workerStep_trans hn he h
    next => cases h

end

end Mailrelay
