/-
  Giving back a claimed delivery (`work` in `internal/webhook/queue.go`).

  A worker that finds the stop channel closed after a claim releases it with
  `FinishDelivery`, which writes the columns of a result.

  * `row_after_release`, `release_frame`: what a release writes;
  * `release_restores_iff`: when the delivery is as it was before the claim.
-/
import Mailrelay.System.Attempts

namespace Mailrelay

open Lib

/-! ## The rows -/

/-- The row records no result of an attempt. -/
def DeliveryRow.Blank (d : DeliveryRow) : Prop :=
  d.statusCode = 0 ∧ d.errorMessage = "" ∧ d.responseBody = ""

instance (d : DeliveryRow) : Decidable d.Blank := inferInstanceAs (Decidable (_ ∧ _ ∧ _))

/-- A delivery is as before but for two columns, and due; no other row has
    changed. -/
structure Restored (db db' : Db) (id : Uuid) (now : ℤ) : Prop where
  row : ∃ d q d' q', db.delivery? id = some (d, q) ∧ db'.delivery? id = some (d', q') ∧
    d' = { d with updatedAt := d'.updatedAt } ∧ q' = { q with nextAttemptAt := q'.nextAttemptAt }
  due : ∃ job ∈ dueJobs now db', job.id = id
  deliveries : ∀ id' ≠ id, db'.deliveries.get? id' = db.deliveries.get? id'
  queue : ∀ id' ≠ id, db'.queue.get? id' = db.queue.get? id'
  emails : db'.emails = db.emails

section
variable {db db₁ : Db} {job : QueuedDelivery} {now now' next : ℤ}

/-- The release of a claimed delivery. -/
def Db.release (job : QueuedDelivery) (next now : ℤ) (db : Db) : Db :=
  db.finish job (releaseResult job) next now

/-- **What a release writes to the delivery.** -/
theorem row_after_release (hc : Claimed db now job db₁) (hz : isZero next = false) (now' : ℤ) :
    ∃ d q, db.delivery? job.id = some (d, q) ∧ d.status = .pending ∧ q.emailId = job.emailId ∧
      (db₁.release job next now').delivery? job.id = some
        ({ d with statusCode := 0, errorMessage := "", responseBody := "", updatedAt := now' },
          { q with nextAttemptAt := unixNano next }) := by
  obtain ⟨d, q, hrow, hpending, -, hjob⟩ := mem_dueJobs.1 hc.due
  refine ⟨d, q, hrow, hpending, by rw [hjob]; rfl, ?_⟩
  have hattempts : job.attempts = d.attempts := by rw [hjob]; rfl
  rw [Db.release, delivery?_finish, hc.db', delivery?_setInProgress, hrow]
  simp only [Option.map_some, if_true, DeliveryRow.setResult, releaseResult, QueueRow.setNext, hz,
    hattempts, Bool.false_eq_true, if_false, hpending]

theorem get?_setInProgress_of_ne {id id' : Uuid} (h : id' ≠ id) :
    (db.setInProgress id now).deliveries.get? id' = db.deliveries.get? id' := by
  refine (Db.get?_updateDeliveries id').trans (Table.map_get?_of_ne fun d hd he => ?_)
  exact h (he.symm.trans (beq_iff_eq.1 hd))

theorem get?_setResult_of_ne {id id' : Uuid} (h : id' ≠ id) (r : DeliveryResult) :
    (db.setResult id r now).deliveries.get? id' = db.deliveries.get? id' := by
  refine (Db.get?_updateDeliveries id').trans (Table.map_get?_of_ne fun d hd he => ?_)
  exact h (he.symm.trans (beq_iff_eq.1 hd))

theorem get?_setNext_of_ne {id id' : Uuid} (h : id' ≠ id) :
    (db.setNext id next).queue.get? id' = db.queue.get? id' := by
  refine (Db.get?_updateQueue id').trans (Table.map_get?_of_ne fun q hq he => ?_)
  exact h (he.symm.trans (beq_iff_eq.1 hq))

/-- **A release changes no other row.** -/
theorem release_frame (hc : Claimed db now job db₁) (hz : isZero next = false) (now' : ℤ) :
    (∀ id ≠ job.id, (db₁.release job next now').deliveries.get? id = db.deliveries.get? id) ∧
      (∀ id ≠ job.id, (db₁.release job next now').queue.get? id = db.queue.get? id) ∧
        (db₁.release job next now').emails = db.emails := by
  obtain ⟨d, q, -, hpending, hemail, hrow⟩ := row_after_release hc hz now'
  have hdb := hc.db'
  subst hdb
  refine ⟨fun id hid => ?_, fun id hid => ?_, ?_⟩
  · show ((db.setInProgress job.id now).setResult job.id (releaseResult job) now').deliveries.get? id = _
    rw [get?_setResult_of_ne hid, get?_setInProgress_of_ne hid]
  · show (db.setNext job.id next).queue.get? id = _
    rw [get?_setNext_of_ne hid]
  · -- the released delivery is unfinished, so that its email is left alone
    apply Table.ext
    apply Table.map_rows_of_not
    intro e _
    rw [Bool.and_eq_false_iff]
    by_cases he : e.id = job.emailId
    · right
      rw [Bool.not_eq_false', Db.hasUnfinished_iff]
      exact ⟨job.id, _, _, hrow, hemail.trans he.symm, by rw [hpending]; rfl⟩
    · exact .inl (beq_false_of_ne he)

/-- **A release restores the delivery** exactly if no result was recorded. -/
theorem restored_iff (hc : Claimed db now job db₁) (hz : isZero next = false) :
    Restored db (db₁.release job next now') job.id next ↔
      ∀ d, db.deliveries.get? job.id = some d → d.Blank := by
  obtain ⟨d, q, hrow, hpending, -, hrow'⟩ := row_after_release hc hz now'
  obtain ⟨hdeliveries, hqueue, hemails⟩ := release_frame hc hz now'
  have hget := (Db.delivery?_eq_some.1 hrow).1
  constructor
  · intro h d' hd'
    obtain rfl : d = d' := Option.some.inj (hget.symm.trans hd')
    obtain ⟨d₁, q₁, d₂, q₂, hrow₁, hrow₂, hd, -⟩ := h.row
    cases hrow.symm.trans hrow₁
    cases hrow'.symm.trans hrow₂
    injection hd with _ _ _ _ hcode herror hbody
    exact ⟨hcode.symm, herror.symm, hbody.symm⟩
  · intro h
    obtain ⟨hcode, herror, hbody⟩ := h d hget
    refine ⟨⟨d, q, _, _, hrow, hrow', ?_, rfl⟩, ?_, hdeliveries, hqueue, hemails⟩
    · simp only [hcode, herror, hbody]
    · have hid := (Db.delivery?_id hrow').1
      exact ⟨toJob _ _, mem_dueJobs.2 ⟨_, _, (congrArg _ hid).trans hrow', hpending, le_refl _, rfl⟩, hid⟩

end

/-! ## The worker -/

/-- The events that stop the queue. -/
def Event.stops : Event → Bool
  | stopQueue | shutdown | expire => true
  | _ => false

/-- Worker `n` claims a delivery and, finding the stop channel closed, releases
    it at `next`. -/
def ReleasesClaim (rt : Runtime) (n : ℕ) (job : QueuedDelivery) (next : Now) (w w' : World) : Prop :=
  ∃ (now now' : Now) (fuse fuse' : Option ℕ) (es : List Event), (∀ e ∈ es, e.stops) ∧
    exec (step rt) w (.claim n now fuse :: (es ++ [.recheck n, .release n next now' fuse'])) = some w' ∧
      w'.hist.head? = some (.released job)

section
variable {rt : Runtime} {w w' : World} {n : ℕ} {job : QueuedDelivery} {now now' next : Now}
  {fuse : Option ℕ}

theorem step_stops {e : Event} (he : e.stops) (h : step rt w e = some w') :
    w'.db = w.db ∧ w'.workers = w.workers := by
  cases e with
  | stopQueue | shutdown | expire =>
    simp only [step] at h
    split_ifs at h
    cases h
    exact ⟨rfl, rfl⟩
  | _ => cases he

theorem exec_stops {es : List Event} (hes : ∀ e ∈ es, e.stops) (h : exec (step rt) w es = some w') :
    w'.db = w.db ∧ w'.workers = w.workers := by
  induction es generalizing w with
  | nil =>
    cases h
    exact ⟨rfl, rfl⟩
  | cons e es ih =>
    obtain ⟨w₁, h₁, h⟩ := Option.bind_eq_some_iff.1 h
    obtain ⟨hdb, hworkers⟩ := step_stops (hes e List.mem_cons_self) h₁
    obtain ⟨hdb', hworkers'⟩ := ih (fun e he => hes e (List.mem_cons_of_mem _ he)) h
    exact ⟨hdb'.trans hdb, hworkers'.trans hworkers⟩

/-- A worker whose claim brought something holds it. -/
theorem step_claim (h : step rt w (.claim n now fuse) = some w') :
    w'.workers n = .waiting ∨
      ∃ job, Claimed w.db now.time job w'.db ∧ w'.workers n = .rechecking job := by
  simp only [step, Event.worker?] at h
  split_ifs at h
  cases hph : w.workers n with
  | claiming =>
    simp only [hph, workerStep] at h
    split at h
    · rename_i job db ht
      obtain ⟨fuse', hok⟩ := Tx.transaction_ok ht
      obtain ⟨⟨⟩, -⟩ | ⟨_, ⟨⟩, hc⟩ := claimDelivery_ok hok
      cases h
      exact .inr ⟨job, hc, by simp [World.setPhase]⟩
    · cases h
      exact .inl (by simp [World.setPhase])
  | _ => simp [hph, workerStep] at h

/-- Only a worker that holds a delivery rechecks. -/
theorem step_recheck (h : step rt w (.recheck n) = some w') :
    w'.db = w.db ∧ ∃ job, w.workers n = .rechecking job ∧
      w'.workers n = if w.stop then .releasing job else .running job := by
  simp only [step, Event.worker?] at h
  split_ifs at h
  cases hph : w.workers n with
  | rechecking job =>
    simp only [hph, workerStep] at h
    cases h
    exact ⟨rfl, job, rfl, by simp [World.setPhase, World.observe]⟩
  | _ => simp [hph, workerStep] at h

/-- A release that is committed. -/
theorem step_release (h : step rt w (.release n next now' fuse) = some w')
    (hhist : w'.hist.head? = some (.released job)) :
    w.workers n = .releasing job ∧ w'.db = w.db.release job next.time now'.time := by
  simp only [step, Event.worker?] at h
  split_ifs at h
  cases hph : w.workers n with
  | releasing job' =>
    simp only [hph, workerStep] at h
    split at h
    · rename_i db ht
      obtain ⟨fuse', hok⟩ := Tx.transaction_ok ht
      cases h
      cases hhist
      exact ⟨rfl, finishDelivery_ok hok⟩
    · cases h
      cases hhist
  | _ => simp [hph, workerStep] at h

theorem ReleasesClaim.release (h : ReleasesClaim rt n job next w w') :
    ∃ (now now' : Now) (db₁ : Db), Claimed w.db now.time job db₁ ∧
      w'.db = db₁.release job next.time now'.time := by
  obtain ⟨now, now', fuse, fuse', es, hes, hexec, hhist⟩ := h
  obtain ⟨w₁, h₁, hexec⟩ := Option.bind_eq_some_iff.1 hexec
  rw [exec_append] at hexec
  obtain ⟨w₂, h₂, hexec⟩ := Option.bind_eq_some_iff.1 hexec
  obtain ⟨w₃, h₃, hexec⟩ := Option.bind_eq_some_iff.1 hexec
  obtain ⟨w₄, h₄, hexec⟩ := Option.bind_eq_some_iff.1 hexec
  cases hexec
  obtain ⟨hdb₂, hworkers₂⟩ := exec_stops hes h₂
  obtain ⟨hdb₃, job', hph₂, hph₃⟩ := step_recheck h₃
  obtain ⟨hph, hdb₄⟩ := step_release h₄ hhist
  obtain rfl : job' = job := by
    rw [hph₃] at hph
    split_ifs at hph
    cases hph
    rfl
  rw [hworkers₂] at hph₂
  rcases step_claim h₁ with hwaiting | ⟨job₁, hc, hph₁⟩
  · rw [hwaiting] at hph₂
    cases hph₂
  · rw [hph₁] at hph₂
    cases hph₂
    exact ⟨now, now', w₁.db, hc, by rw [hdb₄, hdb₃, hdb₂]⟩

/-! ## The result -/

/-- **An unsent delivery is restored** exactly if its row records no result of
    an earlier attempt. -/
theorem release_restores_iff (h : ReleasesClaim rt n job next w w') :
    Restored w.db w'.db job.id next.time ↔ ∀ d, w.db.deliveries.get? job.id = some d → d.Blank := by
  obtain ⟨now, now', db₁, hc, hdb⟩ := h.release
  rw [hdb]
  exact restored_iff hc next.not_isZero

end

/-- A delivery is given back before its first attempt. -/
def sampleRelease (t : Now) : List Event := [.shutdown, .recheck 0, .release 0 t t none]

theorem release_restores_iff_first : ∃ w w' job,
    ReleasesClaim (sampleRuntime sampleText sampleSnapshot) 0 job (clock 300) w w' ∧
      Restored w.db w'.db job.id (clock 300).time := by
  have hs : ((exec (step (sampleRuntime sampleText sampleSnapshot)) World.init
      (sampleClaim sampleText).dropLast).bind fun w =>
        (exec (step (sampleRuntime sampleText sampleSnapshot)) w
          (.claim 0 (clock 200) none :: sampleRelease (clock 300))).map fun w' =>
            (w'.hist.head?, (w.db.deliveries.get? 3).map fun d => decide d.Blank)) =
      some (some (.released ⟨3, 1, "alerts", sampleText, 0, 100⟩), some true) := by decide +kernel
  obtain ⟨w, -, hs⟩ := Option.bind_eq_some_iff.1 hs
  obtain ⟨w', hw', hs⟩ := Option.map_eq_some_iff.1 hs
  obtain ⟨hhist, hblank⟩ := Prod.mk.inj hs
  obtain ⟨d, hd, hblank⟩ := Option.map_eq_some_iff.1 hblank
  have hreleases : ReleasesClaim (sampleRuntime sampleText sampleSnapshot) 0
      ⟨3, 1, "alerts", sampleText, 0, 100⟩ (clock 300) w w' :=
    ⟨clock 200, clock 300, none, none, [.shutdown], by simp [Event.stops], hw', hhist⟩
  refine ⟨w, w', _, hreleases, (release_restores_iff hreleases).2 fun d' hd' => ?_⟩
  cases hd.symm.trans hd'
  exact of_decide_eq_true hblank

/-- What a receiver answered to the first attempt is gone. -/
theorem release_erases_result : ¬∀ (rt : Runtime) (w w' : World) (n : ℕ) (job : QueuedDelivery)
    (next : Now),
    Reach (step rt) World.init w → ReleasesClaim rt n job next w w' →
      Restored w.db w'.db job.id next.time := by
  intro h
  have hs : ((exec (step (sampleRuntime sampleText sampleSnapshot)) World.init
      (sampleRetry ++ [.check 0])).bind fun w =>
        (exec (step (sampleRuntime sampleText sampleSnapshot)) w
          (.claim 0 (clock 0 10) none :: sampleRelease (clock 0 11))).map fun w' =>
            (w'.hist.head?, (w.db.delivery? 3).map fun r => r.1.statusCode,
              (w'.db.delivery? 3).map fun r => r.1.statusCode)) =
      some (some (.released ⟨3, 1, "alerts", sampleText, 1, 1000000300⟩), some 503, some 0) := by
    decide +kernel
  obtain ⟨w, hw, hs⟩ := Option.bind_eq_some_iff.1 hs
  obtain ⟨w', hw', hs⟩ := Option.map_eq_some_iff.1 hs
  obtain ⟨hhist, hcodes⟩ := Prod.mk.inj hs
  obtain ⟨hbefore, hafter⟩ := Prod.mk.inj hcodes
  have hreleases : ReleasesClaim (sampleRuntime sampleText sampleSnapshot) 0
      ⟨3, 1, "alerts", sampleText, 1, 1000000300⟩ (clock 0 11) w w' :=
    ⟨clock 0 10, clock 0 11, none, none, [.shutdown], by simp [Event.stops], hw', hhist⟩
  obtain ⟨d, q, d', q', hrow, hrow', hd, -⟩ := (h _ w w' 0 _ _ (Reach.of_exec hw) hreleases).row
  simp only [hrow, hrow', Option.map_some, Option.some.injEq] at hbefore hafter
  rw [hd, hbefore] at hafter
  cases hafter

end Mailrelay
