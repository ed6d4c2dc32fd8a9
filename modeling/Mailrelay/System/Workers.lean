/-
  A delivery is worked on by at most one worker.

  `FinishDelivery` updates by id, with no check of status or owner.  What makes
  this safe is `Held`: a delivery held by a worker is held by no other, and its
  row, if it still exists, is in progress and has the values that were claimed.

  * `held_trans`, `held_of_reach`: every step keeps `Held`;
  * `one_worker_per_delivery`: the main result.
-/
import Mailrelay.System.Trans

namespace Mailrelay

open Lib

section
variable {rt : Runtime} {w w' : World} {n : ℕ}

@[simp] theorem World.setPhase_hist (w : World) (n : ℕ) (ph : Phase) :
    (w.setPhase n ph).hist = w.hist := rfl

@[simp] theorem World.setPhase_self (w : World) (n : ℕ) (ph : Phase) :
    (w.setPhase n ph).workers n = ph := Function.update_self ..

theorem World.setPhase_of_ne (w : World) {m : ℕ} (ph : Phase) (h : m ≠ n) :
    (w.setPhase n ph).workers m = w.workers m := Function.update_of_ne h ..

/-- The link between what workers hold and what the database says. -/
structure Held (w : World) : Prop where
  paired : w.db.Paired
  issued : ∀ {id r}, w.db.delivery? id = some r → id ∈ w.issued
  known : ∀ {n job}, (w.workers n).job? = some job → job.id ∈ w.issued
  unique : ∀ {m n job job'}, (w.workers m).job? = some job → (w.workers n).job? = some job' →
    job.id = job'.id → m = n
  row : ∀ {n job d q}, (w.workers n).job? = some job → w.db.delivery? job.id = some (d, q) →
    d.status = .inProgress ∧ job = toJob d q
  down : w.up = false → ∀ n, w.workers n = .exited

theorem held_init : Held World.init where
  paired := Db.paired_empty
  issued := nofun
  known := nofun
  unique := nofun
  row := nofun
  down := fun _ _ => rfl

/-! ## What each kind of step does to it -/

/-- A step that changes no delivery and hands none to a worker. -/
theorem Held.frame (h : Held w) (hp : w'.db.Paired)
    (hd : ∀ id, w'.db.delivery? id = w.db.delivery? id) (hi : w.issued ⊆ w'.issued)
    (hw : ∀ m job, (w'.workers m).job? = some job → (w.workers m).job? = some job)
    (hu : w'.up = false → ∀ n, w'.workers n = .exited) : Held w' where
  paired := hp
  issued := fun hr => by rw [hd] at hr; exact hi (h.issued hr)
  known := fun hj => hi (h.known (hw _ _ hj))
  unique := fun hm hn he => h.unique (hw _ _ hm) (hw _ _ hn) he
  row := fun hj hr => by rw [hd] at hr; exact h.row (hw _ _ hj) hr
  down := hu

theorem job?_setPhase {ph : Phase} {m : ℕ} {job : QueuedDelivery}
    (hj : ((w.setPhase n ph).workers m).job? = some job) :
    (m = n ∧ ph.job? = some job) ∨ (m ≠ n ∧ (w.workers m).job? = some job) := by
  by_cases hm : m = n
  · subst hm; rw [World.setPhase_self] at hj; exact Or.inl ⟨rfl, hj⟩
  · rw [World.setPhase_of_ne w ph hm] at hj; exact Or.inr ⟨hm, hj⟩

theorem Held.up_of_worker (h : Held w) (hw : w.workers n ≠ .exited) : w.up = true := by
  rcases hu : w.up with _ | _
  · exact absurd (h.down hu n) hw
  · rfl

/-- A worker that takes a step without touching the store. -/
theorem Held.setPhase (h : Held w) {ph : Phase} (hw : w.workers n ≠ .exited) (os : List Obs)
    (hj : ∀ job, ph.job? = some job → (w.workers n).job? = some job) :
    Held ({ w with hist := os }.setPhase n ph) := by
  refine h.frame h.paired (fun _ => rfl) (fun _ => id)
    (fun m job hm => ?_) fun hu => ?_
  · rcases job?_setPhase hm with ⟨rfl, hph⟩ | ⟨-, hold⟩
    · exact hj job hph
    · exact hold
  · rw [show _ = w.up from rfl, h.up_of_worker hw] at hu
    cases hu

theorem Held.claim (h : Held w) {now : ℤ} {job : QueuedDelivery} {db : Db}
    (hw : w.workers n = .claiming) (hc : Claimed w.db now job db) :
    Held (({ w with db := db }.observe (.claimed n job)).setPhase n (.rechecking job)) := by
  obtain ⟨d, q, hr, hs, -, hjob⟩ := mem_dueJobs.1 hc.due
  have hdb := hc.db'
  subst hdb
  -- a pending delivery is held by nobody
  have hfree : ∀ {m job'}, (w.workers m).job? = some job' → job'.id ≠ job.id := by
    intro m job' hj he
    rw [← he] at hr
    rw [(h.row hj hr).1] at hs
    cases hs
  constructor
  · exact h.paired.setInProgress
  · intro id r hr'
    have hr'' : (w.db.setInProgress job.id now).delivery? id = some r := hr'
    rw [delivery?_setInProgress, Option.map_eq_some_iff] at hr''
    obtain ⟨r₀, hr₀, -⟩ := hr''
    exact h.issued hr₀
  · intro m job' hj
    rcases job?_setPhase hj with ⟨-, hj'⟩ | ⟨-, hj'⟩
    · cases hj'; exact h.issued hr
    · exact h.known hj'
  · intro m m' job₁ job₂ h₁ h₂ he
    rcases job?_setPhase h₁ with ⟨rfl, h₁'⟩ | ⟨-, h₁'⟩ <;>
      rcases job?_setPhase h₂ with ⟨rfl, h₂'⟩ | ⟨-, h₂'⟩
    · rfl
    · cases h₁'; exact absurd he.symm (hfree h₂')
    · cases h₂'; exact absurd he (hfree h₁')
    · exact h.unique h₁' h₂' he
  · intro m job' d' q' hj hr'
    have hr'' : (w.db.setInProgress job.id now).delivery? job'.id = some (d', q') := hr'
    rw [delivery?_setInProgress] at hr''
    rcases job?_setPhase hj with ⟨-, hj'⟩ | ⟨-, hj'⟩
    · cases hj'
      rw [hr, Option.map_some, if_pos rfl] at hr''
      cases hr''
      exact ⟨rfl, hjob⟩
    · obtain ⟨⟨d₀, q₀⟩, hr₀, he⟩ := Option.map_eq_some_iff.1 hr''
      rw [if_neg (hfree hj')] at he
      cases he
      exact h.row hj' hr₀
  · intro hu
    have := h.up_of_worker (by rw [hw]; nofun)
    rw [show _ = w.up from rfl, this] at hu
    cases hu

theorem Held.finish (h : Held w) {job : QueuedDelivery} {result : DeliveryResult} {next now : ℤ}
    {ph : Phase} (hw : (w.workers n).job? = some job) (hph : ph.job? = none) (o : Obs) :
    Held (({ w with db := w.db.finish job result next now }.observe o).setPhase n ph) := by
  have hold : ∀ {m job'}, ((({ w with db := w.db.finish job result next now }.observe o).setPhase
      n ph).workers m).job? = some job' → (w.workers m).job? = some job' ∧ m ≠ n := by
    intro m job' hj
    rcases job?_setPhase hj with ⟨-, hj'⟩ | ⟨hm, hj'⟩
    · rw [hph] at hj'; cases hj'
    · exact ⟨hj', hm⟩
  constructor
  · exact h.paired.finish
  · intro id r hr
    have hr' : (w.db.finish job result next now).delivery? id = some r := hr
    rw [delivery?_finish, Option.map_eq_some_iff] at hr'
    obtain ⟨r₀, hr₀, -⟩ := hr'
    exact h.issued hr₀
  · exact fun hj => h.known (hold hj).1
  · exact fun h₁ h₂ he => h.unique (hold h₁).1 (hold h₂).1 he
  · intro m job' d' q' hj hr
    obtain ⟨hj', hm⟩ := hold hj
    have hr' : (w.db.finish job result next now).delivery? job'.id = some (d', q') := hr
    rw [delivery?_finish] at hr'
    obtain ⟨⟨d₀, q₀⟩, hr₀, he⟩ := Option.map_eq_some_iff.1 hr'
    rw [if_neg fun hid => hm (h.unique hj' hw hid)] at he
    cases he
    exact h.row hj' hr₀
  · intro hu
    have := h.up_of_worker (by intro he; rw [he] at hw; cases hw)
    rw [show _ = w.up from rfl, this] at hu
    cases hu

theorem Held.enqueue (h : Held w) {emailId batch : Uuid} {jobs : List (Uuid × QueuedDelivery)}
    {now : ℤ} {db : Db} (hi : ∀ id ∈ batch :: jobs.map Prod.fst, id ∉ w.issued)
    (he : Enqueued w.db emailId batch jobs now db) (o : Obs) :
    Held ({ w with db := db, issued := (batch :: jobs.map Prod.fst) ++ w.issued }.observe o) := by
  constructor
  · exact he.paired h.paired
  · intro id r hr
    rcases he.delivery?_cases id with ⟨j, hj, rfl, -, -⟩ | ⟨-, hold⟩
    · exact List.mem_append_left _ (List.mem_cons_of_mem _ (List.mem_map_of_mem hj))
    · have hr' : db.delivery? id = some r := hr
      rw [hold] at hr'
      exact List.mem_append_right _ (h.issued hr')
  · exact fun hj => List.mem_append_right _ (h.known hj)
  · exact fun h₁ h₂ he => h.unique h₁ h₂ he
  · intro m job d q hj hr
    have hr' : db.delivery? job.id = some (d, q) := hr
    rcases he.delivery?_cases job.id with ⟨j, hmem, hid, -, -⟩ | ⟨-, hold⟩
    · exact absurd (h.known hj)
        (hi _ (List.mem_cons_of_mem _ (hid ▸ List.mem_map_of_mem hmem)))
    · rw [hold] at hr'
      exact h.row hj hr'
  · exact h.down

theorem Held.delete (h : Held w) (p : EmailRow → Bool) (o : Obs) :
    Held ({ w with db := w.db.deleteEmails p }.observe o) := by
  have hold : ∀ {id r}, (w.db.deleteEmails p).delivery? id = some r → w.db.delivery? id = some r := by
    intro id r hr
    rw [Db.delivery?_deleteEmails h.paired] at hr
    exact (Option.filter_eq_some_iff.1 hr).1
  exact ⟨h.paired.deleteEmails p, fun hr => h.issued (hold hr), h.known, h.unique,
    fun hj hr => h.row hj (hold hr), h.down⟩

/-- **Every step keeps `Held`.** -/
theorem held_trans {e : Event} (h : Held w) (ht : Trans rt w e w') : Held w' := by
  have local_ : ∀ {n : ℕ} {ph : Phase} (os : List Obs), w.workers n ≠ .exited →
      (∀ job, ph.job? = some job → (w.workers n).job? = some job) →
      Held ({ w with hist := os }.setPhase n ph) := fun os hw hj => h.setPhase hw os hj
  cases ht with
  | failed ids =>
    exact h.frame h.paired (fun _ => rfl) (fun _ hi => List.mem_append_right _ hi) (fun _ _ => id)
      h.down
  | saveEmail hi hins =>
    obtain ⟨-, hd, hq, -⟩ := insertEmail_ok hins
    exact h.frame (h.paired.congr hd hq) (fun _ => Db.delivery?_congr hd hq)
      (fun _ hi => List.mem_cons_of_mem _ hi) (fun _ _ => id) h.down
  | enqueue _ _ hi he => exact h.enqueue hi he _
  | drop hd =>
    cases hd
    exact h.frame h.paired.updateEmails (fun _ => rfl) (fun _ => id) (fun _ _ => id) h.down
  | remove p => exact h.delete p _
  | expire p _ => exact h.delete p _
  | setRules => exact h.frame h.paired (fun _ => rfl) (fun _ => id) (fun _ _ => id) h.down
  | @startQueue workers _ _ _ hu hrec =>
    obtain ⟨-, -, hp, hd⟩ := recoverDeliveries_ok hrec
    have hidle : ∀ {m job}, (if m < workers then Phase.top else .exited).job? ≠ some job := by
      intro m job; split_ifs <;> exact nofun
    refine ⟨hp h.paired, fun {id r} hr => ?_, fun hj => (hidle hj).elim,
      fun hj => (hidle hj).elim, fun hj => (hidle hj).elim, nofun⟩
    have hr' := (hd id).symm.trans hr
    obtain ⟨r₀, hr₀, -⟩ := Option.map_eq_some_iff.1 hr'
    exact h.issued hr₀
  | crash => exact h.frame h.paired (fun _ => rfl) (fun _ => id) nofun fun _ _ => rfl
  | stopQueue | shutdown | cancel | shutdownReturn =>
    exact h.frame h.paired (fun _ => rfl) (fun _ => id) (fun _ _ => id) h.down
  | check _ hw => exact local_ _ (by rw [hw]; nofun) (by intro job; split_ifs <;> exact nofun)
  | noClaim _ hw => exact local_ _ (by rw [hw]; nofun) nofun
  | claim _ hw hc => exact h.claim hw hc
  | recheck _ hw =>
    exact local_ _ (by rw [hw]; nofun) (by rw [hw]; intro job; split_ifs <;> exact id)
  | release _ hw => exact h.finish (by rw [hw]; rfl) rfl _
  | noRelease _ hw => exact local_ _ (by rw [hw]; nofun) nofun
  | refuse _ hw => exact local_ _ (by rw [hw]; nofun) (by rw [hw]; exact fun _ => id)
  | send _ hw => exact local_ _ (by rw [hw]; nofun) (by rw [hw]; exact fun _ => id)
  | settle _ hw => exact local_ _ (by rw [hw]; nofun) (by rw [hw]; exact fun _ => id)
  | save _ hw => exact h.finish (by rw [hw]; rfl) rfl _
  | noSave _ hw => exact local_ _ (by rw [hw]; nofun) nofun
  | tick _ hw => exact local_ _ (by rw [hw]; nofun) nofun
  | halt _ hw => exact local_ _ (by rw [hw]; nofun) nofun

theorem held_of_reach (h : Reach (step rt) World.init w) : Held w :=
  h.inv (fun _ _ _ hi hs => held_trans hi (step_trans hs)) held_init

/-! ## At most one worker -/

/-- No two workers hold one delivery, a held delivery is in progress, and
    finishing a delivery whose email is gone changes no row. -/
structure Exclusive (w : World) : Prop where
  one : ∀ m n job job', (w.workers m).job? = some job → (w.workers n).job? = some job' →
    job.id = job'.id → m = n
  inProgress : ∀ n job d, (w.workers n).job? = some job → w.db.deliveries.get? job.id = some d →
    d.status = .inProgress
  gone : ∀ n job result next now fuse, (w.workers n).job? = some job →
    w.db.emails.get? job.emailId = none →
    (Tx.transaction (finishDelivery job result next now) fuse w.db).2 = w.db

/-- The rows of a held delivery go with its email. -/
theorem Held.gone (h : Held w) {job : QueuedDelivery} (hj : (w.workers n).job? = some job)
    (he : w.db.emails.get? job.emailId = none) :
    w.db.deliveries.get? job.id = none ∧ w.db.queue.get? job.id = none := by
  rcases hr : w.db.delivery? job.id with _ | ⟨d, q⟩
  · rcases hd : w.db.deliveries.get? job.id with _ | d
    · refine ⟨rfl, Option.eq_none_iff_forall_ne_some.2 fun q hq => ?_⟩
      have := w.db.queueDelivery q (Table.mem_of_get? hq)
      rw [show q.deliveryId = job.id from Table.get?_key hq, hd] at this
      cases this
    · obtain ⟨q, hq⟩ := h.paired.queued hd
      rw [Db.delivery?_eq_some.2 ⟨hd, hq⟩] at hr
      cases hr
  · have hs := Db.delivery?_email hr
    rw [(h.row hj hr).2] at he
    rw [show w.db.emails.get? q.emailId = none from he] at hs
    cases hs

theorem Held.exclusive (h : Held w) : Exclusive w where
  one := fun _ _ _ _ => h.unique
  inProgress := fun n job d hj hd => by
    obtain ⟨q, hq⟩ := h.paired.queued hd
    exact (h.row hj (Db.delivery?_eq_some.2 ⟨hd, hq⟩)).1
  gone := fun n job result next now fuse hj he => by
    obtain ⟨hd, hq⟩ := h.gone hj he
    rcases ht : Tx.transaction (finishDelivery job result next now) fuse w.db with ⟨e | _, db⟩
    · exact Tx.transaction_error ht
    · obtain ⟨_, hok⟩ := Tx.transaction_ok ht
      exact (finishDelivery_ok hok).trans (finish_of_gone hd hq he)

/-- **A delivery is worked on by at most one worker**, in every reachable
    state. -/
theorem one_worker_per_delivery (rt : Runtime) (w : World)
    (h : Reach (step rt) World.init w) : Exclusive w :=
  (held_of_reach h).exclusive

end

/-! ## A sample run -/

section

/-- An email with one delivery, two workers, and a claim by the first. -/
def sampleClaim (text : String) : List Event :=
  [.saveEmail ⟨1, 0, "a@example.com", ["b@example.org"], "a@example.com", ["b@example.org"],
      "hello", .received, "", none, none⟩ none,
    .enqueue 1 2 [(3, ⟨0, 0, "alerts", text, 0, 0⟩)] (clock 100) none,
    .startQueue 2 none, .check 0, .check 1, .claim 0 (clock 200) none]

/-- The first worker holds the delivery of a reachable state. -/
theorem one_worker_per_delivery_sample : ∃ w, Exclusive w ∧ (w.workers 0).job?.isSome := by
  have hs : ((exec (step (sampleRuntime sampleText sampleSnapshot)) World.init
      (sampleClaim sampleText)).map fun w => (w.workers 0).job?.isSome) = some true := rfl
  obtain ⟨w, hw, hj⟩ := Option.map_eq_some_iff.1 hs
  exact ⟨w, one_worker_per_delivery _ w (Reach.of_exec hw), hj⟩

end

end Mailrelay
