/-
  A graceful shutdown leaves the queue clean.

  The stop signal and the cancellation can fall between any two actions of any
  worker.  `current` is the part of the history that belongs to this process.
  `Stops` says what implies that the stop channel is closed, `Tidy` where the
  deliveries of this process are, and `Checked` that a request follows an open
  check.

  * `stops_trans`, `tidy_trans`, `checked_trans`: every step keeps them;
  * `shutdown_is_clean`: the main result.
-/
import Mailrelay.System.Status

namespace Mailrelay

open Lib

/-! ## The history of this process -/

/-- The observations since the last `StartQueue`. -/
def current (hist : List Obs) : List Obs := hist.takeWhile (· != .started)

namespace Obs

/-- A delivery given back because of the stop signal or the cancellation. -/
def parks : Obs → Option QueuedDelivery
  | released job | saved job _ _ .cancelled => some job
  | _ => none

/-- A result that could not be saved. -/
def fails : Obs → Bool
  | unsaved .. | unreleased _ => true
  | _ => false

def checkOf (n : ℕ) : Obs → Option Bool
  | checked m closed => if m = n then some closed else none
  | _ => none

end Obs

/-- What worker `n` saw at its last check of the stop channel. -/
def lastCheck (n : ℕ) (hist : List Obs) : Option Bool := hist.findSome? (Obs.checkOf n)

theorem current_cons {o : Obs} (h : o ≠ .started) (hist : List Obs) :
    current (o :: hist) = o :: current hist := by
  rw [current, List.takeWhile_cons_of_pos (by simpa using h)]
  rfl

@[simp] theorem lastCheck_cons (n : ℕ) (o : Obs) (hist : List Obs) :
    lastCheck n (o :: hist) = (o.checkOf n).or (lastCheck n hist) := by
  rw [lastCheck, List.findSome?_cons]
  rcases o.checkOf n with _ | c <;> rfl

/-! ## The stop channel -/

namespace Phase

/-- The delivery of a worker between its claim and its second check, or about
    to release it. -/
def leaving? : Phase → Option QueuedDelivery
  | rechecking job | releasing job => some job
  | _ => none

/-- Control points that are only reached once the stop channel is closed. -/
def stopping : Phase → Bool
  | releasing _ | saving _ _ _ .cancelled => true
  | _ => false

end Phase

structure Stops (w : World) : Prop where
  cancelled : w.cancelled → w.stop
  shutdown : w.shutdown ≠ .idle → w.up ∧ w.stop
  phase : ∀ n, (w.workers n).stopping → w.stop
  parked : w.up → ∀ o ∈ current w.hist, o.parks.isSome → w.stop
  returned : w.shutdown = .returned → ∀ n < w.count, w.workers n = .exited
  beyond : ∀ n, w.count ≤ n → w.workers n = .exited

section
variable {rt : Runtime} {w w' : World} {n : ℕ}

theorem stops_init : Stops World.init :=
  ⟨nofun, fun h => (h rfl).elim, nofun, nofun, nofun, fun _ _ => rfl⟩

/-- A step outside the workers that leaves the stop channel alone. -/
theorem Stops.frame (h : Stops w) {os : List Obs} {db : Db} {issued : List Uuid} {rules : List Rule}
    (hos : ∀ o ∈ current os, o.parks.isSome → o ∈ current w.hist) :
    Stops { w with db := db, issued := issued, rules := rules, hist := os } :=
  ⟨h.cancelled, h.shutdown, h.phase, fun hu o ho hp => h.parked hu o (hos o ho hp) hp, h.returned,
    h.beyond⟩

/-- A worker's step. -/
theorem Stops.setPhase (h : Stops w) {ph : Phase} {os : List Obs} {db : Db} (hn : n < w.count)
    (hw : w.workers n ≠ .exited) (hph : ph.stopping → w.stop)
    (hos : ∀ o ∈ current os, o.parks.isSome → o ∈ current w.hist ∨ w.stop) :
    Stops ({ w with db := db, hist := os }.setPhase n ph) := by
  refine ⟨h.cancelled, h.shutdown, fun m hm => ?_, fun hu o ho hp => ?_, fun hr => ?_, fun m hm => ?_⟩
  · by_cases hmn : m = n
    · subst hmn; rw [World.setPhase_self] at hm; exact hph hm
    · rw [World.setPhase_of_ne _ _ hmn] at hm; exact h.phase m hm
  · rcases hos o ho hp with ho | hs
    · exact h.parked hu o ho hp
    · exact hs
  · exact absurd (h.returned hr n hn) hw
  · have hmn : m ≠ n := by
      intro he
      have : w.count ≤ m := hm
      omega
    rw [World.setPhase_of_ne _ _ hmn]
    exact h.beyond m hm

theorem mem_current_cons {o o' : Obs} {hist : List Obs} (ho : o.parks = none)
    (h : o' ∈ current (o :: hist)) (hp : o'.parks.isSome) : o' ∈ current hist := by
  by_cases hs : o = .started
  · subst hs; cases h
  · rw [current_cons hs] at h
    rcases List.mem_cons.1 h with rfl | h
    · rw [ho] at hp; cases hp
    · exact h

theorem stops_trans {e : Event} (h : Stops w) (ht : Trans rt w e w') : Stops w' := by
  have one : ∀ {o : Obs}, o.parks = none → ∀ o' ∈ current (o :: w.hist), o'.parks.isSome →
      o' ∈ current w.hist ∨ w.stop := fun ho o' h' hp => Or.inl (mem_current_cons ho h' hp)
  cases ht with
  | failed | saveEmail | setRules => exact h.frame fun o ho _ => ho
  | enqueue | drop | remove | expire => exact h.frame fun o ho hp => mem_current_cons rfl ho hp
  | @startQueue workers =>
    refine ⟨nofun, fun hi => (hi rfl).elim, fun m hm => ?_, fun _ o ho => ?_, nofun, fun m hm => ?_⟩
    · have hm' : (if m < workers then Phase.top else .exited).stopping = true := hm
      split_ifs at hm' <;> cases hm'
    · cases ho
    · exact if_neg (Nat.not_lt.2 hm)
  | crash =>
    exact ⟨nofun, fun hi => (hi rfl).elim, nofun, nofun, nofun, fun _ _ => rfl⟩
  | stopQueue hu =>
    exact ⟨fun _ => rfl, fun _ => ⟨hu, rfl⟩, fun _ _ => rfl, fun _ _ _ _ => rfl, h.returned, h.beyond⟩
  | shutdown hu =>
    exact ⟨fun _ => rfl, fun _ => ⟨hu, rfl⟩, fun _ _ => rfl, fun _ _ _ _ => rfl, nofun, h.beyond⟩
  | cancel hc =>
    have hs := h.shutdown (by rw [hc]; nofun)
    exact ⟨fun _ => hs.2, h.shutdown, h.phase, h.parked, h.returned, h.beyond⟩
  | shutdownReturn hc hx =>
    have hs := h.shutdown (by rw [hc]; nofun)
    exact ⟨fun _ => hs.2, fun _ => hs, h.phase, h.parked, fun _ => hx, h.beyond⟩
  | check hn hw => exact h.setPhase hn (by rw [hw]; nofun) (by split_ifs <;> exact nofun) (one rfl)
  | noClaim hn hw | tick hn hw =>
    exact h.setPhase hn (by rw [hw]; nofun) nofun fun o ho _ => Or.inl ho
  | claim hn hw => exact h.setPhase hn (by rw [hw]; nofun) nofun (one rfl)
  | recheck hn hw =>
    refine h.setPhase hn (by rw [hw]; nofun) ?_ (one rfl)
    split_ifs with hs
    · exact fun _ => hs
    · exact nofun
  | release hn hw =>
    have hs := h.phase _ (show (w.workers _).stopping by rw [hw]; rfl)
    exact h.setPhase hn (by rw [hw]; nofun) nofun fun _ _ _ => Or.inr hs
  | noRelease hn hw | noSave hn hw | halt hn hw =>
    exact h.setPhase hn (by rw [hw]; nofun) nofun (one rfl)
  | refuse hn hw =>
    exact h.setPhase hn (by rw [hw]; nofun) nofun fun o ho _ => Or.inl ho
  | send hn hw => exact h.setPhase hn (by rw [hw]; nofun) nofun (one rfl)
  | @settle n job snap outcome now hn hw =>
    refine h.setPhase hn (by rw [hw]; nofun) (fun hp => ?_) fun o ho _ => Or.inl ho
    rcases hc : w.cancelled with _ | _
    · rw [hc] at hp
      rcases outcome with e | r <;> cases hp
    · exact h.cancelled hc
  | @save n job result next attempt now fuse hn hw =>
    refine h.setPhase hn (by rw [hw]; nofun) nofun fun o ho hp => ?_
    cases attempt with
    | unsent | completed => exact Or.inl (mem_current_cons rfl ho hp)
    | cancelled => exact Or.inr (h.phase n (by rw [hw]; rfl))

end

/-! ## The deliveries of this process -/

/-- A delivery that was given back is pending as it was claimed, unless a
    worker on its way out holds it again, or its email is gone. -/
structure Parked (w : World) (job : QueuedDelivery) : Prop where
  claimed : ∃ n, .claimed n job ∈ current w.hist
  email : job.emailId ∈ w.issued
  row : (w.db.emails.get? job.emailId).isSome → ∃ d q, w.db.delivery? job.id = some (d, q) ∧
    q.emailId = job.emailId ∧ d.attempts = job.attempts ∧ q.snapshot = job.snapshot ∧
    (d.status = .pending ∨ ∃ n job', (w.workers n).leaving? = some job' ∧ job'.id = job.id)

structure Tidy (w : World) : Prop where
  claimed : ∀ {n job}, (w.workers n).job? = some job → .claimed n job ∈ current w.hist
  owned : ∀ {id d q}, w.db.delivery? id = some (d, q) → d.status = .inProgress →
    ∃ n job, (w.workers n).job? = some job ∧ job.id = id
  parked : ∀ {o job}, o ∈ current w.hist → o.parks = some job → Parked w job

/-- The queue is started and every result so far was saved. -/
def Smooth (w : World) : Prop := w.up ∧ ∀ o ∈ current w.hist, ¬ o.fails

section
variable {rt : Runtime} {w w' : World} {n : ℕ}

theorem Phase.job?_of_leaving {ph : Phase} {job : QueuedDelivery} (h : ph.leaving? = some job) :
    ph.job? = some job := by
  cases ph <;> first | exact h | cases h

theorem Smooth.of_cons (w : World) {o : Obs} (hu : w.up)
    (h : ∀ o' ∈ current (o :: w.hist), ¬ o'.fails) (hs : o ≠ .started) : ¬ o.fails ∧ Smooth w := by
  rw [current_cons hs] at h
  exact ⟨h o List.mem_cons_self, hu, fun o' ho => h o' (List.mem_cons_of_mem _ ho)⟩

/-- What a step has to keep of a delivery that was given back. -/
theorem Parked.mono {job : QueuedDelivery} (h : Parked w job)
    (hc : ∀ {n}, .claimed n job ∈ current w.hist → .claimed n job ∈ current w'.hist)
    (hi : w.issued ⊆ w'.issued)
    (he : (w'.db.emails.get? job.emailId).isSome → (w.db.emails.get? job.emailId).isSome)
    (hr : ∀ {d q}, (w'.db.emails.get? job.emailId).isSome → w.db.delivery? job.id = some (d, q) →
      q.emailId = job.emailId →
      (d.status = .pending ∨ ∃ n job', (w.workers n).leaving? = some job' ∧ job'.id = job.id) →
      ∃ d' q', w'.db.delivery? job.id = some (d', q') ∧ q'.emailId = q.emailId ∧
        d'.attempts = d.attempts ∧ q'.snapshot = q.snapshot ∧ (d'.status = .pending ∨
          ∃ n job', (w'.workers n).leaving? = some job' ∧ job'.id = job.id)) : Parked w' job := by
  obtain ⟨n, hn⟩ := h.claimed
  refine ⟨⟨n, hc hn⟩, hi h.email, fun hs => ?_⟩
  obtain ⟨d, q, hrow, hem, ha, hsn, hst⟩ := h.row (he hs)
  obtain ⟨d', q', hrow', hem', ha', hsn', hst'⟩ := hr hs hrow hem hst
  exact ⟨d', q', hrow', hem'.trans hem, ha'.trans ha, hsn'.trans hsn, hst'⟩

/-- A step that keeps the rows of all deliveries, what workers hold and who is
    leaving. -/
theorem Tidy.frame (h : Tidy w) (hi : w.issued ⊆ w'.issued)
    (hc : ∀ {o}, o ∈ current w.hist → o ∈ current w'.hist)
    (hp : ∀ {o}, o ∈ current w'.hist → o.parks.isSome → o ∈ current w.hist)
    (he : ∀ emailId, emailId ∈ w.issued → (w'.db.emails.get? emailId).isSome →
      (w.db.emails.get? emailId).isSome)
    (hd : ∀ id, w'.db.delivery? id = w.db.delivery? id)
    (hj : ∀ m job, (w'.workers m).job? = some job ↔ (w.workers m).job? = some job)
    (hl : ∀ m job, (w.workers m).leaving? = some job → (∃ o ∈ current w.hist, o.parks.isSome) →
      (w'.workers m).leaving? = some job) : Tidy w' := by
  refine ⟨fun hm => hc (h.claimed ((hj _ _).1 hm)), fun hr hs => ?_, fun {o job} ho hpo => ?_⟩
  · rw [hd] at hr
    obtain ⟨m, job, hm, hid⟩ := h.owned hr hs
    exact ⟨m, job, (hj m job).2 hm, hid⟩
  · have ho' := hp ho (by rw [hpo]; rfl)
    have hpk := h.parked ho' hpo
    refine hpk.mono hc hi (he _ hpk.email) fun {d q} _ hr _ hst =>
      ⟨d, q, by rw [hd]; exact hr, rfl, rfl, rfl, ?_⟩
    rcases hst with hst | ⟨m, job', hm, hid⟩
    · exact Or.inl hst
    · exact Or.inr ⟨m, job', hl m job' hm ⟨o, ho', by rw [hpo]; rfl⟩, hid⟩

/-- A worker's step that keeps the store and its delivery. -/
theorem Tidy.setPhase (h : Tidy w) {ph : Phase} {os : List Obs}
    (hc : ∀ {o}, o ∈ current w.hist → o ∈ current os)
    (hp : ∀ {o}, o ∈ current os → o.parks.isSome → o ∈ current w.hist)
    (hj : ph.job? = (w.workers n).job?)
    (hl : ∀ job, (w.workers n).leaving? = some job → (∃ o ∈ current w.hist, o.parks.isSome) →
      ph.leaving? = some job) : Tidy ({ w with hist := os }.setPhase n ph) := by
  refine h.frame (fun _ => id) hc hp (fun _ _ => id) (fun _ => rfl) (fun m job => ?_) fun m job => ?_
  · by_cases hm : m = n
    · subst hm; rw [World.setPhase_self, hj]
    · rw [World.setPhase_of_ne _ _ hm]
  · by_cases hm : m = n
    · subst hm; rw [World.setPhase_self]; exact hl job
    · rw [World.setPhase_of_ne _ _ hm]; exact fun h _ => h

theorem Tidy.enqueue (h : Tidy w) {emailId batch : Uuid}
    {jobs : List (Uuid × QueuedDelivery)} {now : ℤ} {db : Db} {ids : List Uuid}
    (he : Enqueued w.db emailId batch jobs now db) (hi : w.issued ⊆ ids) :
    Tidy ({ w with db := db, issued := ids }.observe (.enqueued emailId batch jobs)) := by
  have hcur := current_cons (o := .enqueued emailId batch jobs) nofun w.hist
  refine ⟨fun hj => ?_, fun {id d q} hr hs => ?_, fun {o job} ho hp => ?_⟩
  · rw [World.observe, hcur]
    exact List.mem_cons_of_mem _ (h.claimed hj)
  · have hr' : db.delivery? id = some (d, q) := hr
    rcases he.delivery?_cases id with ⟨j, -, -, -, hnew⟩ | ⟨-, hold⟩
    · rw [hnew] at hr'; cases hr'; cases hs
    · rw [hold] at hr'; exact h.owned hr' hs
  · have hpk := h.parked (mem_current_cons rfl ho (by rw [hp]; rfl)) hp
    refine hpk.mono (fun hc => ?_) hi (fun hs => ?_) fun {d q} _ hr _ hst => ?_
    · rw [World.observe, hcur]; exact List.mem_cons_of_mem _ hc
    · have hs' : (db.emails.get? job.emailId).isSome := hs
      rw [he.emails, Table.get?_update, Option.isSome_map] at hs'
      exact hs'
    · rcases he.delivery?_cases job.id with ⟨j, -, -, hnone, -⟩ | ⟨-, hold⟩
      · rw [hnone] at hr; cases hr
      · exact ⟨d, q, hold.trans hr, rfl, rfl, rfl, hst⟩

theorem Tidy.delete (h : Tidy w) (hw : Held w) (p : EmailRow → Bool) {o : Obs} (hs : o ≠ .started)
    (hp : o.parks = none) : Tidy ({ w with db := w.db.deleteEmails p }.observe o) := by
  have hcur := current_cons hs w.hist
  refine ⟨fun hj => ?_, fun {id d q} hr hst => ?_, fun {o' job} ho hp' => ?_⟩
  · rw [World.observe, hcur]; exact List.mem_cons_of_mem _ (h.claimed hj)
  · exact h.owned (delivery?_of_deleteEmails hw hr) hst
  · have hpk := h.parked (mem_current_cons hp ho (by rw [hp']; rfl)) hp'
    refine hpk.mono (fun hc => ?_) (fun _ => id) (fun he => ?_) fun {d q} he hr hq hst => ?_
    · rw [World.observe, hcur]; exact List.mem_cons_of_mem _ hc
    · have he' : ((w.db.deleteEmails p).emails.get? job.emailId).isSome := he
      rw [Db.get?_deleteEmails] at he'
      obtain ⟨e, he''⟩ := Option.isSome_iff_exists.1 he'
      exact Option.isSome_iff_exists.2 ⟨e, (Option.filter_eq_some_iff.1 he'').1⟩
    · refine ⟨d, q, ?_, rfl, rfl, rfl, hst⟩
      show (w.db.deleteEmails p).delivery? job.id = some (d, q)
      rw [Db.delivery?_deleteEmails hw.paired, hr, Option.filter_some, if_pos (by rw [hq]; exact he)]

theorem Tidy.claim (h : Tidy w) {now : ℤ} {job : QueuedDelivery} {db : Db}
    (hn : w.workers n = .claiming) (hc : Claimed w.db now job db) :
    Tidy (({ w with db := db }.observe (.claimed n job)).setPhase n (.rechecking job)) := by
  have hcur := current_cons (o := .claimed n job) nofun w.hist
  have hdb := hc.db'
  subst hdb
  refine ⟨fun {m job'} hj => ?_, fun {id d q} hr hs => ?_, fun {o job'} ho hp => ?_⟩
  · rw [World.setPhase_hist, World.observe, hcur]
    rcases job?_setPhase hj with ⟨rfl, hj'⟩ | ⟨-, hj'⟩
    · cases hj'; exact List.mem_cons_self
    · exact List.mem_cons_of_mem _ (h.claimed hj')
  · by_cases hid : id = job.id
    · exact ⟨n, job, by rw [World.setPhase_self]; rfl, hid.symm⟩
    · have hr' : (w.db.setInProgress job.id now).delivery? id = some (d, q) := hr
      rw [delivery?_setInProgress] at hr'
      simp only [hid, if_false, Option.map_id'] at hr'
      obtain ⟨m, job', hj, hid'⟩ := h.owned hr' hs
      have hm : m ≠ n := by rintro rfl; rw [hn] at hj; cases hj
      exact ⟨m, job', by rw [World.setPhase_of_ne _ _ hm]; exact hj, hid'⟩
  · have hpk := h.parked (mem_current_cons rfl ho (by rw [hp]; rfl)) hp
    refine hpk.mono (fun hc => ?_) (fun _ => id) id fun {d q} _ hr _ hst => ?_
    · rw [World.setPhase_hist, World.observe, hcur]; exact List.mem_cons_of_mem _ hc
    · show ∃ d' q', (w.db.setInProgress job.id now).delivery? job'.id = some (d', q') ∧ _
      rw [delivery?_setInProgress, hr, Option.map_some]
      by_cases hid : job'.id = job.id
      · rw [if_pos hid]
        exact ⟨_, _, rfl, rfl, rfl, rfl, Or.inr ⟨n, job, by rw [World.setPhase_self]; rfl, hid.symm⟩⟩
      · rw [if_neg hid]
        refine ⟨d, q, rfl, rfl, rfl, rfl, ?_⟩
        rcases hst with hst | ⟨m, job'', hm, hid'⟩
        · exact Or.inl hst
        · have hmn : m ≠ n := by rintro rfl; rw [hn] at hm; cases hm
          exact Or.inr ⟨m, job'', by rw [World.setPhase_of_ne _ _ hmn]; exact hm, hid'⟩

/-- A `FinishDelivery` that gives the delivery back as it was claimed. -/
def GivesBack (job : QueuedDelivery) (result : DeliveryResult) (next : ℤ) : Prop :=
  result.status = .pending ∧ result.attempts = job.attempts ∧ isZero next = false

theorem finish_givesBack (hw : Held w) {job : QueuedDelivery} {result : DeliveryResult}
    {next now : ℤ} {d : DeliveryRow} {q : QueueRow} (hj : (w.workers n).job? = some job)
    (hg : GivesBack job result next) (hr : w.db.delivery? job.id = some (d, q)) :
    ∃ d' q', (w.db.finish job result next now).delivery? job.id = some (d', q') ∧
      q'.emailId = q.emailId ∧ d'.attempts = d.attempts ∧ q'.snapshot = q.snapshot ∧
      d'.status = .pending := by
  obtain ⟨hs, ha, hz⟩ := hg
  have hjob := (hw.row hj hr).2
  refine ⟨_, _, by rw [delivery?_finish, hr, Option.map_some, if_pos rfl],
    q.setNext_emailId next, ?_, ?_, ?_⟩
  · rw [DeliveryRow.setResult_attempts, ha, hjob]; rfl
  · rw [QueueRow.setNext, hz]; rfl
  · rw [DeliveryRow.setResult_status, hs]

theorem Tidy.finish (h : Tidy w) (hw : Held w) (ha : Anchored w) {job : QueuedDelivery}
    {result : DeliveryResult} {next now : ℤ} {ph : Phase} {o : Obs}
    (hj : (w.workers n).job? = some job) (hph : ph.job? = none) (hs : o ≠ .started)
    (hst : result.status ≠ .inProgress)
    (hl : (w.workers n).leaving?.isSome → GivesBack job result next)
    (ho : ∀ job', o.parks = some job' → job' = job ∧ GivesBack job result next) :
    Tidy (({ w with db := w.db.finish job result next now }.observe o).setPhase n ph) := by
  have hcur := current_cons hs w.hist
  -- what another worker holds is not this delivery
  have other : ∀ {m job'}, (w.workers m).job? = some job' → job'.id ≠ job.id → m ≠ n := by
    rintro m job' hm hid rfl
    rw [hj] at hm; cases hm; exact hid rfl
  refine ⟨fun {m job'} hm => ?_, fun {id d q} hr hp => ?_, fun {o' job'} ho' hp => ?_⟩
  · rw [World.setPhase_hist, World.observe, hcur]
    rcases job?_setPhase hm with ⟨-, hm'⟩ | ⟨-, hm'⟩
    · rw [hph] at hm'; cases hm'
    · exact List.mem_cons_of_mem _ (h.claimed hm')
  · obtain ⟨d₀, q₀, hr₀, ⟨-, rfl, -⟩ | ⟨hid, rfl, rfl⟩⟩ := finish_row hr
    · exact absurd hp hst
    · obtain ⟨m, job', hm, rfl⟩ := h.owned hr₀ hp
      exact ⟨m, job', by rw [World.setPhase_of_ne _ _ (other hm hid)]; exact hm, rfl⟩
  · have hmem : o' ∈ o :: current w.hist := by rw [← hcur]; exact ho'
    rcases List.mem_cons.1 hmem with rfl | hold
    · -- the delivery given back now
      obtain ⟨rfl, hg⟩ := ho job' hp
      refine ⟨⟨n, ?_⟩, ha.job hj, fun he => ?_⟩
      · rw [World.setPhase_hist, World.observe, hcur]; exact List.mem_cons_of_mem _ (h.claimed hj)
      · have he' : ((w.db.finish job' result next now).emails.get? job'.emailId).isSome := he
        rw [get?_finish, Option.isSome_map] at he'
        obtain ⟨⟨d, q⟩, hr⟩ := Option.isSome_iff_exists.1 (ha.row hj he')
        obtain ⟨d', q', hr', hem, hat, hsn, hst'⟩ := finish_givesBack hw hj hg hr
        have hjob := (hw.row hj hr).2
        exact ⟨d', q', hr', by rw [hem, hjob]; rfl, by rw [hat, hjob]; rfl, by rw [hsn, hjob]; rfl,
          Or.inl hst'⟩
    · have hpk := h.parked hold hp
      refine hpk.mono (fun hc => ?_) (fun _ => id) (fun he => ?_) fun {d q} _ hr _ hst' => ?_
      · rw [World.setPhase_hist, World.observe, hcur]; exact List.mem_cons_of_mem _ hc
      · have he' : ((w.db.finish job result next now).emails.get? job'.emailId).isSome := he
        rw [get?_finish, Option.isSome_map] at he'
        exact he'
      · by_cases hid : job'.id = job.id
        · -- it was claimed again by this worker, which is leaving
          rw [hid] at hr
          have hin := (hw.row hj hr).1
          have hlv : (w.workers n).leaving?.isSome := by
            rcases hst' with hst' | ⟨m, job'', hm, hid'⟩
            · rw [hin] at hst'; cases hst'
            · obtain rfl := hw.unique (Phase.job?_of_leaving hm) hj (hid'.trans hid)
              rw [hm]; rfl
          obtain ⟨d', q', hr', hem, hat, hsn, hst''⟩ := finish_givesBack hw hj (hl hlv) hr
          exact ⟨d', q', by rw [hid]; exact hr', hem, hat, hsn, Or.inl hst''⟩
        · refine ⟨d, q, ?_, rfl, rfl, rfl, ?_⟩
          · show (w.db.finish job result next now).delivery? job'.id = some (d, q)
            rw [delivery?_finish, hr, Option.map_some, if_neg hid]
          · rcases hst' with hst' | ⟨m, job'', hm, hid'⟩
            · exact Or.inl hst'
            · have hmn := other (Phase.job?_of_leaving hm) (by rw [hid']; exact hid)
              exact Or.inr ⟨m, job'', by rw [World.setPhase_of_ne _ _ hmn]; exact hm, hid'⟩

theorem Settled.not_inProgress {job : QueuedDelivery} {result : DeliveryResult} {next : ℤ}
    {attempt : Attempt} (h : Settled rt job result next attempt) : result.status ≠ .inProgress := by
  rcases h.outcome with ⟨hs, -⟩ | ⟨hs, -⟩
  · intro he; rw [he] at hs; cases hs
  · rw [hs]; exact nofun

/-- **Every step keeps `Tidy`**, as long as every result is saved. -/
theorem tidy_trans {e : Event} (hw : Held w) (ha : Anchored w) (hok : PhasesOk rt w) (hs : Stops w)
    (h : Smooth w → Tidy w) (ht : Trans rt w e w') : Smooth w' → Tidy w' := by
  -- a step that adds one observation
  have cons : ∀ {o : Obs}, w.up → (∀ o' ∈ current (o :: w.hist), ¬ o'.fails) → o ≠ .started →
      o.parks = none → Tidy w ∧
      (∀ {o'}, o' ∈ current w.hist → o' ∈ current (o :: w.hist)) ∧
      ∀ {o'}, o' ∈ current (o :: w.hist) → o'.parks.isSome → o' ∈ current w.hist := by
    intro o hu hf hns hp
    refine ⟨h (Smooth.of_cons w hu hf hns).2, fun ho => ?_, fun ho hp' => mem_current_cons hp ho hp'⟩
    rw [current_cons hns]; exact List.mem_cons_of_mem _ ho
  rintro ⟨hu, hf⟩
  cases ht with
  | failed ids =>
    exact (h ⟨hu, hf⟩).frame (fun _ hi => List.mem_append_right _ hi) id (fun ho _ => ho)
      (fun _ _ => id) (fun _ => rfl) (fun _ _ => Iff.rfl) fun _ _ hl _ => hl
  | @saveEmail record _ db hi hins =>
    obtain ⟨he, hd, hq, -⟩ := insertEmail_ok hins
    refine (h ⟨hu, hf⟩).frame (fun _ hi => List.mem_cons_of_mem _ hi) id (fun ho _ => ho)
      (fun emailId hid hsm => ?_) (fun _ => Db.delivery?_congr hd hq) (fun _ _ => Iff.rfl)
      fun _ _ hl _ => hl
    have hsm' : (db.emails.get? emailId).isSome := hsm
    rw [Table.get?_append_old he (by
      intro e he hk
      rw [List.mem_singleton.1 he] at hk
      have hk' : record.id = emailId := hk
      exact hi (hk' ▸ hid))] at hsm'
    exact hsm'
  | enqueue _ _ _ he =>
    exact (h (Smooth.of_cons w hu hf (by simp)).2).enqueue he fun _ hi => List.mem_append_right _ hi
  | @drop emailId _ db hd =>
    obtain ⟨htidy, hc, hp⟩ := cons hu hf (by simp) rfl
    obtain ⟨hd', hq, he⟩ := Db.updateEmailStatus_dropped_ok hw.paired hd
    refine htidy.frame (fun _ => id) hc hp (fun emailId _ hsm => ?_)
      (fun _ => Db.delivery?_congr hd' hq) (fun _ _ => Iff.rfl) fun _ _ hl _ => hl
    have hsm' : (db.emails.get? emailId).isSome := hsm
    rw [he, Option.isSome_map] at hsm'
    exact hsm'
  | remove p => exact (h (Smooth.of_cons w hu hf (by simp)).2).delete hw p (by simp) rfl
  | expire p _ => exact (h (Smooth.of_cons w hu hf (by simp)).2).delete hw p (by simp) rfl
  | @startQueue workers _ db _ _ hrec =>
    obtain ⟨-, -, -, hd⟩ := recoverDeliveries_ok hrec
    refine ⟨fun {m job} hj => ?_, fun {id d q} hr hst => ?_, fun ho => ?_⟩
    · have hj' : (if m < workers then Phase.top else .exited).job? = some job := hj
      split_ifs at hj' <;> cases hj'
    · -- recovery leaves no delivery in progress
      have hr' : db.delivery? id = some (d, q) := hr
      rw [hd] at hr'
      obtain ⟨⟨d₀, q₀⟩, -, he⟩ := Option.map_eq_some_iff.1 hr'
      cases he
      rw [DeliveryRow.recover] at hst
      split_ifs at hst with h₀
      · exact (h₀ hst).elim
    · cases ho
  | crash => cases hu
  | setRules | stopQueue | shutdown | cancel | shutdownReturn =>
    exact (h ⟨hu, hf⟩).frame (fun _ => id) id (fun ho _ => ho) (fun _ _ => id) (fun _ => rfl)
      (fun _ _ => Iff.rfl) fun _ _ hl _ => hl
  | @check n hn hph =>
    obtain ⟨htidy, hc, hp⟩ := cons hu hf (by simp) rfl
    refine htidy.setPhase hc hp ?_ ?_
    · rw [hph]; split_ifs <;> rfl
    · simp [hph, Phase.leaving?]
  | noClaim _ hph | tick _ hph =>
    exact (h ⟨hu, hf⟩).setPhase id (fun ho _ => ho) (by rw [hph]; rfl) (by simp [hph, Phase.leaving?])
  | claim _ hph hc => exact (h (Smooth.of_cons w hu hf (by simp)).2).claim hph hc
  | @recheck n job hn hph =>
    obtain ⟨htidy, hc, hp⟩ := cons hu hf (by simp) rfl
    refine htidy.setPhase hc hp (by rw [hph]; split_ifs <;> rfl) fun job' hl hex => ?_
    -- once a delivery was given back, the check sees the stop signal
    obtain ⟨o, ho, hpo⟩ := hex
    rw [if_pos (hs.parked hu o ho hpo)]
    rw [hph] at hl; exact hl
  | @release n job next now fuse hn hph =>
    refine (h (Smooth.of_cons w hu hf (by simp)).2).finish hw ha (by rw [hph]; rfl) rfl (by simp)
      (by simp [releaseResult]) (fun _ => ⟨rfl, rfl, Now.not_isZero _⟩) fun job' hj => ?_
    cases hj; exact ⟨rfl, rfl, rfl, Now.not_isZero _⟩
  | noRelease => exact absurd rfl (Smooth.of_cons w hu hf (by simp)).1
  | refuse _ hph | settle _ hph =>
    exact (h ⟨hu, hf⟩).setPhase id (fun ho _ => ho) (by rw [hph]; rfl) (by simp [hph, Phase.leaving?])
  | send _ hph =>
    obtain ⟨htidy, hc, hp⟩ := cons hu hf (by simp) rfl
    exact htidy.setPhase hc hp (by rw [hph]; rfl) (by simp [hph, Phase.leaving?])
  | @save n job result next attempt now fuse hn hph =>
    have hset := hok n
    rw [hph] at hset
    refine (h (Smooth.of_cons w hu hf (by simp)).2).finish hw ha (by rw [hph]; rfl) rfl (by simp)
      (Settled.not_inProgress hset) (by simp [hph, Phase.leaving?]) fun job' hj => ?_
    cases hset with
    | refused | final | retry => cases hj
    | cancelled now hp hat => cases hj; exact ⟨rfl, hp, hat, now.not_isZero⟩
  | noSave => exact absurd rfl (Smooth.of_cons w hu hf (by simp)).1
  | halt _ hph =>
    obtain ⟨htidy, hc, hp⟩ := cons hu hf (by simp) rfl
    exact htidy.setPhase hc hp (by rw [hph]; rfl) (by simp [hph, Phase.leaving?])

end

/-! ## Requests -/

/-- A worker that runs a delivery, or has sent one, saw an open stop channel
    at its last check. -/
structure Checked (w : World) : Prop where
  running : ∀ {n job}, w.workers n = .running job → lastCheck n (current w.hist) = some false
  sent : ∀ {n id post}, .sent n id :: post <:+ w.hist → lastCheck n (current post) = some false

section
variable {rt : Runtime} {w w' : World} {n : ℕ}

theorem Checked.frame (h : Checked w) (os : List Obs) (ho : ∀ o ∈ os, ∀ n id, o ≠ .sent n id)
    (hh : w'.hist = os ++ w.hist)
    (hr : ∀ {n job}, w'.workers n = .running job → lastCheck n (current w'.hist) = some false) :
    Checked w' := by
  refine ⟨hr, fun {n id post} hs => ?_⟩
  rw [hh] at hs
  clear hr hh
  induction os with
  | nil => exact h.sent hs
  | cons o os ih =>
    rcases List.suffix_cons_iff.1 hs with he | hs
    · cases he; exact absurd rfl (ho _ List.mem_cons_self n id)
    · exact ih (fun o ho' => ho o (List.mem_cons_of_mem _ ho')) hs

/-- A worker's step that is observed. -/
theorem Checked.setPhase (h : Checked w) {ph : Phase} {o : Obs} {db : Db} (hs : o ≠ .started)
    (ho : ∀ m, m ≠ n → o.checkOf m = none) (hsent : ∀ m id, o ≠ .sent m id)
    (hph : ∀ job, ph = .running job → o.checkOf n = some false) :
    Checked (({ w with db := db }.observe o).setPhase n ph) := by
  refine h.frame [o] (fun o' ho' => by rw [List.mem_singleton.1 ho']; exact hsent) rfl
    fun {m job} hm => ?_
  rw [World.setPhase_hist, World.observe, current_cons hs, lastCheck_cons]
  by_cases hmn : m = n
  · subst hmn
    rw [World.setPhase_self] at hm
    rw [hph job hm]; rfl
  · rw [World.setPhase_of_ne _ _ hmn] at hm
    rw [ho m hmn]
    exact h.running hm

/-- A worker's step that is not observed. -/
theorem Checked.setPhase' (h : Checked w) {ph : Phase} (hph : ∀ job, ph ≠ .running job) :
    Checked (w.setPhase n ph) := by
  refine h.frame [] (List.forall_mem_nil _) rfl fun {m job} hm => ?_
  by_cases hmn : m = n
  · subst hmn
    rw [World.setPhase_self] at hm
    exact absurd hm (hph job)
  · rw [World.setPhase_of_ne _ _ hmn] at hm
    exact h.running hm

/-- A step outside the workers that is observed. -/
theorem Checked.observe (h : Checked w) {o : Obs} {db : Db} {issued : List Uuid} (hs : o ≠ .started)
    (ho : ∀ m, o.checkOf m = none) (hsent : ∀ m id, o ≠ .sent m id) :
    Checked ({ w with db := db, issued := issued }.observe o) := by
  refine h.frame [o] (fun o' ho' => by rw [List.mem_singleton.1 ho']; exact hsent) rfl
    fun {m job} hm => ?_
  rw [World.observe, current_cons hs, lastCheck_cons, ho m]
  exact h.running hm

theorem checkOf_checked_of_ne {m : ℕ} {c : Bool} (h : m ≠ n) : (Obs.checked n c).checkOf m = none :=
  if_neg h.symm

theorem checked_trans {e : Event} (h : Checked w) (ht : Trans rt w e w') : Checked w' := by
  cases ht with
  | failed | saveEmail | setRules | stopQueue | shutdown | cancel | shutdownReturn =>
    exact h.frame [] (List.forall_mem_nil _) rfl h.running
  | enqueue | drop | remove | expire => exact h.observe nofun (fun _ => rfl) nofun
  | startQueue =>
    refine h.frame [.started] (fun o' ho' => by rw [List.mem_singleton.1 ho']; nofun) rfl
      fun {m job} hm => ?_
    have hm' : (if m < _ then Phase.top else .exited) = .running job := hm
    split_ifs at hm'
  | crash =>
    refine h.frame w.lost (fun o ho => ?_) rfl nofun
    obtain ⟨id, -, rfl⟩ := List.mem_map.1 ho
    exact nofun
  | check =>
    refine h.setPhase nofun (fun _ hm => checkOf_checked_of_ne hm) nofun fun job hj => ?_
    split_ifs at hj
  | recheck =>
    refine h.setPhase nofun (fun _ hm => checkOf_checked_of_ne hm) nofun fun job hj => ?_
    split_ifs at hj with hs
    rw [Bool.not_eq_true] at hs
    rw [hs]
    exact if_pos rfl
  | halt => exact h.setPhase nofun (fun _ hm => checkOf_checked_of_ne hm) nofun nofun
  | claim | release | noRelease | save | noSave =>
    exact h.setPhase nofun (fun _ _ => rfl) nofun nofun
  | noClaim | refuse | settle | tick => exact h.setPhase' nofun
  | @send n job snap hn hw =>
    refine ⟨fun {m job'} hm => ?_, fun {m id post} hs => ?_⟩
    · rw [World.setPhase_hist, World.observe, current_cons (o := .sent n job.id) nofun,
        lastCheck_cons]
      by_cases hmn : m = n
      · subst hmn; rw [World.setPhase_self] at hm; cases hm
      · rw [World.setPhase_of_ne _ _ hmn] at hm; exact h.running hm
    · -- the request follows the check that let the worker run
      rcases List.suffix_cons_iff.1 hs with he | hs
      · cases he; exact h.running hw
      · exact h.sent hs

/-! ## Runs -/

/-- What holds of the workers in every reachable state. -/
structure Orderly (rt : Runtime) (w : World) : Prop where
  sound : Sound rt w
  anchored : Anchored w
  stops : Stops w
  tidy : Smooth w → Tidy w
  checked : Checked w

theorem orderly_init : Orderly rt World.init :=
  ⟨sound_init, anchored_init, stops_init, fun _ => ⟨nofun, nofun, nofun⟩,
    ⟨nofun, fun h => by simp [World.init] at h⟩⟩

theorem orderly_step {e : Event} (h : Orderly rt w) (hs : step rt w e = some w') :
    Orderly rt w' := by
  have ht := step_trans hs
  exact ⟨sound_step h.sound hs, anchored_trans h.anchored h.sound.held ht, stops_trans h.stops ht,
    tidy_trans h.sound.held h.anchored h.sound.ok h.stops h.tidy ht, checked_trans h.checked ht⟩

theorem orderly_of_reach (h : Reach (step rt) World.init w) : Orderly rt w :=
  h.inv (fun _ _ _ hi hs => orderly_step hi hs) orderly_init

end

/-- What `Dispatcher.Shutdown` leaves behind. -/
structure CleanStop (w : World) : Prop where
  exited : ∀ n, w.workers n = .exited
  idle : ∀ d ∈ w.db.deliveries.rows, d.status ≠ .inProgress
  kept : ∀ job, .released job ∈ current w.hist ∨
      (∃ result next, .saved job result next .cancelled ∈ current w.hist) →
    (∃ n, .claimed n job ∈ current w.hist) ∧ ((w.db.emails.get? job.emailId).isSome →
      ∃ d q, w.db.delivery? job.id = some (d, q) ∧ d.status = .pending ∧
        d.attempts = job.attempts ∧ q.snapshot = job.snapshot)
  sends : ∀ n id post, .sent n id :: post <:+ w.hist → lastCheck n (current post) = some false

/-- **A graceful shutdown leaves the queue clean**: when `Shutdown` has
    returned and every result of this process could be saved, in every
    interleaving. -/
theorem shutdown_is_clean (rt : Runtime) (w : World) (h : Reach (step rt) World.init w)
    (hr : w.shutdown = .returned) (hf : ∀ o ∈ current w.hist, ¬ o.fails) : CleanStop w := by
  have ho := orderly_of_reach h
  have hu := (ho.stops.shutdown (by rw [hr]; nofun)).1
  have ht := ho.tidy ⟨hu, hf⟩
  have hx : ∀ n, w.workers n = .exited := by
    intro n
    by_cases hn : n < w.count
    · exact ho.stops.returned hr n hn
    · exact ho.stops.beyond n (Nat.not_lt.1 hn)
  refine ⟨hx, fun d hd hs => ?_, fun job hj => ?_, fun _ _ _ => ho.checked.sent⟩
  · obtain ⟨q, hq⟩ := ho.sound.held.paired.queued (Table.get?_of_mem hd)
    obtain ⟨n, job, hj, -⟩ := ht.owned (Db.delivery?_eq_some.2 ⟨Table.get?_of_mem hd, hq⟩) hs
    rw [hx n] at hj; cases hj
  · have hp : Parked w job := by
      rcases hj with hj | ⟨result, next, hj⟩
      · exact ht.parked hj rfl
      · exact ht.parked hj rfl
    refine ⟨hp.claimed, fun he => ?_⟩
    obtain ⟨d, q, hrow, -, hat, hsn, hst | ⟨n, job', hl, -⟩⟩ := hp.row he
    · exact ⟨d, q, hrow, hst, hat, hsn⟩
    · rw [hx n] at hl; cases hl

/-- The request of the first worker is cancelled, and the second one leaves at
    its ticker. -/
def sampleShutdown : List Event :=
  sampleClaim sampleText ++ [.recheck 0, .start 0, .shutdown, .claim 1 (clock 300) none,
    .wait 1 false, .expire, .settle 0 (.error (.other "context canceled")) (clock 400),
    .save 0 (clock 500) none, .check 0, .shutdownReturn]

theorem shutdown_is_clean_sample : ∃ w, CleanStop w ∧ ∃ o ∈ current w.hist, o.parks.isSome := by
  have hs : ((exec (step (sampleRuntime sampleText sampleSnapshot)) World.init sampleShutdown).map
      fun w => decide (w.shutdown = .returned ∧ (∀ o ∈ current w.hist, ¬ o.fails) ∧
        ∃ o ∈ current w.hist, o.parks.isSome)) = some true := by decide +kernel
  obtain ⟨w, hw, hd⟩ := Option.map_eq_some_iff.1 hs
  obtain ⟨hr, hf, hp⟩ := of_decide_eq_true hd
  exact ⟨w, shutdown_is_clean _ w (Reach.of_exec hw) hr hf, hp⟩

end Mailrelay
