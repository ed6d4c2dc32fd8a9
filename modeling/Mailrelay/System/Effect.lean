/-
  What one step does to the stored deliveries.

  Seen from the rows, most steps do nothing.  `Effect` sorts them into four
  kinds: the rows stay alike (at most a status moves between pending and in
  progress), a batch is added, emails are deleted with their deliveries, or a
  worker finishes the delivery it holds.

  A worker only saves what `runQueued` or a release computed: `Settled` says
  which results go with which due times and attempt counts, and `phasesOk_trans`
  keeps it along every step.

  * `trans_effect`: every step of a state with `Held` and `PhasesOk` has one of
    the four effects.
-/
import Mailrelay.System.Workers

namespace Mailrelay

open Lib

/-! ## Settled results -/

/-- The results that reach `FinishDelivery`, with their due time and attempt. -/
inductive Settled (rt : Runtime) (job : QueuedDelivery) (result : DeliveryResult) :
    ℤ → Attempt → Prop
  | refused : result.status = .error → result.attempts = job.attempts →
      Settled rt job result zeroTime .unsent
  | final : result.status.final → result.attempts = job.attempts + 1 →
      Settled rt job result zeroTime .completed
  | cancelled (now : Now) : result.status = .pending → result.attempts = job.attempts →
      Settled rt job result now.time .cancelled
  | retry (now : Now) {snap : DeliverySnapshot} : rt.unmarshalSnapshot job.snapshot = .ok snap →
      result.status = .pending → result.attempts = job.attempts + 1 →
      job.attempts + 1 ≤ snap.retry.maxRetries →
      Settled rt job result (now.time + (backoff rt snap.retry (job.attempts + 1)).toInt) .completed

/-- What is known of a worker that sends or saves. -/
def Phase.Ok (rt : Runtime) : Phase → Prop
  | sending job snap =>
    ∃ stored, rt.unmarshalSnapshot job.snapshot = .ok stored ∧ snap.retry = stored.retry
  | saving job result next attempt => Settled rt job result next attempt
  | _ => True

def PhasesOk (rt : Runtime) (w : World) : Prop := ∀ n, (w.workers n).Ok rt

section
variable {rt : Runtime} {w w' : World} {n : ℕ}

theorem PhasesOk.setPhase (h : PhasesOk rt w) {ph : Phase} (hp : ph.Ok rt) (os : List Obs) (db : Db) :
    PhasesOk rt ({ w with db := db, hist := os }.setPhase n ph) := by
  intro m
  by_cases hm : m = n
  · subst hm; rw [World.setPhase_self]; exact hp
  · rw [World.setPhase_of_ne _ _ hm]; exact h m

theorem settle_settled {job : QueuedDelivery} {snap stored : DeliverySnapshot}
    {outcome : SendOutcome} {cancelled : Bool} {now : Now} {result : DeliveryResult} {next : ℤ}
    (hs : rt.unmarshalSnapshot job.snapshot = .ok stored) (hr : snap.retry = stored.retry)
    (h : settle rt job snap.retry outcome cancelled now.time = (result, next)) :
    Settled rt job result next (.of outcome cancelled) := by
  rcases settle_cases h with ⟨hn, hf, ha, ho⟩ | ⟨hn, -, hp, ha, ho⟩ | ⟨hn, hp, ha, -, -, hm, ho⟩
  · rw [hn, ho]; exact .final hf ha
  · rw [hn, ho]; exact .cancelled now hp ha
  · rw [hr] at hn hm
    rw [hn, ho]; exact .retry now hs hp ha hm

theorem phasesOk_trans {e : Event} (h : PhasesOk rt w) (ht : Trans rt w e w') : PhasesOk rt w' := by
  cases ht with
  | failed | saveEmail | enqueue | drop | remove | expire | setRules | stopQueue | shutdown
  | cancel | shutdownReturn => exact h
  | startQueue => intro m; show (if m < _ then Phase.top else .exited).Ok rt; split_ifs <;> trivial
  | crash => intro m; trivial
  | check => exact h.setPhase (by split_ifs <;> trivial) _ _
  | recheck => exact h.setPhase (by split_ifs <;> trivial) _ _
  | noClaim | claim | release | noRelease | save | noSave | tick | halt =>
    exact h.setPhase (by trivial) _ _
  | refuse _ _ hp =>
    obtain ⟨hs, ha⟩ := prepare_error hp
    refine h.setPhase ?_ _ _
    exact Settled.refused hs ha
  | send _ _ hp =>
    obtain ⟨stored, hs, -, hr, -⟩ := prepare_ok hp
    refine h.setPhase ?_ _ _
    exact ⟨stored, hs, hr⟩
  | settle _ hw =>
    have hok := h ‹ℕ›
    rw [hw] at hok
    obtain ⟨stored, hs, hr⟩ := hok
    refine h.setPhase ?_ _ _
    exact settle_settled hs hr rfl

/-- A final result comes with the zero due time, a pending one with a real
    one. -/
theorem Settled.outcome {job : QueuedDelivery} {result : DeliveryResult} {next : ℤ}
    {attempt : Attempt} (h : Settled rt job result next attempt) :
    (result.status.final ∧ isZero next = true) ∨ (result.status = .pending ∧ isZero next = false) := by
  cases h with
  | refused hs => rw [hs]; exact Or.inl ⟨rfl, rfl⟩
  | final hs => exact Or.inl ⟨hs, rfl⟩
  | cancelled now hs => exact Or.inr ⟨hs, now.not_isZero⟩
  | retry now _ hs => exact Or.inr ⟨hs, add_backoff_not_isZero now rt _ _⟩

/-! ## Effects -/

/-- The rows of a delivery before and after a step that neither finishes nor
    removes it. -/
structure Alike (r r' : DeliveryRow × QueueRow) : Prop where
  queue : r'.2 = r.2
  attempts : r'.1.attempts = r.1.attempts
  unfinished : r'.1.status.unfinished = r.1.status.unfinished
  done : r.1.status.unfinished = false → r' = r

theorem Alike.refl (r : DeliveryRow × QueueRow) : Alike r r := ⟨rfl, rfl, rfl, fun _ => rfl⟩

/-- Observations that say nothing about stored deliveries. -/
def Obs.quiet : Obs → Prop
  | enqueued .. | removed _ | expired _ | saved .. | released _ => False
  | _ => True

inductive Effect (rt : Runtime) (w w' : World) : Prop
  | alike (os : List Obs) : (∀ o ∈ os, o.quiet) → w'.hist = os ++ w.hist →
      w.issued ⊆ w'.issued →
      (∀ id, Option.Rel Alike (w.db.delivery? id) (w'.db.delivery? id)) → Effect rt w w'
  | enqueue {emailId batch : Uuid} {now : Now} {jobs : List (Uuid × QueuedDelivery)} :
      jobs ≠ [] → (batch :: jobs.map Prod.fst).Nodup →
      (∀ id ∈ batch :: jobs.map Prod.fst, id ∉ w.issued) →
      Enqueued w.db emailId batch jobs now.time w'.db →
      w'.issued = (batch :: jobs.map Prod.fst) ++ w.issued →
      w'.hist = .enqueued emailId batch jobs :: w.hist → Effect rt w w'
  | delete (p : EmailRow → Bool) {o : Obs} :
      (o = .removed (w.db.emailIds p) ∨
        (o = .expired (w.db.emailIds p) ∧ ∀ e, p e → w.db.hasUnfinished e.id = false)) →
      w'.db = w.db.deleteEmails p → w'.issued = w.issued → w'.hist = o :: w.hist → Effect rt w w'
  | finish {n : ℕ} {job : QueuedDelivery} {result : DeliveryResult} {next now : ℤ} {o : Obs} :
      (w.workers n).job? = some job →
      ((o = .released job ∧ result = releaseResult job ∧ ∃ t : Now, next = t.time) ∨
        ∃ attempt, o = .saved job result next attempt ∧
          w.workers n = .saving job result next attempt ∧ Settled rt job result next attempt) →
      w'.db = w.db.finish job result next now → w'.issued = w.issued → w'.hist = o :: w.hist →
      Effect rt w w'

/-- The worker gives the delivery it holds back, or saves the result it settled
    on, and `o` records it. -/
def Finishing (rt : Runtime) (w : World) (n : ℕ) (job : QueuedDelivery) (result : DeliveryResult)
    (next : ℤ) (o : Obs) : Prop :=
  (o = .released job ∧ result = releaseResult job ∧ ∃ t : Now, next = t.time) ∨
    ∃ attempt, o = .saved job result next attempt ∧
      w.workers n = .saving job result next attempt ∧ Settled rt job result next attempt

/-- A step that leaves the rows of all deliveries alone. -/
theorem Effect.same (os : List Obs) (hos : ∀ o ∈ os, o.quiet) (hh : w'.hist = os ++ w.hist)
    (hi : w.issued ⊆ w'.issued) (hd : ∀ id, w'.db.delivery? id = w.db.delivery? id) :
    Effect rt w w' := by
  refine .alike os hos hh hi fun id => ?_
  rw [hd]
  rcases w.db.delivery? id with _ | r
  · exact .none
  · exact .some (.refl r)

theorem recover_alike (d : DeliveryRow) (q : QueueRow) : Alike (d, q) (d.recover, q) := by
  unfold DeliveryRow.recover
  split_ifs with hs
  · exact ⟨rfl, rfl, by simp [hs, DeliveryStatus.unfinished],
      fun hu => by simp [hs, DeliveryStatus.unfinished] at hu⟩
  · exact .refl _

theorem recover_rel (o : Option (DeliveryRow × QueueRow)) :
    Option.Rel Alike o (o.map fun r => (r.1.recover, r.2)) := by
  rcases o with _ | ⟨d, q⟩
  · exact .none
  · exact .some (recover_alike d q)

theorem claim_alike {now : ℤ} {job : QueuedDelivery} {db db' : Db} (h : Claimed db now job db')
    (id : Uuid) : Option.Rel Alike (db.delivery? id) (db'.delivery? id) := by
  obtain ⟨d, q, hr, hs, -, -⟩ := mem_dueJobs.1 h.due
  rw [h.db', delivery?_setInProgress]
  by_cases hid : id = job.id
  · subst hid
    rw [hr, Option.map_some, if_pos rfl]
    refine .some ?_
    exact ⟨rfl, rfl, by simp [hs, DeliveryStatus.unfinished],
      fun hu => by simp [hs, DeliveryStatus.unfinished] at hu⟩
  · simp only [hid, if_false, Option.map_id']
    rcases db.delivery? id with _ | r
    · exact .none
    · exact .some (.refl r)

theorem lost_quiet (w : World) : ∀ o ∈ w.lost, o.quiet := by
  intro o ho
  obtain ⟨id, -, rfl⟩ := List.mem_map.1 ho
  trivial

/-- **Every step has one of the four effects.** -/
theorem trans_effect {e : Event} (hok : PhasesOk rt w) (ht : Trans rt w e w') : Effect rt w w' := by
  have one : ∀ {o : Obs}, o.quiet → ∀ o' ∈ [o], o'.quiet := by
    intro o ho o' ho'
    rw [List.mem_singleton.1 ho']
    exact ho
  cases ht with
  | failed ids =>
    exact .same [] (List.forall_mem_nil _) rfl (fun _ hi => List.mem_append_right _ hi) fun _ => rfl
  | saveEmail _ hins =>
    obtain ⟨-, hd, hq, -⟩ := insertEmail_ok hins
    exact .same [] (List.forall_mem_nil _) rfl (fun _ hi => List.mem_cons_of_mem _ hi)
      fun _ => Db.delivery?_congr hd hq
  | enqueue hj hn hi he => exact .enqueue hj hn hi he rfl rfl
  | drop hd => cases hd; exact .same [_] (one (by trivial)) rfl (fun _ => id) fun _ => rfl
  | remove p => exact .delete p (Or.inl rfl) rfl rfl rfl
  | expire p hp => exact .delete p (Or.inr ⟨rfl, hp⟩) rfl rfl rfl
  | setRules => exact .same [] (List.forall_mem_nil _) rfl (fun _ => id) fun _ => rfl
  | startQueue _ hrec =>
    obtain ⟨-, -, -, hd⟩ := recoverDeliveries_ok hrec
    refine .alike [.started] (one trivial) rfl (fun _ => id) fun id => ?_
    exact (hd id).symm ▸ recover_rel _
  | crash => exact .same _ (lost_quiet w) rfl (fun _ => id) fun _ => rfl
  | stopQueue | shutdown | cancel | shutdownReturn =>
    exact .same [] (List.forall_mem_nil _) rfl (fun _ => id) fun _ => rfl
  | check | recheck | noRelease | send | noSave | halt =>
    exact .same [_] (one (by trivial)) rfl (fun _ => id) fun _ => rfl
  | noClaim | refuse | settle | tick =>
    exact .same [] (List.forall_mem_nil _) rfl (fun _ => id) fun _ => rfl
  | claim _ _ hc => exact .alike [_] (one (by trivial)) rfl (fun _ => id) (claim_alike hc)
  | release _ hw =>
    exact .finish (by rw [hw]; rfl) (Or.inl ⟨rfl, rfl, _, rfl⟩) rfl rfl rfl
  | save _ hw =>
    have hs := hok ‹ℕ›
    rw [hw] at hs
    exact .finish (by rw [hw]; rfl) (Or.inr ⟨_, rfl, hw, hs⟩) rfl rfl rfl

end

/-! ## Runs -/

section
variable {rt : Runtime} {w w' : World}

/-- What holds in every reachable state. -/
structure Sound (rt : Runtime) (w : World) : Prop where
  held : Held w
  ok : PhasesOk rt w

theorem sound_init : Sound rt World.init := ⟨held_init, fun _ => trivial⟩

theorem sound_step {e : Event} (h : Sound rt w) (hs : step rt w e = some w') : Sound rt w' :=
  ⟨held_trans h.held (step_trans hs), phasesOk_trans h.ok (step_trans hs)⟩

theorem effect_step {e : Event} (h : Sound rt w) (hs : step rt w e = some w') : Effect rt w w' :=
  trans_effect h.ok (step_trans hs)

theorem sound_of_reach (h : Reach (step rt) World.init w) : Sound rt w :=
  h.inv (fun _ _ _ hi hs => sound_step hi hs) sound_init

end

end Mailrelay
