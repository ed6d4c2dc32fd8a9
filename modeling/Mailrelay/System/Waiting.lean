/-
  A due delivery is not overtaken.

  `ClaimDelivery` takes the earliest due row, and a delivery that has to be
  tried again gets a later due time.  So a delivery that waits is claimed after
  at most one claim of any other, and no delivery with a later due time is
  claimed before it.

  * `Ahead`: the deliveries that may be claimed before the due time `t`;
  * `ahead_trans`, `ahead_claim`: what a step does to them;
  * `overtaken_once`: the main result.
-/
import Mailrelay.System.Received

namespace Mailrelay

open Lib

/-! ## Claims -/

def Obs.claims (id : Uuid) : Obs → Bool
  | claimed _ job => job.id == id
  | _ => false

/-- How often a delivery was claimed. -/
def claims (hist : List Obs) (id : Uuid) : ℕ := hist.countP (·.claims id)

@[simp] theorem claims_cons (o : Obs) (hist : List Obs) (id : Uuid) :
    claims (o :: hist) id = claims hist id + if o.claims id then 1 else 0 := List.countP_cons

theorem claims_lost (w : World) (id : Uuid) : claims (w.lost ++ w.hist) id = claims w.hist id := by
  have hzero : w.lost.countP (·.claims id) = 0 := by
    refine List.countP_eq_zero.2 fun o ho => ?_
    obtain ⟨id', -, rfl⟩ := List.mem_map.1 ho
    exact Bool.false_ne_true
  rw [claims, List.countP_append, hzero, Nat.zero_add]
  rfl

/-! ## What is ahead -/

/-- The worker is about to schedule the delivery for `t` or earlier. -/
def Phase.early (t : ℤ) (id : Uuid) : Phase → Prop
  | saving job _ next _ => job.id = id ∧ isZero next = false ∧ unixNano next ≤ t
  | _ => False

/-- The delivery is pending, with a due time up to `t`. -/
def Db.due (db : Db) (t : ℤ) (id : Uuid) : Prop :=
  ∃ d q, db.delivery? id = some (d, q) ∧ d.status = .pending ∧ q.nextAttemptAt ≤ t

/-- The delivery may be claimed with a due time up to `t`. -/
def Ahead (t : ℤ) (w : World) (id : Uuid) : Prop :=
  w.db.due t id ∨ ∃ n, (w.workers n).early t id

/-- Clocks are past `t`, and so are the due times of retries, whose waits
    neither overflow nor end after what 64 bits can represent; the queue is not
    started again. -/
def Later (rt : Runtime) (t : ℤ) (w : World) : Event → Prop
  | .enqueue _ _ _ now _ | .claim _ now _ | .release _ now _ _ => t < now.time
  | .settle n _ now => t < now.time ∧ ∀ job snap, w.workers n = .sending job snap →
      0 ≤ (backoff rt snap.retry (job.attempts + 1)).toInt ∧
      now.time + (backoff rt snap.retry (job.attempts + 1)).toInt ≤ maxInt64
  | .startQueue .. => False
  | _ => True

section
variable {rt : Runtime} {w w' : World} {t : ℤ} {id : Uuid} {n : ℕ}

theorem due_congr {db db' : Db} (h : ∀ id, db'.delivery? id = db.delivery? id) :
    db'.due t id ↔ db.due t id := by
  unfold Db.due
  rw [h]

theorem Ahead.setPhase {ph : Phase} {db : Db} {hist : List Obs} (hph : ¬ ph.early t id)
    (h : Ahead t ({ w with db := db, hist := hist }.setPhase n ph) id) :
    db.due t id ∨ ∃ m, (w.workers m).early t id := by
  rcases h with h | ⟨m, h⟩
  · exact .inl h
  · by_cases hm : m = n
    · subst hm
      rw [World.setPhase_self] at h
      exact absurd h hph
    · rw [World.setPhase_of_ne _ _ hm] at h
      exact .inr ⟨m, h⟩

/-- A settled delivery is not scheduled before the clock. -/
theorem settle_not_early {job : QueuedDelivery} {snap : DeliverySnapshot} {outcome : SendOutcome}
    {cancelled : Bool} {now : Now} (ht : t < now.time)
    (hwait : 0 ≤ (backoff rt snap.retry (job.attempts + 1)).toInt)
    (hend : now.time + (backoff rt snap.retry (job.attempts + 1)).toInt ≤ maxInt64) :
    ¬ (Phase.saving job (settle rt job snap.retry outcome cancelled now.time).1
      (settle rt job snap.retry outcome cancelled now.time).2 (.of outcome cancelled)).early t id := by
  rcases hset : settle rt job snap.retry outcome cancelled now.time with ⟨result, next⟩
  rintro ⟨-, hzero, hle⟩
  have hepoch := now.epoch
  rcases settle_cases hset with ⟨rfl, -⟩ | ⟨rfl, -⟩ | ⟨rfl, -⟩
  · cases hzero
  · rw [now.unixNano_eq] at hle
    omega
  · have hnano : unixNano (now.time + (backoff rt snap.retry (job.attempts + 1)).toInt) = _ :=
      wrap64_of_mem (by unfold minInt64; omega) hend
    rw [hnano] at hle
    omega

/-- What is due after a delivery was given back or saved. -/
theorem due_finish {job : QueuedDelivery} {result : DeliveryResult} {next now : ℤ} {db : Db}
    (h : (db.finish job result next now).due t id) :
    db.due t id ∨ job.id = id ∧ result.status = .pending ∧ (isZero next = false → unixNano next ≤ t) := by
  obtain ⟨d, q, hr, hp, hle⟩ := h
  rw [delivery?_finish] at hr
  obtain ⟨⟨d₀, q₀⟩, hr₀, heq⟩ := Option.map_eq_some_iff.1 hr
  split_ifs at heq with hid
  · cases heq
    refine .inr ⟨hid.symm, hp, fun hzero => ?_⟩
    simpa [QueueRow.setNext, hzero] using hle
  · cases heq
    exact .inl ⟨d, q, hr₀, hp, hle⟩

/-- **What a step puts ahead**: nothing, apart from claims. -/
theorem ahead_trans {e : Event} (h : Sound rt w) (hl : Later rt t w e) (ht : Trans rt w e w') :
    (∀ id, claims w'.hist id = claims w.hist id ∧ (Ahead t w' id → Ahead t w id)) ∨
    ∃ n job db, ∃ now : Now, t < now.time ∧ Claimed w.db now.time job db ∧
      w' = ({ w with db := db }.observe (.claimed n job)).setPhase n (.rechecking job) := by
  cases ht with
  | failed ids => exact .inl fun id => ⟨rfl, fun h => h⟩
  | saveEmail _ hins =>
    obtain ⟨-, hd, hq, -⟩ := insertEmail_ok hins
    refine .inl fun id => ⟨rfl, fun h => ?_⟩
    exact h.imp_left (due_congr fun _ => Db.delivery?_congr hd hq).1
  | @enqueue emailId batch now fuse db jobs hj hn hi he =>
    refine .inl fun id => ⟨rfl, fun h => h.imp_left ?_⟩
    rintro ⟨d, q, hr, hp, hle⟩
    change db.delivery? id = some (d, q) at hr
    rcases he.delivery?_cases id with ⟨j, hj, rfl, -, hnew⟩ | ⟨-, hold⟩
    · have hlt : t < now.time := hl
      rw [hnew] at hr
      cases hr
      have hle' : unixNano now.time ≤ t := hle
      rw [now.unixNano_eq] at hle'
      omega
    · rw [hold] at hr
      exact ⟨d, q, hr, hp, hle⟩
  | drop hd =>
    cases hd
    exact .inl fun id => ⟨rfl, fun h => h⟩
  | remove p | expire p =>
    refine .inl fun id => ⟨rfl, fun h' => h'.imp_left ?_⟩
    rintro ⟨d, q, hr, hp, hle⟩
    exact ⟨d, q, delivery?_of_deleteEmails h.held hr, hp, hle⟩
  | setRules | stopQueue | shutdown | cancel | shutdownReturn => exact .inl fun id => ⟨rfl, fun h => h⟩
  | startQueue => exact hl.elim
  | crash =>
    refine .inl fun id => ⟨claims_lost w id, fun h => ?_⟩
    rcases h with h | ⟨_, h⟩
    · exact .inl h
    · exact h.elim
  | check | recheck =>
    refine .inl fun id => ⟨rfl, fun h => h.setPhase ?_⟩
    split_ifs <;> exact fun h => h
  | noClaim | noRelease | noSave | tick | halt | send =>
    exact .inl fun _ => ⟨rfl, fun h => h.setPhase (by exact id)⟩
  | refuse =>
    refine .inl fun id => ⟨rfl, fun h => h.setPhase ?_⟩
    rintro ⟨-, hzero, -⟩
    cases hzero
  | @settle n job snap outcome now hn hw =>
    obtain ⟨hlt, hwait⟩ := hl
    obtain ⟨hw₁, hw₂⟩ := hwait job snap hw
    exact .inl fun id => ⟨rfl, fun h => h.setPhase (settle_not_early hlt hw₁ hw₂)⟩
  | @claim n now fuse job db hn hw hc => exact .inr ⟨n, job, db, now, hl, hc, rfl⟩
  | @release n job next now fuse hn hw =>
    have hlt : t < next.time := hl
    refine .inl fun id => ⟨rfl, fun h => ?_⟩
    rcases h.setPhase (by exact fun h => h) with hd | hd
    · rcases due_finish hd with hd | ⟨-, -, hle⟩
      · exact .inl hd
      · have hle' := hle next.not_isZero
        rw [next.unixNano_eq] at hle'
        omega
    · exact .inr hd
  | @save n job result next attempt now fuse hn hw =>
    have hset := h.ok n
    rw [hw] at hset
    refine .inl fun id => ⟨rfl, fun h => ?_⟩
    rcases h.setPhase (by exact fun h => h) with hd | hd
    · rcases due_finish hd with hd | ⟨hid, hp, hle⟩
      · exact .inl hd
      · rcases hset.outcome with ⟨hfin, -⟩ | ⟨-, hzero⟩
        · rw [hp] at hfin
          cases hfin
        · refine .inr ⟨n, ?_⟩
          rw [hw]
          exact ⟨hid, hzero, hle hzero⟩
    · exact .inr hd

/-- A claimed delivery is no longer ahead. -/
theorem ahead_claim (h : Sound rt w) {job : QueuedDelivery} {db : Db} {now : ℤ}
    (hc : Claimed w.db now job db) {hist : List Obs}
    (ha : Ahead t ({ w with db := db, hist := hist }.setPhase n (.rechecking job)) id) :
    Ahead t w id ∧ id ≠ job.id := by
  obtain ⟨d₀, q₀, hr₀, hp₀, -, -⟩ := mem_dueJobs.1 hc.due
  rcases ha.setPhase (by exact fun h => h) with ⟨d, q, hr, hp, hle⟩ | ⟨m, hm⟩
  · rw [hc.db', delivery?_setInProgress] at hr
    obtain ⟨r, hr', heq⟩ := Option.map_eq_some_iff.1 hr
    split_ifs at heq with hid
    · cases heq
      cases hp
    · cases heq
      exact ⟨.inl ⟨d, q, hr', hp, hle⟩, hid⟩
  · refine ⟨.inr ⟨m, hm⟩, ?_⟩
    rintro rfl
    -- the worker would hold a delivery that is pending
    cases hw : w.workers m with
    | saving job' result next attempt =>
      rw [hw] at hm
      have hjob : (w.workers m).job? = some job' := by rw [hw]; rfl
      have hrow := h.held.row hjob (by rw [hm.1]; exact hr₀)
      rw [hp₀] at hrow
      cases hrow.1
    | _ =>
      rw [hw] at hm
      exact hm.elim

/-! ## Who waits -/

/-- The delivery waits to be claimed, with the due time `t`. -/
def Waiting (t : ℤ) (w : World) (id : Uuid) : Prop :=
  ∃ d q, w.db.delivery? id = some (d, q) ∧ d.status = .pending ∧ q.nextAttemptAt = t

/-- While a due delivery waits, only deliveries that are ahead are claimed. -/
theorem Waiting.claimed (h : Waiting t w id) {job : QueuedDelivery} {db : Db} {now : Now}
    (hlt : t < now.time) (hc : Claimed w.db now.time job db) : Ahead t w job.id := by
  obtain ⟨d, q, hr, hp, hq⟩ := h
  have hid : (toJob d q).id = id := (Db.delivery?_id hr).1
  have hdue : toJob d q ∈ dueJobs now.time w.db := by
    refine mem_dueJobs.2 ⟨d, q, by rw [hid]; exact hr, hp, ?_, rfl⟩
    rw [now.unixNano_eq]
    omega
  have hle : job.nextAttemptAt ≤ q.nextAttemptAt := hc.first _ hdue
  obtain ⟨d₀, q₀, hr₀, hp₀, -, rfl⟩ := mem_dueJobs.1 hc.due
  have hle' : q₀.nextAttemptAt ≤ t := hle.trans hq.le
  exact .inl ⟨d₀, q₀, hr₀, hp₀, hle'⟩

/-- A claim finds something as long as a due delivery waits. -/
theorem Waiting.claim (h : Waiting t w id) {now : Now} (hle : t ≤ now.time) (hn : n < w.count)
    (hph : w.workers n = .claiming) :
    ∃ job w', step rt w (.claim n now none) = some w' ∧ w'.hist = .claimed n job :: w.hist := by
  obtain ⟨d, q, hr, hp, hq⟩ := h
  have hid : (toJob d q).id = id := (Db.delivery?_id hr).1
  have hdue : toJob d q ∈ dueJobs now.time w.db := by
    refine mem_dueJobs.2 ⟨d, q, by rw [hid]; exact hr, hp, ?_, rfl⟩
    rw [now.unixNano_eq]
    omega
  obtain ⟨job, hjob⟩ := Option.isSome_iff_exists.1
    (List.isSome_minOn?_of_mem (f := fun j => j.nextAttemptAt) hdue)
  have hquery : Tx.query (fun db => (dueJobs now.time db).minOn? fun j => j.nextAttemptAt) (w.db, none) =
      .ok (some job, w.db, none) := by
    simp only [Tx.query, hjob]
    rfl
  have hclaim : claimDelivery now.time (w.db, none) =
      .ok (some job, w.db.setInProgress job.id now.time, none) := by
    refine Tx.bind_ok.2 ⟨(), (w.db, none), rfl, Tx.bind_ok.2 ⟨_, _, hquery, ?_⟩⟩
    exact Tx.bind_ok.2 ⟨(), _, rfl, Tx.bind_ok.2 ⟨(), _, rfl, rfl⟩⟩
  refine ⟨job, ({ w with db := w.db.setInProgress job.id now.time }.observe (.claimed n job)).setPhase n
    (.rechecking job), ?_, rfl⟩
  show (if n < w.count then workerStep rt w n (.claim n now none) (w.workers n) else none) = _
  rw [if_pos hn, hph]
  simp only [workerStep, Tx.transaction, hclaim]

/-- A waiting delivery goes on waiting, is removed, or is claimed. -/
theorem waiting_trans {e : Event} (h : Sound rt w) (hl : Later rt t w e) (ht : Trans rt w e w')
    (hw : Waiting t w id) :
    Waiting t w' id ∨ w'.db.delivery? id = none ∨ claims w.hist id < claims w'.hist id := by
  obtain ⟨d, q, hr, hp, hq⟩ := hw
  have same (heq : w'.db.delivery? id = w.db.delivery? id) : Waiting t w' id :=
    ⟨d, q, heq.trans hr, hp, hq⟩
  -- a delivery that is held is in progress
  have free {m : ℕ} {job : QueuedDelivery} (hj : (w.workers m).job? = some job) : id ≠ job.id := by
    rintro rfl
    have hrow := (h.held.row hj hr).1
    rw [hp] at hrow
    cases hrow
  cases ht with
  | saveEmail _ hins =>
    obtain ⟨-, hd, hq', -⟩ := insertEmail_ok hins
    exact .inl (same (Db.delivery?_congr hd hq'))
  | @enqueue emailId batch now fuse db jobs hj hn hi he =>
    rcases he.delivery?_cases id with ⟨j, hj, rfl, -, -⟩ | ⟨-, hold⟩
    · exact absurd (h.held.issued hr) (hi _ (List.mem_cons_of_mem _ (List.mem_map_of_mem hj)))
    · exact .inl (same hold)
  | drop hd =>
    cases hd
    exact .inl (same rfl)
  | remove p | expire p =>
    show Waiting t _ id ∨ (w.db.deleteEmails p).delivery? id = none ∨ _
    rw [Db.delivery?_deleteEmails h.held.paired, hr]
    rcases hf : Option.filter (fun r => ((w.db.deleteEmails p).emails.get? r.2.emailId).isSome)
      (some (d, q)) with _ | r
    · exact .inr (.inl hf)
    · refine .inl ⟨d, q, ?_, hp, hq⟩
      show (w.db.deleteEmails p).delivery? id = _
      rw [Db.delivery?_deleteEmails h.held.paired, hr, hf]
      exact (Option.filter_eq_some_iff.1 hf).1.symm
  | startQueue => exact hl.elim
  | claim _ _ hc =>
    rename_i job db _ _
    by_cases hid : job.id = id
    · refine .inr (.inr ?_)
      show claims w.hist id < claims (.claimed _ job :: w.hist) id
      rw [claims_cons, if_pos (by simp [Obs.claims, hid])]
      omega
    · refine .inl ⟨d, q, ?_, hp, hq⟩
      show db.delivery? id = _
      rw [hc.db', delivery?_setInProgress, hr, Option.map_some, if_neg (Ne.symm hid)]
  | release _ hph =>
    refine .inl (same ?_)
    show (w.db.finish _ _ _ _).delivery? id = _
    rw [delivery?_finish, hr, Option.map_some, if_neg (free (by rw [hph]; rfl))]
  | save _ hph =>
    refine .inl (same ?_)
    show (w.db.finish _ _ _ _).delivery? id = _
    rw [delivery?_finish, hr, Option.map_some, if_neg (free (by rw [hph]; rfl))]
  | _ => exact .inl (same rfl)

/-- A delivery that was removed does not come back. -/
theorem gone_step {e : Event} (h : Sound rt w) (hs : step rt w e = some w')
    (hgone : w.db.delivery? id = none) (hi : id ∈ w.issued) : w'.db.delivery? id = none := by
  cases effect_step h hs with
  | alike os _ _ _ hd =>
    have hrel := hd id
    rw [hgone] at hrel
    generalize w'.db.delivery? id = o at hrel
    cases hrel
    rfl
  | enqueue _ _ hfresh he =>
    rcases he.delivery?_cases id with ⟨j, hj, rfl, -, -⟩ | ⟨-, hold⟩
    · exact absurd hi (hfresh _ (List.mem_cons_of_mem _ (List.mem_map_of_mem hj)))
    · exact hold.trans hgone
  | delete p _ hdb =>
    rw [hdb, Db.delivery?_deleteEmails h.held.paired, hgone]
    rfl
  | finish _ _ hdb =>
    rw [hdb, delivery?_finish, hgone]
    rfl

end

/-! ## Runs -/

section
variable {rt : Runtime} {w₀ w w' : World} {t : ℤ} {id : Uuid}

/-- The claims since `w₀`, while the delivery waits. -/
def Overtaken (t : ℤ) (w₀ w : World) (id' : Uuid) : Prop :=
  (claims w.hist id' = claims w₀.hist id' ∧ (Ahead t w id' → Ahead t w₀ id')) ∨
  (claims w.hist id' = claims w₀.hist id' + 1 ∧ Ahead t w₀ id' ∧ ¬ Ahead t w id')

/-- The delivery was claimed or removed, or others were claimed once at most. -/
structure Fair (rt : Runtime) (t : ℤ) (id : Uuid) (w₀ w : World) : Prop where
  sound : Sound rt w
  waits : claims w₀.hist id < claims w.hist id ∨ (w.db.delivery? id = none ∧ id ∈ w.issued) ∨
    (Waiting t w id ∧ claims w.hist id = claims w₀.hist id ∧ ∀ id', Overtaken t w₀ w id')

theorem claims_mono {e : Event} (h : Sound rt w) (hl : Later rt t w e) (ht : Trans rt w e w') :
    claims w.hist id ≤ claims w'.hist id := by
  rcases ahead_trans h hl ht with hall | ⟨n, job, db, now, -, -, rfl⟩
  · exact (hall id).1.ge
  · show claims w.hist id ≤ claims (.claimed n job :: w.hist) id
    rw [claims_cons]
    omega

theorem fair_step {e : Event} (h : Fair rt t id w₀ w) (hl : Later rt t w e)
    (hs : step rt w e = some w') : Fair rt t id w₀ w' := by
  have ht := step_trans hs
  have hsound := h.sound
  refine ⟨sound_step hsound hs, ?_⟩
  rcases h.waits with hclaimed | ⟨hgone, hi⟩ | ⟨hwait, hzero, hover⟩
  · exact .inl (hclaimed.trans_le (claims_mono hsound hl ht))
  · exact .inr (.inl ⟨gone_step hsound hs hgone hi, issued_subset_effect (effect_step hsound hs) hi⟩)
  · have hissued : id ∈ w.issued := by
      obtain ⟨d, q, hr, -⟩ := hwait
      exact hsound.held.issued hr
    rcases waiting_trans hsound hl ht hwait with hwait' | hgone | hlt
    · by_cases hclaim : claims w'.hist id = claims w.hist id
      · refine .inr (.inr ⟨hwait', hclaim.trans hzero, fun id' => ?_⟩)
        rcases ahead_trans hsound hl ht with hall | ⟨n, job, db, now, hlt, hc, rfl⟩
        · obtain ⟨hcount, hahead⟩ := hall id'
          rcases hover id' with ⟨hsame, hback⟩ | ⟨honce, hfirst, hno⟩
          · exact .inl ⟨hcount.trans hsame, fun h => hback (hahead h)⟩
          · exact .inr ⟨hcount.trans honce, hfirst, fun h => hno (hahead h)⟩
        · have hcount : claims (.claimed n job :: w.hist) id' =
              claims w.hist id' + if job.id = id' then 1 else 0 := by
            rw [claims_cons]
            simp [Obs.claims]
          have hafter : Ahead t (({ w with db := db, hist := .claimed n job :: w.hist } : World).setPhase n
              (.rechecking job)) id' → Ahead t w id' ∧ id' ≠ job.id := fun h => ahead_claim hsound hc h
          show Overtaken t w₀ (World.setPhase _ n _) id'
          by_cases hid : job.id = id'
          · -- it was ahead, and is so no longer
            subst hid
            have hahead := hwait.claimed hlt hc
            rcases hover job.id with ⟨hsame, hback⟩ | ⟨-, -, hno⟩
            · refine .inr ⟨?_, hback hahead, fun h => (hafter h).2 rfl⟩
              show claims (.claimed n job :: w.hist) job.id = _
              rw [hcount, if_pos rfl, hsame]
            · exact absurd hahead hno
          · rw [if_neg hid, Nat.add_zero] at hcount
            rcases hover id' with ⟨hsame, hback⟩ | ⟨honce, hfirst, hno⟩
            · exact .inl ⟨hcount.trans hsame, fun h => hback (hafter h).1⟩
            · exact .inr ⟨hcount.trans honce, hfirst, fun h => hno (hafter h).1⟩
      · have hmono : claims w.hist id ≤ claims w'.hist id := claims_mono hsound hl ht
        exact .inl (by omega)
    · exact .inr (.inl ⟨hgone, issued_subset_effect (effect_step hsound hs) hissued⟩)
    · exact .inl (by omega)

/-- **A due delivery is not overtaken twice.**  As long as it waits, without
    being claimed or removed, every other delivery is claimed at most once, and
    only if it was ahead at the start; and every claim that does not fail finds
    something. -/
theorem overtaken_once {es : List Event} {d : DeliveryRow} {q : QueueRow}
    (h : Reach (step rt) World.init w) (hr : w.db.delivery? id = some (d, q))
    (hp : d.status = .pending) (hrun : Run (step rt) (Later rt q.nextAttemptAt) w es w')
    (hthere : w'.db.delivery? id ≠ none) (hwait : claims w'.hist id = claims w.hist id) :
    Waiting q.nextAttemptAt w' id ∧
    (∀ id', claims w'.hist id' ≤ claims w.hist id' + 1 ∧
      (¬ Ahead q.nextAttemptAt w id' → claims w'.hist id' = claims w.hist id')) ∧
    ∀ n, ∀ now : Now, q.nextAttemptAt ≤ now.time → n < w'.count → w'.workers n = .claiming →
      ∃ job w'', step rt w' (.claim n now none) = some w'' ∧ w''.hist = .claimed n job :: w'.hist := by
  have hstart : Fair rt q.nextAttemptAt id w w :=
    ⟨sound_of_reach h, .inr (.inr ⟨⟨d, q, hr, hp, rfl⟩, rfl, fun _ => .inl ⟨rfl, fun h => h⟩⟩)⟩
  have hfair := hrun.inv (fun _ _ _ hi hl hs => fair_step hi hl hs) hstart
  rcases hfair.waits with hclaimed | ⟨hgone, -⟩ | ⟨hw', -, hover⟩
  · omega
  · exact absurd hgone hthere
  · refine ⟨hw', fun id' => ?_, fun n now hle hn hph => hw'.claim hle hn hph⟩
    rcases hover id' with ⟨hsame, -⟩ | ⟨honce, hfirst, -⟩
    · exact ⟨by omega, fun _ => hsame⟩
    · exact ⟨by omega, fun hno => absurd hfirst hno⟩

end

/-- Two deliveries that are due at the same time. -/
def sampleDue : List Event :=
  [.saveEmail ⟨1, 0, "a@example.com", ["b@example.org"], "a@example.com", ["b@example.org"],
      "hello", .received, "", none, none⟩ none,
    .enqueue 1 2 [(3, ⟨0, 0, "alerts", sampleText, 0, 0⟩), (4, ⟨0, 0, "alerts", sampleText, 0, 0⟩)]
      (clock 100) none,
    .startQueue 2 none, .check 0, .check 1]

theorem overtaken_once_sample : ∃ w w' : World, claims w.hist 3 = 0 ∧ claims w'.hist 3 = 1 ∧
    Waiting 100 w' 4 ∧ ∀ id', claims w'.hist id' ≤ claims w.hist id' + 1 := by
  let rt := sampleRuntime sampleText sampleSnapshot
  let rest : List Event := [.claim 0 (clock 200) none, .recheck 0, .start 0]
  have hs : (exec (step rt) World.init sampleDue).map (fun w => (claims w.hist 3, claims w.hist 4,
      (w.db.delivery? 4).map fun r => (r.1.status, r.2.nextAttemptAt))) =
        some (0, 0, some (.pending, 100)) := by decide +kernel
  have hs' : (exec (step rt) World.init (sampleDue ++ rest)).map (fun w => (claims w.hist 3,
      claims w.hist 4, (w.db.delivery? 4).isSome)) = some (1, 0, true) := by decide +kernel
  obtain ⟨w, hw, heq⟩ := Option.map_eq_some_iff.1 hs
  obtain ⟨w', hw', heq'⟩ := Option.map_eq_some_iff.1 hs'
  simp only [Prod.mk.injEq] at heq heq'
  obtain ⟨h₀, hzero, hrow⟩ := heq
  obtain ⟨h₁, hzero', hthere⟩ := heq'
  obtain ⟨⟨d, q⟩, hr, hdq⟩ := Option.map_eq_some_iff.1 hrow
  rw [Prod.mk.injEq] at hdq
  rw [exec_append, hw, Option.bind_some] at hw'
  have hrun : Run (step rt) (Later rt q.nextAttemptAt) w rest w' := by
    rw [hdq.2]
    refine Run.of_exec (fun e he s => ?_) hw'
    simp only [rest, List.mem_cons, List.not_mem_nil, or_false] at he
    rcases he with rfl | rfl | rfl
    · show (100 : ℤ) < (clock 200).time
      decide
    · trivial
    · trivial
  have main := overtaken_once (Reach.of_exec hw) hr hdq.1 hrun
    (Option.ne_none_iff_isSome.2 hthere) (hzero'.trans hzero.symm)
  rw [hdq.2] at main
  exact ⟨w, w', h₀, h₁, main.1, fun id' => (main.2.1 id').1⟩

end Mailrelay
