/-
  Attempt accounting and the retry budget.

  `attempts` is read when a delivery is claimed, incremented in memory and
  written back by another transaction.  Two invariants account for it.
  `Ledger` is about requests alone: every request made is completed (its
  result was saved), interrupted, or in flight.  `Attempted` is about rows: the
  stored count is the number of completed requests, and stays within the budget
  of the snapshot.

  * `ledger_trans`, `attempted_effect`: every step keeps them;
  * `attempts_accounted`: the main result.
-/
import Mailrelay.System.Durability

namespace Mailrelay

open Lib

/-! ## Counting requests -/

namespace Obs

def sends (id : Uuid) : Obs → Bool
  | sent _ id' => id' == id
  | _ => false

/-- The result of a request was saved and counted. -/
def completes (id : Uuid) : Obs → Bool
  | saved job _ _ attempt => job.id == id && attempt == .completed
  | _ => false

/-- A request was cancelled by the shutdown, its result could not be saved, or
    it was lost in a crash. -/
def interrupts (id : Uuid) : Obs → Bool
  | saved job _ _ attempt => job.id == id && attempt == .cancelled
  | unsaved job attempt => job.id == id && attempt != .unsent
  | lost id' => id' == id
  | _ => false

end Obs

def sends (hist : List Obs) (id : Uuid) : ℕ := hist.countP (·.sends id)

def completed (hist : List Obs) (id : Uuid) : ℕ := hist.countP (·.completes id)

def interrupted (hist : List Obs) (id : Uuid) : ℕ := hist.countP (·.interrupts id)

/-- Requests made for the delivery whose result is not yet saved. -/
def inFlight (w : World) (id : Uuid) : ℕ :=
  (List.range w.count).countP fun n => (w.workers n).sent? == some id

/-- Every request is completed, interrupted or in flight. -/
def Ledger (w : World) : Prop := ∀ id,
  sends w.hist id = completed w.hist id + interrupted w.hist id + inFlight w id

section
variable {rt : Runtime} {w w' : World} {n : ℕ}

/-- Changing one worker changes a count over all workers by that worker. -/
theorem countP_range_update {α : Type} (p : α → Bool) (f : ℕ → α) (n : ℕ) (x : α) (k : ℕ)
    (hn : n < k) :
    (List.range k).countP (fun m => p (Function.update f n x m)) + (if p (f n) then 1 else 0) =
      (List.range k).countP (fun m => p (f m)) + (if p x then 1 else 0) := by
  induction k with
  | zero => omega
  | succ k ih =>
    rw [List.range_succ, List.countP_append, List.countP_append, List.countP_singleton,
      List.countP_singleton]
    by_cases hk : n = k
    · subst hk
      rw [Function.update_self]
      have : (List.range n).countP (fun m => p (Function.update f n x m)) =
          (List.range n).countP fun m => p (f m) := by
        refine List.countP_congr fun m hm => ?_
        rw [Function.update_of_ne (Nat.ne_of_lt (List.mem_range.1 hm))]
      omega
    · rw [Function.update_of_ne (Ne.symm hk)]
      have := ih (by omega)
      omega

theorem inFlight_setPhase (hn : n < w.count) (ph : Phase) (id : Uuid) :
    inFlight (w.setPhase n ph) id + (if (w.workers n).sent? == some id then 1 else 0) =
      inFlight w id + (if ph.sent? == some id then 1 else 0) :=
  countP_range_update (fun ph => Phase.sent? ph == some id) w.workers n ph w.count hn

/-- A worker's step balances what it observes with the request it holds. -/
theorem Ledger.setPhase (h : Ledger w) (hn : n < w.count) {ph : Phase} (os : List Obs) (db : Db)
    (hb : ∀ id, sends os id + (if (w.workers n).sent? == some id then 1 else 0) =
      completed os id + interrupted os id + (if ph.sent? == some id then 1 else 0)) :
    Ledger ({ w with db := db, hist := os ++ w.hist }.setPhase n ph) := by
  intro id
  have h₁ := h id
  have h₂ := hb id
  have h₃ : inFlight ({ w with db := db, hist := os ++ w.hist }.setPhase n ph) id +
      (if (w.workers n).sent? == some id then 1 else 0) =
        inFlight w id + (if ph.sent? == some id then 1 else 0) := inFlight_setPhase hn ph id
  simp only [sends, completed, interrupted, World.setPhase_hist, List.countP_append] at *
  omega

/-- A worker's step without a request. -/
theorem Ledger.idle (h : Ledger w) (hn : n < w.count) {ph : Phase} (os : List Obs) (db : Db)
    (hw : (w.workers n).sent? = none) (hph : ph.sent? = none)
    (hos : ∀ id, sends os id = completed os id + interrupted os id) :
    Ledger ({ w with db := db, hist := os ++ w.hist }.setPhase n ph) := by
  refine h.setPhase hn os db fun id => ?_
  rw [hw, hph, hos id]

/-- Any other step without a request. -/
theorem Ledger.frame (h : Ledger w) (os : List Obs) (hh : w'.hist = os ++ w.hist)
    (hos : ∀ id, sends os id = completed os id + interrupted os id)
    (hf : ∀ id, inFlight w' id = inFlight w id) : Ledger w' := by
  intro id
  have h₁ := h id
  have h₂ := hos id
  have h₃ := hf id
  rw [hh]
  simp only [sends, completed, interrupted, List.countP_append] at *
  omega

theorem interrupted_lost (w : World) (id : Uuid) : interrupted w.lost id = inFlight w id := by
  simp only [interrupted, World.lost, inFlight, List.countP_map, List.countP_filterMap]
  refine List.countP_congr fun n _ => ?_
  rcases (w.workers n).sent? with _ | id'
  · simp
  · simp [Obs.interrupts]

theorem ledger_crash (h : Ledger w) : Ledger { w with
    up := false, count := 0, workers := fun _ => .exited, stop := false, cancelled := false
    shutdown := .idle, hist := w.lost ++ w.hist } := by
  intro id
  have h₁ := h id
  have h₂ := interrupted_lost w id
  have hs : sends w.lost id = 0 := by
    simp only [sends, World.lost, List.countP_map]
    exact List.countP_eq_zero.2 fun o _ => Bool.false_ne_true
  have hc : completed w.lost id = 0 := by
    simp only [completed, World.lost, List.countP_map]
    exact List.countP_eq_zero.2 fun o _ => Bool.false_ne_true
  have hf : ∀ w₀ : World, w₀.count = 0 → inFlight w₀ id = 0 := by
    intro w₀ h₀; simp [inFlight, h₀]
  rw [hf _ rfl]
  simp only [sends, completed, interrupted, List.countP_append] at *
  omega

theorem inFlight_eq_zero {id : Uuid} (h : ∀ n < w.count, (w.workers n).sent? = none) :
    inFlight w id = 0 :=
  List.countP_eq_zero.2 fun n hn => by rw [h n (List.mem_range.1 hn)]; exact Bool.false_ne_true

theorem Attempt.of_ne_unsent (outcome : SendOutcome) (cancelled : Bool) :
    Attempt.of outcome cancelled ≠ .unsent := by
  rcases outcome with _ | _
  · cases cancelled <;> exact nofun
  · exact nofun

/-- **Every step keeps the ledger.** -/
theorem ledger_trans {e : Event} (h : Ledger w) (hheld : Held w) (ht : Trans rt w e w') :
    Ledger w' := by
  cases ht with
  | failed | saveEmail | setRules | stopQueue | shutdown | cancel | shutdownReturn => exact h
  | enqueue | drop | remove | expire => exact h.frame [_] rfl (fun _ => rfl) fun _ => rfl
  | @startQueue workers _ _ _ hu =>
    refine h.frame [_] rfl (fun _ => rfl) fun id => ?_
    rw [inFlight_eq_zero, inFlight_eq_zero]
    · intro n _
      rw [hheld.down hu n]; rfl
    · intro n _
      show (if n < workers then Phase.top else .exited).sent? = none
      split_ifs <;> rfl
  | crash => exact ledger_crash h
  | check hn hw =>
    exact h.idle hn [_] _ (by rw [hw]; rfl) (by split_ifs <;> rfl) fun _ => rfl
  | recheck hn hw =>
    exact h.idle hn [_] _ (by rw [hw]; rfl) (by split_ifs <;> rfl) fun _ => rfl
  | noClaim hn hw | refuse hn hw | tick hn hw =>
    exact h.idle hn [] _ (by rw [hw]; rfl) rfl fun _ => rfl
  | claim hn hw | release hn hw | noRelease hn hw | halt hn hw =>
    exact h.idle hn [_] _ (by rw [hw]; rfl) rfl fun _ => rfl
  | send hn hw =>
    refine h.setPhase hn [_] _ fun id => ?_
    rw [hw]
    simp [sends, completed, interrupted, Obs.sends, Obs.completes, Obs.interrupts, Phase.sent?]
  | settle hn hw =>
    refine h.setPhase hn [] _ fun id => ?_
    rw [hw]
    simp [sends, completed, interrupted, Phase.sent?, Attempt.of_ne_unsent]
  | @save _ _ _ _ attempt _ _ hn hw =>
    refine h.setPhase hn [_] _ fun id => ?_
    rw [hw]
    cases attempt <;>
      simp [sends, completed, interrupted, Obs.sends, Obs.completes, Obs.interrupts, Phase.sent?]
  | @noSave _ _ _ _ attempt _ _ hn hw =>
    refine h.setPhase hn [_] _ fun id => ?_
    rw [hw]
    cases attempt <;>
      simp [sends, completed, interrupted, Obs.sends, Obs.completes, Obs.interrupts, Phase.sent?]

/-! ## Stored attempts -/

structure Attempted (rt : Runtime) (w : World) : Prop where
  known : ∀ {id}, 0 < completed w.hist id → id ∈ w.issued
  attempts : ∀ {id d q}, w.db.delivery? id = some (d, q) → d.attempts = completed w.hist id
  budget : ∀ {id emailId snapshot snap d q}, Committed w.hist id emailId snapshot →
    rt.unmarshalSnapshot snapshot = .ok snap → 0 ≤ snap.retry.maxRetries →
    w.db.delivery? id = some (d, q) → d.attempts ≤ snap.retry.maxRetries + 1 ∧
      (d.status.unfinished → d.attempts ≤ snap.retry.maxRetries)

theorem attempted_init : Attempted rt World.init :=
  ⟨fun h => absurd h (Nat.lt_irrefl 0), nofun, fun ⟨_, h, _⟩ => nomatch h⟩

theorem completed_quiet {hist os : List Obs} (hos : ∀ o ∈ os, o.quiet) (id : Uuid) :
    completed (os ++ hist) id = completed hist id := by
  have : completed os id = 0 := by
    refine List.countP_eq_zero.2 fun o ho => ?_
    have := hos o ho
    cases o <;> simp_all [Obs.quiet, Obs.completes]
  simp only [completed, List.countP_append] at *
  omega

@[simp] theorem completed_cons (o : Obs) (hist : List Obs) (id : Uuid) :
    completed (o :: hist) id = completed hist id + if o.completes id then 1 else 0 :=
  List.countP_cons

theorem Attempted.alike (h : Attempted rt w) {os : List Obs} (hos : ∀ o ∈ os, o.quiet)
    (hh : w'.hist = os ++ w.hist) (hi : w.issued ⊆ w'.issued)
    (hd : ∀ id, Option.Rel Alike (w.db.delivery? id) (w'.db.delivery? id)) : Attempted rt w' := by
  have old : ∀ {id d q}, w'.db.delivery? id = some (d, q) →
      ∃ r, w.db.delivery? id = some r ∧ Alike r (d, q) := by
    intro id d q hr
    have := hd id
    rw [hr] at this
    exact rel_some this
  constructor
  · intro id hc
    rw [hh, completed_quiet hos] at hc
    exact hi (h.known hc)
  · intro id d q hr
    obtain ⟨r, hr₀, ha⟩ := old hr
    rw [hh, completed_quiet hos, ← h.attempts hr₀]
    exact ha.attempts
  · intro id emailId snapshot snap d q hc hs hm hr
    rw [hh, committed_quiet hos] at hc
    obtain ⟨r, hr₀, ha⟩ := old hr
    obtain ⟨h₁, h₂⟩ := h.budget hc hs hm hr₀
    rw [ha.attempts]
    exact ⟨h₁, fun hu => h₂ (ha.unfinished.symm.trans hu)⟩

theorem Attempted.enqueue (h : Attempted rt w) {emailId batch : Uuid} {now : ℤ}
    {jobs : List (Uuid × QueuedDelivery)}
    (hi : ∀ id ∈ batch :: jobs.map Prod.fst, id ∉ w.issued)
    (he : Enqueued w.db emailId batch jobs now w'.db)
    (hi' : w'.issued = (batch :: jobs.map Prod.fst) ++ w.issued)
    (hh : w'.hist = .enqueued emailId batch jobs :: w.hist) : Attempted rt w' := by
  have hcom : ∀ id, completed w'.hist id = completed w.hist id := by
    intro id; rw [hh, completed_cons]; rfl
  constructor
  · intro id hc
    rw [hcom] at hc
    rw [hi']
    exact List.mem_append_right _ (h.known hc)
  · intro id d q hr
    rw [hcom]
    rcases he.delivery?_cases id with ⟨j, hj, rfl, -, hn⟩ | ⟨-, ho⟩
    · rw [hn] at hr
      cases hr
      have : ¬ 0 < completed w.hist j.1 := fun hc =>
        hi _ (List.mem_cons_of_mem _ (List.mem_map_of_mem hj)) (h.known hc)
      show (0 : ℤ) = _
      omega
    · rw [ho] at hr; exact h.attempts hr
  · intro id emailId' snapshot snap d q hc hs hm hr
    rcases he.delivery?_cases id with ⟨j, hj, rfl, -, hn⟩ | ⟨hid, ho⟩
    · rw [hn] at hr
      cases hr
      exact ⟨by show (0 : ℤ) ≤ _; omega, fun _ => hm⟩
    · rw [ho] at hr
      rw [hh, committed_cons] at hc
      refine h.budget (hc.resolve_left fun hc => hid ?_) hs hm hr
      simp only [Obs.commits, Bool.and_eq_true, beq_iff_eq, List.any_eq_true] at hc
      obtain ⟨-, j, hj, rfl, -⟩ := hc
      exact List.mem_map_of_mem hj

section
variable {n : ℕ} {job : QueuedDelivery} {result : DeliveryResult} {next : ℤ} {o : Obs}

/-- The result counts a request exactly when the observation does. -/
theorem Finishing.attempts (h : Finishing rt w n job result next o) :
    result.attempts = job.attempts + if o.completes job.id then 1 else 0 := by
  rcases h with ⟨rfl, rfl, -⟩ | ⟨attempt, rfl, -, hs⟩
  · simp [Obs.completes, releaseResult]
  · cases hs with
    | refused _ ha => simp [Obs.completes, ha]
    | final _ ha => simp [Obs.completes, ha]
    | cancelled _ _ ha => simp [Obs.completes, ha]
    | retry _ _ _ ha => simp [Obs.completes, ha]

theorem Finishing.completes (h : Finishing rt w n job result next o) {id : Uuid}
    (hc : o.completes id) : id = job.id := by
  rcases h with ⟨rfl, -⟩ | ⟨_, rfl, -⟩
  · cases hc
  · simp only [Obs.completes, Bool.and_eq_true, beq_iff_eq] at hc
    exact hc.1.symm

/-- The count stays within the budget of the snapshot, and one below it while
    another attempt is due. -/
theorem Finishing.budget (h : Finishing rt w n job result next o) {snap : DeliverySnapshot}
    (hs : rt.unmarshalSnapshot job.snapshot = .ok snap)
    (hle : job.attempts ≤ snap.retry.maxRetries) :
    result.attempts ≤ snap.retry.maxRetries + 1 ∧
      (result.status.unfinished → result.attempts ≤ snap.retry.maxRetries) := by
  rcases h with ⟨rfl, rfl, -⟩ | ⟨attempt, rfl, -, hset⟩
  · have : (releaseResult job).attempts = job.attempts := rfl
    exact ⟨by omega, fun _ => by omega⟩
  · cases hset with
    | refused hst ha => rw [hst]; exact ⟨by omega, nofun⟩
    | final hst ha =>
      rw [DeliveryStatus.not_unfinished_of_final hst]; exact ⟨by omega, nofun⟩
    | cancelled _ _ ha => exact ⟨by omega, fun _ => by omega⟩
    | @retry _ snap' hun _ ha hmax =>
      rw [hs] at hun
      cases hun
      exact ⟨by omega, fun _ => by omega⟩

end

theorem Attempted.finish (h : Attempted rt w) (hw : Held w) (hdur : Durable w) {n : ℕ}
    {job : QueuedDelivery} {result : DeliveryResult} {next now : ℤ} {o : Obs}
    (hj : (w.workers n).job? = some job)
    (ho : Finishing rt w n job result next o)
    (hdb : w'.db = w.db.finish job result next now) (hi : w'.issued = w.issued)
    (hh : w'.hist = o :: w.hist) : Attempted rt w' := by
  constructor
  · intro id hc
    rw [hi]
    rw [hh, completed_cons] at hc
    by_cases hid : o.completes id
    · rw [ho.completes hid]; exact hw.known hj
    · rw [if_neg hid] at hc; exact h.known hc
  · intro id d q hr
    rw [hdb] at hr
    rw [hh, completed_cons]
    obtain ⟨d₀, q₀, hr₀, ⟨rfl, rfl, -⟩ | ⟨hid, rfl, -⟩⟩ := finish_row hr
    · have hjob : job.attempts = d₀.attempts := by rw [(hw.row hj hr₀).2]; rfl
      rw [DeliveryRow.setResult_attempts, ho.attempts, hjob, h.attempts hr₀]
      split_ifs <;> simp
    · rw [if_neg fun hc => hid (ho.completes hc), h.attempts hr₀]; rfl
  · intro id emailId snapshot snap d q hc hs hm hr
    rw [hdb] at hr
    obtain ⟨d₀, q₀, hr₀, ⟨rfl, rfl, -⟩ | ⟨-, rfl, -⟩⟩ := finish_row hr
    · -- the row is in progress, so it has its snapshot and is within the budget
      obtain ⟨hin, hjob⟩ := hw.row hj hr₀
      have hu : d₀.status.unfinished := by rw [hin]; rfl
      have hfin : ¬ Finished w.hist job.id := fun hf => by
        have := (hdur.done hf hr₀).1
        rw [hin] at this
        cases this
      have hsnap : job.snapshot = snapshot := by
        rw [hjob]; exact (hdur.live (ho.committed hh hc) hfin hr₀).2
      have hja : job.attempts = d₀.attempts := by rw [hjob]; rfl
      rw [DeliveryRow.setResult_attempts, DeliveryRow.setResult_status]
      refine ho.budget (by rw [hsnap]; exact hs) ?_
      rw [hja]
      exact (h.budget (ho.committed hh hc) hs hm hr₀).2 hu
    · exact h.budget (ho.committed hh hc) hs hm hr₀

theorem attempted_effect (h : Attempted rt w) (hw : Held w) (hdur : Durable w)
    (he : Effect rt w w') : Attempted rt w' := by
  cases he with
  | alike os hos hh hi hd => exact h.alike hos hh hi hd
  | enqueue _ _ hi he hi' hh => exact h.enqueue hi he hi' hh
  | @delete p o ho hdb hi hh =>
    have hcom : ∀ id, completed w'.hist id = completed w.hist id := by
      intro id
      rw [hh, completed_cons]
      rcases ho with rfl | ⟨rfl, -⟩ <;> rfl
    refine ⟨fun hc => ?_, fun hr => ?_, fun hc hs hm hr => ?_⟩
    · rw [hcom] at hc; rw [hi]; exact h.known hc
    · rw [hdb] at hr; rw [hcom]; exact h.attempts (delivery?_of_deleteEmails hw hr)
    · rw [hdb] at hr
      rw [hh, committed_cons] at hc
      refine h.budget (hc.resolve_left fun hc => ?_) hs hm (delivery?_of_deleteEmails hw hr)
      rcases ho with rfl | ⟨rfl, -⟩ <;> cases hc
  | finish hj ho hdb hi hh => exact h.finish hw hdur hj ho hdb hi hh

/-! ## The main result -/

/-- All that is proved of reachable states so far. -/
structure Accounted (rt : Runtime) (w : World) : Prop where
  sound : Sound rt w
  durable : Durable w
  ledger : Ledger w
  attempted : Attempted rt w

theorem accounted_init : Accounted rt World.init :=
  ⟨sound_init, durable_init, fun _ => rfl, attempted_init⟩

theorem accounted_step {e : Event} (h : Accounted rt w) (ht : step rt w e = some w') :
    Accounted rt w' where
  sound := sound_step h.sound ht
  durable := durable_effect h.durable h.sound.held (effect_step h.sound ht)
  ledger := ledger_trans h.ledger h.sound.held (step_trans ht)
  attempted := attempted_effect h.attempted h.sound.held h.durable (effect_step h.sound ht)

/-- The history only grows. -/
theorem hist_suffix_effect (he : Effect rt w w') : w.hist <:+ w'.hist := by
  cases he with
  | alike os _ hh => exact ⟨os, hh.symm⟩
  | enqueue _ _ _ _ _ hh => exact ⟨[_], hh.symm⟩
  | delete _ _ _ _ hh => exact ⟨[_], hh.symm⟩
  | finish _ _ _ _ hh => exact ⟨[_], hh.symm⟩

/-- **Attempt accounting and retry budget.**  In every reachable state in which
    the row of a delivery exists, its requests are counted, interrupted or in
    flight, and its attempts are within the budget; and from there on its
    attempts never decrease. -/
theorem attempts_accounted (rt : Runtime) (w w' : World) (id emailId : Uuid) (snapshot : String)
    (snap : DeliverySnapshot) (d : DeliveryRow) (q : QueueRow)
    (h : Reach (step rt) World.init w) (h' : Reach (step rt) w w')
    (hc : Committed w.hist id emailId snapshot)
    (hs : rt.unmarshalSnapshot snapshot = .ok snap) (hm : 0 ≤ snap.retry.maxRetries)
    (hr : w.db.delivery? id = some (d, q)) :
    (sends w.hist id : ℤ) = d.attempts + interrupted w.hist id + inFlight w id ∧
    (d.status = .pending → d.attempts ≤ snap.retry.maxRetries) ∧
    d.attempts ≤ snap.retry.maxRetries + 1 ∧
    (d.attempts = snap.retry.maxRetries + 1 → d.status.unfinished = false) ∧
    ∀ d' q', w'.db.delivery? id = some (d', q') → d.attempts ≤ d'.attempts := by
  have hw : Accounted rt w := h.inv (fun _ _ _ hi ht => accounted_step hi ht) accounted_init
  have hw' : Accounted rt w' := h'.inv (fun _ _ _ hi ht => accounted_step hi ht) hw
  have hsuf : w.hist <:+ w'.hist := by
    obtain ⟨es, hrun⟩ := h'
    refine hrun.rel (I := Accounted rt) (R := fun w w' => w.hist <:+ w'.hist)
      (fun w => List.suffix_refl w.hist) List.IsSuffix.trans
      (fun _ _ _ hi _ ht => accounted_step hi ht) ?_ hw
    intro _ _ _ hi _ ht
    exact hist_suffix_effect (effect_step hi.sound ht)
  have ha := hw.attempted.attempts hr
  obtain ⟨hb₁, hb₂⟩ := hw.attempted.budget hc hs hm hr
  refine ⟨?_, fun hp => hb₂ (by rw [hp]; rfl), hb₁, fun he => ?_, fun d' q' hr' => ?_⟩
  · have := hw.ledger id
    omega
  · rw [Bool.eq_false_iff]
    intro hu
    have := hb₂ hu
    omega
  · rw [ha, hw'.attempted.attempts hr']
    exact_mod_cast hsuf.sublist.countP_le

end

/-- A delivery whose first attempt fails and is retried. -/
def sampleRetry : List Event :=
  sampleClaim sampleText ++ [.recheck 0, .start 0,
    .settle 0 (.error (.webhook 503 "busy")) (clock 300),
    .save 0 (clock 400) none]

theorem attempts_accounted_sample : ∃ w d q, w.db.delivery? 3 = some (d, q) ∧
    d.attempts = 1 ∧ (sends w.hist 3 : ℤ) = d.attempts + interrupted w.hist 3 + inFlight w 3 ∧
    (d.status = .pending → d.attempts ≤ 1) ∧ d.attempts ≤ 1 + 1 ∧
    (d.attempts = 1 + 1 → d.status.unfinished = false) ∧
    ∀ d' q', w.db.delivery? 3 = some (d', q') → d.attempts ≤ d'.attempts := by
  have hs : ((exec (step (sampleRuntime sampleText sampleSnapshot)) World.init sampleRetry).map
      fun w => (decide (Committed w.hist 3 1 sampleText), (w.db.delivery? 3).map fun r =>
        r.1.attempts)) = some (true, some 1) := by decide +kernel
  obtain ⟨w, hw, h⟩ := Option.map_eq_some_iff.1 hs
  simp only [Prod.mk.injEq, decide_eq_true_eq] at h
  obtain ⟨⟨d, q⟩, hr, hd⟩ := Option.map_eq_some_iff.1 h.2
  exact ⟨w, d, q, hr, hd, attempts_accounted (sampleRuntime sampleText sampleSnapshot) w w 3 1
    sampleText sampleSnapshot d q (Reach.of_exec hw) (Reach.refl w) h.1
    (sampleRuntime_unmarshal _ _) (by decide) hr⟩

end Mailrelay
