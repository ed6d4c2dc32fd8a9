/-
  No email is stuck as received.

  The handler of `buildHandler` (`cmd/mailrelay/main.go`) beside the delivery
  queue: `Mailroom` is the world of the queue with the handler calls in flight.
  A call saves its email as `received`, matches it against the rules, and then
  either marks it `dropped` or enqueues its deliveries.  It fails when
  `SaveEmail` or `Enqueue` fails; a failed `UpdateEmailStatus` is only logged.
  Any other use of the store may fall in between: replays, deletions,
  retention, the workers of the queue, crashes.

  * `received_trans`: no step of the queue makes an email `received` without
    enqueueing deliveries for it;
  * `settled_step`: what holds of every acknowledged email;
  * `received_has_unfinished`: the main result.
-/
import Mailrelay.Rules.Engine
import Mailrelay.System.Attempts
import Mailrelay.System.Files
import Mailrelay.System.Status

namespace Mailrelay

open Lib

/-! ## Handler calls -/

inductive HandlerCall where
  | idle
  /-- before `Engine.Match` -/
  | matching (id : Uuid) (email : ParsedEmail)
  /-- before `UpdateEmailStatus` -/
  | dropping (id : Uuid)
  /-- before `Enqueue` -/
  | enqueueing (id : Uuid) (email : ParsedEmail) (matched : List Rule)
  deriving DecidableEq, Repr

/-- The email of the call. -/
def HandlerCall.id? : HandlerCall → Option Uuid
  | idle => none
  | matching id _ | dropping id | enqueueing id _ _ => some id

/-- `accepted` is a ghost variable: the emails whose call returned nil. -/
structure Mailroom where
  world : World
  calls : ℕ → HandlerCall
  accepted : List Uuid

inductive MailroomEvent where
  | save (n : ℕ) (id : Uuid) (email : ParsedEmail) (receivedAt : Now) (fuse : Option ℕ)
  | «match» (n : ℕ)
  | drop (n : ℕ) (fuse : Option ℕ)
  | enqueue (n : ℕ) (global : RetryConfig) (batch : Uuid) (ids : ℕ → Uuid) (now : Now)
      (fuse : Option ℕ)
  | other (e : Event)

namespace Mailroom

def init : Mailroom := ⟨.init, fun _ => .idle, []⟩

def setCall (m : Mailroom) (n : ℕ) (call : HandlerCall) : Mailroom :=
  { m with calls := Function.update m.calls n call }

/-- The call returns nil. -/
def accept (m : Mailroom) (n : ℕ) (id : Uuid) : Mailroom :=
  { m with accepted := id :: m.accepted }.setCall n .idle

def step (lib : HandlerLib) (m : Mailroom) : MailroomEvent → Option Mailroom
  | .save n id email receivedAt fuse =>
    let record := receivedRecord lib.utf8 id email receivedAt
    match m.calls n, Mailrelay.step lib.rt m.world (.saveEmail record fuse) with
    | .idle, some world =>
      match (Tx.transaction (saveEmail record) fuse m.world.db).1 with
      | .ok () => some ({ m with world := world }.setCall n (.matching id email))
      | .error _ => some { m with world := world }
    | _, _ => none
  | .match n =>
    match m.calls n with
    | .matching id email =>
      let matched := engineMatch lib.patterns m.world.rules email
      if matched.length = 0 then some (m.setCall n (.dropping id))
      else some (m.setCall n (.enqueueing id email matched))
    | _ => none
  | .drop n fuse =>
    match m.calls n with
    | .dropping id =>
      (Mailrelay.step lib.rt m.world (.drop id fuse)).map fun world =>
        -- an error is only logged
        { m with world := world }.accept n id
    | _ => none
  | .enqueue n global batch ids now fuse =>
    match m.calls n with
    | .enqueueing id email matched =>
      match enqueueJobs lib.rt global email matched with
      | .error _ => some (m.setCall n .idle)
      | .ok jobs =>
        (Mailrelay.step lib.rt m.world (.enqueue id batch (numbered ids jobs) now fuse)).map
          fun world =>
            match (Tx.transaction (enqueueDeliveries id batch (numbered ids jobs) now.time) fuse
              m.world.db).1 with
            | .ok () => { m with world := world }.accept n id
            | .error _ => { m with world := world }.setCall n .idle
    | _ => none
  | .other e => (Mailrelay.step lib.rt m.world e).map fun world => { m with
      world := world
      -- a crash ends every call
      calls := match e with | .crash => fun _ => .idle | _ => m.calls }

end Mailroom

/-! ## Steps of the queue -/

section
variable {rt : Runtime} {w w' : World} {e : Event} {id : Uuid}

/-- The email is `received`, and no deliveries were ever enqueued for it. -/
def Stuck (w : World) (id : Uuid) : Prop :=
  lastBatch w.hist id = none ∧ ∃ row, w.db.emails.get? id = some row ∧ row.status = .received

theorem lastBatch_of_suffix {hist hist' : List Obs} (hs : hist <:+ hist')
    (hn : lastBatch hist' id = none) : lastBatch hist id = none := by
  obtain ⟨os, rfl⟩ := hs
  rw [lastBatch, List.findSome?_append] at hn
  exact (Option.or_eq_none_iff.1 hn).2

theorem lastBatch_enqueued {hist : List Obs} {batch : Uuid} {jobs : List (Uuid × QueuedDelivery)} :
    lastBatch (.enqueued id batch jobs :: hist) id = some (batch, jobs) := by
  simp [lastBatch, Obs.batchOf]

theorem aggregateStatus_ne_received (rows : List DeliveryRow) :
    aggregateStatus rows ≠ .received := by
  dsimp only [aggregateStatus]
  split_ifs <;> exact nofun

/-- Finishing a delivery makes no email `received`. -/
theorem received_finish {db : Db} {job : QueuedDelivery} {result : DeliveryResult} {next now : ℤ}
    {row : EmailRow} (hrow : (db.finish job result next now).emails.get? id = some row)
    (hs : row.status = .received) : ∃ row, db.emails.get? id = some row ∧ row.status = .received := by
  rw [get?_finish, Option.map_eq_some_iff] at hrow
  obtain ⟨row₀, h₀, rfl⟩ := hrow
  refine ⟨row₀, h₀, ?_⟩
  split_ifs at hs
  · exact absurd hs (aggregateStatus_ne_received _)
  · exact hs

theorem received_delete {db : Db} {p : EmailRow → Bool} {row : EmailRow}
    (hrow : (db.deleteEmails p).emails.get? id = some row) (hs : row.status = .received) :
    ∃ row, db.emails.get? id = some row ∧ row.status = .received := by
  rw [Db.get?_deleteEmails] at hrow
  exact ⟨row, (Option.filter_eq_some_iff.1 hrow).1, hs⟩

/-- **No step makes an email `received`** without enqueueing deliveries. -/
theorem received_trans (hw : Held w) (hi : id ∈ w.issued) (ht : Trans rt w e w')
    (hb : lastBatch w'.hist id = none) {row : EmailRow} (hrow : w'.db.emails.get? id = some row)
    (hs : row.status = .received) :
    ∃ row, w.db.emails.get? id = some row ∧ row.status = .received := by
  cases ht with
  | @saveEmail record _ db hid hins =>
    obtain ⟨he, -, -, -⟩ := insertEmail_ok hins
    refine ⟨row, ?_, hs⟩
    rw [← hrow]
    refine (Table.get?_append_old he fun e' he' hk => ?_).symm
    rw [List.mem_singleton.1 he'] at hk
    have hk' : record.id = id := hk
    exact hid (hk' ▸ hi)
  | @enqueue emailId batch _ _ db jobs _ _ _ he =>
    have hne : emailId ≠ id := by
      rintro rfl
      exact Option.some_ne_none _ (lastBatch_enqueued.symm.trans hb)
    have hrow' : db.emails.get? id = some row := hrow
    rw [he.emails, Table.get?_update, Option.map_eq_some_iff] at hrow'
    obtain ⟨row₀, h₀, rfl⟩ := hrow'
    have hk : row₀.id = id := Table.get?_key h₀
    rw [if_neg (by simp [hk, hne.symm])] at hs
    exact ⟨row₀, h₀, hs⟩
  | drop hd =>
    obtain ⟨-, -, he⟩ := Db.updateEmailStatus_dropped_ok hw.paired hd
    obtain ⟨row₀, h₀, rfl⟩ := Option.map_eq_some_iff.1 ((he id).symm.trans hrow)
    refine ⟨row₀, h₀, ?_⟩
    split_ifs at hs
    exact hs
  | remove p => exact received_delete hrow hs
  | expire p _ => exact received_delete hrow hs
  | startQueue _ hrec =>
    obtain ⟨he, -, -, -⟩ := recoverDeliveries_ok hrec
    exact ⟨row, by rw [← he]; exact hrow, hs⟩
  | claim _ _ hc =>
    have hdb := hc.db'
    subst hdb
    exact ⟨row, hrow, hs⟩
  | release => exact received_finish hrow hs
  | save => exact received_finish hrow hs
  | _ => exact ⟨row, hrow, hs⟩

theorem issued_subset_effect (he : Effect rt w w') : w.issued ⊆ w'.issued := by
  cases he with
  | alike _ _ _ hi => exact hi
  | enqueue _ _ _ _ hi _ => rw [hi]; exact List.subset_append_right _ _
  | delete _ _ _ hi _ => rw [hi]; exact List.Subset.refl _
  | finish _ _ _ hi _ => rw [hi]; exact List.Subset.refl _

/-- A known email does not become stuck. -/
theorem not_stuck_step (hs : Sound rt w) (hi : id ∈ w.issued) (h : step rt w e = some w')
    (hn : ¬ Stuck w id) : ¬ Stuck w' id := by
  rintro ⟨hb, row, hrow, hr⟩
  have hsuf := hist_suffix_effect (effect_step hs h)
  exact hn ⟨lastBatch_of_suffix hsuf hb, received_trans hs.held hi (step_trans h) hb hrow hr⟩

/-- A committed `UpdateEmailStatus(dropped)` leaves its email dropped, unless
    deliveries are unfinished. -/
theorem not_stuck_drop {fuse : Option ℕ} (hw : Held w) (ht : Truth w) (hf : fuse ≠ some 0)
    (h : step rt w (.drop id fuse) = some w') : ¬ Stuck w' id := by
  obtain ⟨db, hd, rfl⟩ : ∃ db, updateEmailStatus id .dropped (w.db, none) = .ok ((), db, none) ∧
      w' = { w with db := db }.observe (.dropped id) := by
    rcases fuse with _ | _ | n
    · cases h; exact ⟨_, rfl, rfl⟩
    · exact absurd rfl hf
    · cases h; exact ⟨_, rfl, rfl⟩
  obtain ⟨-, hq, he⟩ := Db.updateEmailStatus_dropped_ok hw.paired hd
  rintro ⟨hb, row, hrow, hr⟩
  obtain ⟨row₀, h₀, rfl⟩ := Option.map_eq_some_iff.1 ((he id).symm.trans hrow)
  have hk : row₀.id = id := Table.get?_key h₀
  split_ifs at hr with hc
  -- spared, so it has an unfinished delivery
  have hu : w.db.hasUnfinished id := by simpa [hk] using hc
  obtain ⟨_, _, q, hj, hqe, -⟩ := Db.hasUnfinished_iff.1 hu
  exact ht.unqueued ((lastBatch_cons_of_none rfl).symm.trans hb) q
    (Table.mem_of_get? (Db.delivery?_eq_some.1 hj).2) hqe

/-- A committed `EnqueueDeliveries` is the newest batch of its email. -/
theorem not_stuck_enqueue {batch : Uuid} {jobs : List (Uuid × QueuedDelivery)} {now : Now}
    {fuse : Option ℕ} (h : step rt w (.enqueue id batch jobs now fuse) = some w')
    (hok : (Tx.transaction (enqueueDeliveries id batch jobs now.time) fuse w.db).1 = .ok ()) :
    ¬ Stuck w' id := by
  dsimp only [step] at h
  split_ifs at h
  split at h
  next db ht =>
    cases h
    rintro ⟨hb, -⟩
    exact Option.some_ne_none _ (lastBatch_enqueued.symm.trans hb)
  next hne =>
    rcases ht : Tx.transaction (enqueueDeliveries id batch jobs now.time) fuse w.db with ⟨r, db⟩
    rw [ht] at hok
    have hr : r = .ok () := hok
    exact absurd (hr ▸ ht) (hne db)

/-- **An email that is not stuck is received only with deliveries unfinished.** -/
theorem unfinished_of_received (ht : Truth w) (hn : ¬ Stuck w id) {row : EmailRow}
    (hrow : w.db.emails.get? id = some row) (hr : row.status = .received) :
    Unfinished w.db id := by
  rcases hb : lastBatch w.hist id with _ | ⟨batch, jobs⟩
  · exact absurd ⟨hb, row, hrow, hr⟩ hn
  · have hs := ht.status hrow hb
    rw [hr] at hs
    unfold storedStatus at hs
    split_ifs at hs with hu
    · obtain ⟨id', d, q, hj, he, hu⟩ := Db.hasUnfinished_iff.1 hu
      refine ⟨id', d, q, hj, he, ?_⟩
      revert hu
      cases d.status <;> simp [DeliveryStatus.unfinished]
    · exact absurd hs.symm (aggregateStatus_ne_received _)

end

/-! ## Acknowledged mail -/

namespace Mailroom

variable {lib : HandlerLib} {m m' : Mailroom} {e : MailroomEvent}

/-- A handler's `UpdateEmailStatus` fails only on an email that was meanwhile
    deleted, given another status or enqueued. -/
def Allowed (m : Mailroom) : MailroomEvent → Prop
  | .drop n fuse => fuse = some 0 → ∀ id, m.calls n = .dropping id →
      ∀ row, m.world.db.emails.get? id = some row → row.status = .received →
        ∃ q ∈ m.world.db.queue.rows, q.emailId = id
  | _ => True

structure Settled (rt : Runtime) (m : Mailroom) : Prop where
  reach : Reach (Mailrelay.step rt) World.init m.world
  call : ∀ n id, (m.calls n).id? = some id → id ∈ m.world.issued
  accepted : ∀ id ∈ m.accepted, id ∈ m.world.issued ∧ ¬ Stuck m.world id

theorem settled_init (rt : Runtime) : Settled rt init := ⟨Reach.refl _, nofun, nofun⟩

/-- The world takes a step, and the calls keep their emails. -/
theorem Settled.world {rt : Runtime} (h : Settled rt m) {e : Event} {world : World}
    (hs : Mailrelay.step rt m.world e = some world)
    (hc : ∀ n id, (m'.calls n).id? = some id → (m.calls n).id? = some id ∨ id ∈ world.issued)
    (ha : ∀ id ∈ m'.accepted, id ∈ m.accepted ∨ id ∈ m.world.issued ∧ ¬ Stuck world id)
    (hw : m'.world = world) : Settled rt m' := by
  have hsound := sound_of_reach h.reach
  have hi := issued_subset_effect (effect_step hsound hs)
  subst hw
  refine ⟨h.reach.trans ⟨[e], .cons trivial hs .nil⟩, fun n id hid => ?_, fun id hid => ?_⟩
  · rcases hc n id hid with hid | hid
    · exact hi (h.call n id hid)
    · exact hid
  · rcases ha id hid with hid | ⟨hid, hst⟩
    · obtain ⟨hid, hst⟩ := h.accepted id hid
      exact ⟨hi hid, not_stuck_step hsound hid hs hst⟩
    · exact ⟨hi hid, hst⟩

/-- One call moves on. -/
theorem id?_setCall {n k : ℕ} {call : HandlerCall} {id : Uuid}
    (h : ((m.setCall n call).calls k).id? = some id) :
    (m.calls k).id? = some id ∨ call.id? = some id := by
  dsimp only [setCall] at h
  rw [Function.update_apply] at h
  split_ifs at h with hk
  · exact .inr h
  · exact .inl h

/-- A call moves on with its email, or ends without an answer. -/
theorem Settled.setCall {rt : Runtime} (h : Settled rt m) {n : ℕ} {call : HandlerCall}
    (hc : ∀ id, call.id? = some id → (m.calls n).id? = some id) : Settled rt (m.setCall n call) := by
  refine ⟨h.reach, fun k id hk => ?_, h.accepted⟩
  rcases id?_setCall hk with hk | hk
  · exact h.call k id hk
  · exact h.call n id (hc id hk)

/-- A call ends with an error. -/
theorem Settled.finish {rt : Runtime} (h : Settled rt m) {n : ℕ} {e : Event} {world : World}
    (hs : Mailrelay.step rt m.world e = some world) :
    Settled rt ({ m with world := world }.setCall n .idle) := by
  have hworld : Settled rt { m with world := world } :=
    h.world hs (fun _ _ => .inl) (fun _ => .inl) rfl
  exact hworld.setCall nofun

/-- A call returns nil for an email that is not stuck. -/
theorem Settled.accept {rt : Runtime} (h : Settled rt m) {n : ℕ} {id : Uuid} {e : Event}
    {world : World} (hs : Mailrelay.step rt m.world e = some world) (hid : (m.calls n).id? = some id)
    (hn : ¬ Stuck world id) : Settled rt ({ m with world := world }.accept n id) := by
  refine h.world hs (fun k id' hk => .inl ?_) (fun id' hid' => ?_) rfl
  · exact (id?_setCall hk).resolve_right nofun
  · rcases List.mem_cons.1 hid' with rfl | hid'
    · exact .inr ⟨h.call n id' hid, hn⟩
    · exact .inl hid'

/-- **Every allowed step keeps acknowledged mail settled.** -/
theorem settled_step (h : Settled lib.rt m) (ha : m.Allowed e) (hs : m.step lib e = some m') :
    Settled lib.rt m' := by
  have hsound := sound_of_reach h.reach
  have htruth := truth_of_reach h.reach
  cases e with
  | save n id email receivedAt fuse =>
    dsimp only [step] at hs
    split at hs
    next world hn hw =>
      have hid : id ∈ world.issued := by
        dsimp only [Mailrelay.step] at hw
        split_ifs at hw
        cases hw
        exact List.mem_cons_self
      split at hs
      next =>
        cases hs
        refine h.world hw (fun k id' hk => ?_) (fun _ => .inl) rfl
        rcases id?_setCall hk with hk | hk
        · exact .inl hk
        · cases hk; exact .inr hid
      next => cases hs; exact h.world hw (fun _ _ => .inl) (fun _ => .inl) rfl
    next => cases hs
  | «match» n =>
    dsimp only [step] at hs
    split at hs
    next id email hn =>
      split_ifs at hs
      · cases hs; exact h.setCall fun id' hid => by rw [hn, ← hid]; rfl
      · cases hs; exact h.setCall fun id' hid => by rw [hn, ← hid]; rfl
    next => cases hs
  | drop n fuse =>
    dsimp only [step] at hs
    split at hs
    next id hn =>
      obtain ⟨world, hw, rfl⟩ := Option.map_eq_some_iff.1 hs
      refine h.accept hw (by rw [hn]; rfl) ?_
      by_cases hf : fuse = some 0
      · -- the failure is only logged
        subst hf
        cases hw
        rintro ⟨hb, row, hrow, hr⟩
        obtain ⟨q, hq, he⟩ := ha rfl id hn row hrow hr
        exact htruth.unqueued hb q hq he
      · exact not_stuck_drop hsound.held htruth hf hw
    next => cases hs
  | enqueue n global batch ids now fuse =>
    dsimp only [step] at hs
    split at hs
    next id email matched hn =>
      split at hs
      next => cases hs; exact h.setCall nofun
      next jobs hj =>
        obtain ⟨world, hw, rfl⟩ := Option.map_eq_some_iff.1 hs
        split
        next hok => exact h.accept hw (by rw [hn]; rfl) (not_stuck_enqueue hw hok)
        next => exact h.finish hw
    next => cases hs
  | other e =>
    obtain ⟨world, hw, rfl⟩ := Option.map_eq_some_iff.1 hs
    refine h.world hw (fun k id' hk => .inl ?_) (fun _ => .inl) rfl
    dsimp only at hk
    split at hk
    · cases hk
    · exact hk

end Mailroom

/-- **No email is stuck as received**: after any run whose steps are allowed,
    also with handler calls in flight, an acknowledged email that is `received`
    has a pending delivery or one in progress. -/
theorem received_has_unfinished (lib : HandlerLib) (es : List MailroomEvent) (m : Mailroom)
    (h : Run (Mailroom.step lib) Mailroom.Allowed Mailroom.init es m) (id : Uuid) (row : EmailRow)
    (hid : id ∈ m.accepted) (hrow : m.world.db.emails.get? id = some row)
    (hr : row.status = .received) : Unfinished m.world.db id := by
  have hs := h.inv (I := Mailroom.Settled lib.rt)
    (fun _ _ _ hi ha hs => Mailroom.settled_step hi ha hs) (Mailroom.settled_init lib.rt)
  exact unfinished_of_received (truth_of_reach hs.reach) (hs.accepted id hid).2 hrow hr

/-- A mail that matches a rule, and one that matches none and whose
    `UpdateEmailStatus` fails. -/
def queuedRun : List MailroomEvent :=
  [.other (.setRules [sampleRule]), .save 0 1 plainEmail (clock 0) none, .match 0,
    .enqueue 0 sampleSnapshot.retry 2 (· + 3) (clock 0) none]

def undroppedRun : List MailroomEvent :=
  [.save 0 1 plainEmail (clock 0) none, .match 0, .drop 0 (some 0)]

theorem received_has_unfinished_queued : ∃ (m : Mailroom) (row : EmailRow), m.accepted = [1] ∧
    m.world.db.emails.get? 1 = some row ∧ row.status = .received ∧ Unfinished m.world.db 1 := by
  have hs : ((exec (Mailroom.step plainLib) Mailroom.init queuedRun).map fun m =>
      (m.accepted, (m.world.db.emails.get? 1).map fun row => row.status)) =
      some ([1], some .received) := by decide +kernel
  obtain ⟨m, hm, h⟩ := Option.map_eq_some_iff.1 hs
  obtain ⟨ha, hst⟩ := Prod.mk.inj h
  obtain ⟨row, hrow, hr⟩ := Option.map_eq_some_iff.1 hst
  have hrun : Run (Mailroom.step plainLib) Mailroom.Allowed Mailroom.init queuedRun m := by
    refine Run.of_exec (fun e he s => ?_) hm
    simp only [queuedRun, List.mem_cons, List.not_mem_nil, or_false] at he
    rcases he with rfl | rfl | rfl | rfl <;> trivial
  exact ⟨m, row, ha, hrow, hr, received_has_unfinished plainLib _ m hrun 1 row (by simp [ha]) hrow hr⟩

/-- A mail that matches no rule is acknowledged although it is not marked as
    dropped. -/
theorem received_without_deliveries : ∃ (m : Mailroom) (row : EmailRow),
    exec (Mailroom.step plainLib) Mailroom.init undroppedRun = some m ∧ (∀ n, m.calls n = .idle) ∧
    m.accepted = [1] ∧ m.world.db.emails.get? 1 = some row ∧ row.status = .received ∧
    ¬ Unfinished m.world.db 1 := by
  refine ⟨_, _, rfl, fun n => ?_, rfl, rfl, rfl, ?_⟩
  · rcases n with _ | n <;> rfl
  · rintro ⟨_, _, _, h, -⟩
    cases h

end Mailrelay
