/-
  Signed deliveries stay signed, and their secrets stay out of the queue.

  `Enqueue` removes the secret of a rule and keeps a flag; an attempt looks the
  secret up by the rule's name.  In between the rules may change in any way.

  * `enqueue_secret`: two secrets are enqueued alike;
  * `claimed_snapshot`: a worker holds the snapshot that was enqueued;
  * `signed_stays_signed`: the main result.
-/
import Mailrelay.System.Durability
import Mailrelay.Webhook.Refinement
import Mailrelay.Webhook.Request

namespace Mailrelay

open Lib

/-! ## Enqueueing -/

/-- The rules have secrets and differ in nothing else. -/
structure SecretsDiffer (rule rule' : Rule) : Prop where
  left : rule.webhook.signingSecret ≠ ""
  right : rule'.webhook.signingSecret ≠ ""
  rest : rule' =
    { rule with webhook := { rule.webhook with signingSecret := rule'.webhook.signingSecret } }

theorem buildPayload_congr (rt : Runtime) (email : ParsedEmail) (wh wh' : WebhookConfig)
    (h : wh'.payloadTemplate = wh.payloadTemplate) :
    buildPayload rt email wh' = buildPayload rt email wh := by
  unfold buildPayload
  rw [h]

theorem snapshotOf_secret (rt : Runtime) (global : RetryConfig) (email : ParsedEmail) {rule rule' : Rule}
    (h : SecretsDiffer rule rule') :
    snapshotOf rt global email rule' = snapshotOf rt global email rule := by
  have hr := h.right
  rw [h.rest] at hr ⊢
  unfold snapshotOf
  rw [buildPayload_congr rt email rule.webhook _ rfl, bne_iff_ne.2 h.left, bne_iff_ne.2 hr]
  rfl

theorem enqueueJobs_secret (rt : Runtime) (global : RetryConfig) (email : ParsedEmail)
    {rules rules' : List Rule} (h : List.Forall₂ SecretsDiffer rules rules') :
    enqueueJobs rt global email rules' = enqueueJobs rt global email rules := by
  induction h with
  | nil => rfl
  | cons h _ ih =>
    have hname := congrArg Rule.name h.rest
    simp only [enqueueJobs, snapshotOf_secret rt global email h, ih, hname]

theorem enqueue_secret (rt : Runtime) (global : RetryConfig) (email : ParsedEmail)
    {rules rules' : List Rule} (h : List.Forall₂ SecretsDiffer rules rules') (emailId batch : Uuid)
    (ids : ℕ → Uuid) (now : ℤ) (fuse : Option ℕ) (db : Db) :
    enqueue rt global email rules' emailId batch ids now fuse db =
      enqueue rt global email rules emailId batch ids now fuse db := by
  unfold enqueue
  rw [enqueueJobs_secret rt global email h]

/-! ## What a worker holds -/

/-- The snapshot of a held delivery is the committed one. -/
def Genuine (w : World) : Prop := ∀ n job emailId snapshot, (w.workers n).job? = some job →
  Committed w.hist job.id emailId snapshot → job.snapshot = snapshot

section
variable {rt : Runtime} {w w' : World}

theorem committed_of_effect (he : Effect rt w w') {id emailId : Uuid} {snapshot : String}
    (hi : id ∈ w.issued) (hc : Committed w'.hist id emailId snapshot) :
    Committed w.hist id emailId snapshot := by
  cases he with
  | alike os hos hh => rwa [hh, committed_quiet hos] at hc
  | enqueue _ _ hfresh _ _ hh =>
    rw [hh, committed_cons] at hc
    refine hc.resolve_left fun hnew => ?_
    simp only [Obs.commits, Bool.and_eq_true, List.any_eq_true, beq_iff_eq] at hnew
    obtain ⟨-, j, hj, rfl, -⟩ := hnew
    exact hfresh j.1 (List.mem_cons_of_mem _ (List.mem_map_of_mem hj)) hi
  | delete p ho _ _ hh =>
    rw [hh, committed_cons] at hc
    refine hc.resolve_left ?_
    rcases ho with rfl | ⟨rfl, -⟩ <;> simp [Obs.commits]
  | finish _ ho _ _ hh =>
    rw [hh, committed_cons] at hc
    refine hc.resolve_left ?_
    rcases ho with ⟨rfl, -⟩ | ⟨_, rfl, -⟩ <;> simp [Obs.commits]

/-- A worker holds what it held before, or what it claims now. -/
theorem held_or_claimed {e : Event} (ht : Trans rt w e w') {m : ℕ} {job : QueuedDelivery}
    (hj : (w'.workers m).job? = some job) :
    (w.workers m).job? = some job ∨ ∃ now db, Claimed w.db now job db := by
  have old : ∀ {n : ℕ} {ph : Phase} {w₁ : World}, w₁.workers = w.workers →
      ((w₁.setPhase n ph).workers m).job? = some job →
      (∀ job, ph.job? = some job → (w.workers n).job? = some job) →
      (w.workers m).job? = some job := by
    intro n ph w₁ hw hm hph
    rcases job?_setPhase hm with ⟨rfl, h⟩ | ⟨-, h⟩
    · exact hph job h
    · rwa [hw] at h
  cases ht with
  | failed | saveEmail | enqueue | drop | remove | expire | setRules | stopQueue | shutdown
  | cancel | shutdownReturn => exact .inl hj
  | @startQueue workers =>
    have hj' : (if m < workers then Phase.top else .exited).job? = some job := hj
    split_ifs at hj' <;> cases hj'
  | crash => cases hj
  | check _ hw =>
    refine .inl (old (by rfl) hj fun job h => ?_)
    split_ifs at h <;> cases h
  | claim _ hw hc =>
    rcases job?_setPhase hj with ⟨-, h⟩ | ⟨-, h⟩
    · cases h; exact .inr ⟨_, _, hc⟩
    · exact .inl h
  | recheck _ hw =>
    refine .inl (old (by rfl) hj fun job h => ?_)
    rw [hw]
    split_ifs at h <;> exact h
  | noClaim | release | noRelease | save | noSave | tick | halt =>
    exact .inl (old (by rfl) hj (by rintro _ ⟨⟩))
  | refuse _ hw | send _ hw | settle _ hw =>
    refine .inl (old (by rfl) hj fun job h => ?_)
    rw [hw]
    exact h

theorem genuine_trans {e : Event} (h : Genuine w) (hs : Sound rt w) (hd : Durable w)
    (ht : Trans rt w e w') : Genuine w' := by
  intro m job emailId snapshot hj hc
  have he := trans_effect hs.ok ht
  rcases held_or_claimed ht hj with hold | ⟨now, db, hclaim⟩
  · exact h _ _ _ _ hold (committed_of_effect he (hs.held.known hold) hc)
  · -- a claimed row is pending, so it has the snapshot it was committed with
    obtain ⟨d, q, hr, hp, -, hjob⟩ := mem_dueJobs.1 hclaim.due
    have hc' := committed_of_effect he (hs.held.issued hr) hc
    have hf : ¬ Finished w.hist job.id := by
      intro hf
      have := (hd.done hf hr).1
      rw [hp] at this
      cases this
    rw [hjob]
    exact (hd.live hc' hf hr).2

theorem claimed_snapshot (h : Reach (step rt) World.init w) : Genuine w := by
  have hall : (Sound rt w ∧ Durable w) ∧ Genuine w := by
    refine h.inv (I := fun w => (Sound rt w ∧ Durable w) ∧ Genuine w) ?_ ?_
    · rintro s e s' ⟨⟨hs, hd⟩, hg⟩ hstep
      exact ⟨⟨sound_step hs hstep, durable_effect hd hs.held (effect_step hs hstep)⟩,
        genuine_trans hg hs hd (step_trans hstep)⟩
    · refine ⟨⟨sound_init, durable_init⟩, ?_⟩
      intro n job emailId snapshot hj
      cases hj
  exact hall.2

end

/-! ## What is sent -/

/-- What `encoding/json` keeps of a snapshot, as far as signing depends on it. -/
def Runtime.KeepsSigning (rt : Runtime) : Prop := ∀ snap text stored,
  rt.marshalSnapshot snap = .ok text → rt.unmarshalSnapshot text = .ok stored →
    stored.signed = snap.signed ∧ stored.rule.name = snap.rule.name

/-- The requests of an attempt, with the rules of the engine, for a delivery of
    `rule`: all signed with a current secret of that name, or all unsigned. -/
structure KeepsPromise (lib : HttpLib) (rules : List Rule) (rule : Rule) (id : Uuid)
    (snap : DeliverySnapshot) : Prop where
  signed : rule.webhook.signingSecret ≠ "" → ∃ secret, secret ≠ "" ∧
    signingSecret rules rule.name = some secret ∧
    ∀ unix replies, ∀ req ∈ (send lib snap.rule snap.payload id unix replies).requests,
      signingFields req.header = signature lib secret req.body (lib.uuid id) unix
  unsigned : rule.webhook.signingSecret = "" →
    ∀ unix replies, ∀ req ∈ (send lib snap.rule snap.payload id unix replies).requests,
      ∀ f ∈ signingFields req.header, ∃ g ∈ snap.rule.webhook.headers, f = (canonicalKey g.1, g.2)

section
variable {rt : Runtime} {rules : List Rule} {job : QueuedDelivery} {snap : DeliverySnapshot}

/-- The secret that an attempt uses. -/
theorem prepare_resolved (h : prepare rt rules job = .ok snap) :
    ∃ stored, rt.unmarshalSnapshot job.snapshot = .ok stored ∧
      resolveSecret rt rules stored = .ok snap.rule.webhook.signingSecret := by
  unfold prepare at h
  split at h
  next => cases h
  next stored hs =>
    split_ifs at h
    split at h
    next => cases h
    next secret hr => cases h; exact ⟨stored, hs, hr⟩

theorem resolveSecret_ok {secret : String} (h : resolveSecret rt rules snap = .ok secret) :
    (snap.signed = false ∧ secret = "") ∨
      (snap.signed = true ∧ secret ≠ "" ∧ signingSecret rules snap.rule.name = some secret) := by
  unfold resolveSecret at h
  split at h
  next hs => cases h; exact .inl ⟨by simpa using hs, rfl⟩
  next hs =>
    dsimp only at h
    split at h
    next s hf =>
      split_ifs at h with hne
      cases h
      exact .inr ⟨by simpa using hs, hne, hf⟩
    next => cases h

theorem keepsPromise {lib : HttpLib} (hcopy : lib.CopiesHeaders) (hjson : rt.KeepsSigning)
    {global : RetryConfig} {email : ParsedEmail} {rule : Rule}
    (hm : rt.marshalSnapshot (snapshotOf rt global email rule) = .ok job.snapshot)
    (h : prepare rt rules job = .ok snap) : KeepsPromise lib rules rule job.id snap := by
  obtain ⟨stored, hs, hr⟩ := prepare_resolved h
  obtain ⟨hsigned, hname⟩ := hjson _ _ _ hm hs
  replace hsigned : stored.signed = (rule.webhook.signingSecret != "") := hsigned
  replace hname : stored.rule.name = rule.name := hname
  rcases resolveSecret_ok hr with ⟨hfalse, hempty⟩ | ⟨htrue, hne, hsecret⟩
  · rw [hsigned] at hfalse
    refine ⟨fun hrule => absurd hrule (by simpa using hfalse), fun _ unix replies req hreq => ?_⟩
    exact unsigned_headers hcopy hempty hreq
  · rw [hsigned] at htrue
    refine ⟨fun _ => ⟨_, hne, hname ▸ hsecret, fun unix replies req hreq => ?_⟩,
      fun hrule => absurd hrule (by simpa using htrue)⟩
    obtain ⟨hheader, hbody⟩ := signed_headers hne hreq
    rw [hheader, hbody]

end

/-- A worker that starts to send has prepared its request. -/
theorem prepare_of_start {rt : Runtime} {w w' : World} {n : ℕ} {job : QueuedDelivery}
    {snap : DeliverySnapshot} (hw : w.workers n = .running job) (hstep : step rt w (.start n) = some w')
    (hw' : w'.workers n = .sending job snap) : prepare rt w.rules job = .ok snap := by
  have idle : w'.workers n ≠ w.workers n := by
    rw [hw, hw']
    simp
  cases step_trans hstep with
  | failed | remove | expire => exact absurd rfl idle
  | refuse => rw [World.setPhase_self] at hw'; cases hw'
  | send _ hrun hprepare =>
    rw [World.setPhase_self] at hw'
    cases hw'
    exact hprepare

/-- **A signed delivery is never sent unsigned, and its secret does not reach
    the queue.** -/
theorem signed_stays_signed (rt : Runtime) (lib : HttpLib) (hcopy : lib.CopiesHeaders)
    (hjson : rt.KeepsSigning) :
    (∀ global email rules rules', List.Forall₂ SecretsDiffer rules rules' →
      ∀ emailId batch ids now fuse db,
        enqueue rt global email rules' emailId batch ids now fuse db =
          enqueue rt global email rules emailId batch ids now fuse db) ∧
    (∀ w w' n job snap, Reach (step rt) World.init w → w.workers n = .running job →
      step rt w (.start n) = some w' → w'.workers n = .sending job snap →
      ∀ global email rule emailId text, Committed w.hist job.id emailId text →
        rt.marshalSnapshot (snapshotOf rt global email rule) = .ok text →
        KeepsPromise lib w.rules rule job.id snap) := by
  refine ⟨fun global email rules rules' h => enqueue_secret rt global email h, ?_⟩
  intro w w' n job snap hreach hw hstep hw' global email rule emailId text hc hm
  have hsnap : job.snapshot = text :=
    claimed_snapshot hreach n job emailId text (by rw [hw]; rfl) hc
  rw [← hsnap] at hm
  exact keepsPromise hcopy hjson hm (prepare_of_start hw hstep hw')

/-! ## A rotated secret -/

theorem signedRuntime_keepsSigning : signedRuntime.KeepsSigning := by
  intro snap text stored hm hu
  simp only [signedRuntime, sampleRuntime] at hm hu
  split_ifs at hm with hs
  cases hm
  split_ifs at hu
  cases hu
  exact ⟨by rw [hs], by rw [hs]⟩

/-- A delivery is enqueued, and its rule gets another secret before the first
    attempt. -/
def signedRun : List Event :=
  sampleClaim signedText ++ [.setRules [signedRule "s3cret"], .recheck 0]

theorem signed_stays_signed_sample : ∃ w snap,
    exec (step signedRuntime) World.init signedRun = some w ∧
    w.rules = [signedRule "s3cret"] ∧ KeepsPromise sampleHttp w.rules (signedRule "old") 3 snap ∧
    ∀ db, enqueue signedRuntime sampleSnapshot.retry sampleEmail [signedRule "s3cret"] 1 2 (· + 3) 100
        none db =
      enqueue signedRuntime sampleSnapshot.retry sampleEmail [signedRule "old"] 1 2 (· + 3) 100
        none db := by
  have hs : ((exec (step signedRuntime) World.init signedRun).bind fun w =>
      (step signedRuntime w (.start 0)).map fun w' =>
        decide (w.rules = [signedRule "s3cret"] ∧ w.workers 0 = .running signedJob ∧
          w'.workers 0 = .sending signedJob { signedSnapshot with rule := signedRule "s3cret" } ∧
          Committed w.hist 3 1 signedText)) = some true := by decide +kernel
  obtain ⟨w, hw, hs⟩ := Option.bind_eq_some_iff.1 hs
  obtain ⟨w', hw', hs⟩ := Option.map_eq_some_iff.1 hs
  obtain ⟨hrules, hrun, hsend, hc⟩ := of_decide_eq_true hs
  have main := signed_stays_signed signedRuntime sampleHttp
    (fun _ _ _ _ hf => .inl hf) signedRuntime_keepsSigning
  refine ⟨w, { signedSnapshot with rule := signedRule "s3cret" }, hw, hrules, ?_, ?_⟩
  · exact main.2 w w' 0 signedJob _ (Reach.of_exec hw) hrun hw' hsend sampleSnapshot.retry sampleEmail
      (signedRule "old") 1 signedText hc (by decide +kernel)
  · refine fun db => main.1 _ _ _ _ (.cons ⟨?_, ?_, rfl⟩ .nil) 1 2 (· + 3) 100 none db
    · decide
    · decide

end Mailrelay
