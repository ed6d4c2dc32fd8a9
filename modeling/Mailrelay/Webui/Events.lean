/-
  Live updates (`EventBus` and `handleSSE` in `internal/webui/handler.go`).

  A handler that changes the store calls `Notify` afterwards, which puts a token
  into the channel of every subscribed client unless one is there.  The
  goroutine of a client takes the token and sends a refresh event, on which the
  browser fetches the page again.  `Notify` holds the mutex from its first
  channel to its last; clients take tokens in between, and the store changes.

  * `sound_bus_step`: no step panics or forgets a client;
  * `no_refresh_lost`: the main result.
-/
import Mathlib.Algebra.Order.Ring.Nat
import Mailrelay.Lib.Run

namespace Mailrelay

open Lib

abbrev Chan := ℕ

/-- Where the goroutine of `handleSSE` stands. -/
inductive SsePhase where
  /-- in its `select` -/
  | waiting
  /-- a token is taken, the event is not written -/
  | sending
  /-- before the deferred `Unsubscribe` -/
  | leaving
  | left
  deriving DecidableEq, Repr

/-- The channel of a client, its goroutine and its browser.  The store is at
    some version after every change; the browser shows the version `seen`. -/
structure SseClient where
  /-- the buffer of the channel -/
  token : Bool
  closed : Bool
  phase : SsePhase
  /-- an event is on its way to the browser -/
  inFlight : Bool
  seen : ℕ
  /-- the version at the start of the last `Notify` that came to the channel -/
  announced : ℕ
  /-- the version at the start of the last `Notify` that ended since the client
      subscribed -/
  told : ℕ
  deriving DecidableEq, Repr

/-- Nothing is under way to the browser. -/
def SseClient.Idle (k : SseClient) : Prop := k.token = false ∧ k.phase = .waiting ∧ k.inFlight = false

structure BusWorld where
  version : ℕ
  /-- the clients of all channels that were made -/
  clients : Chan → Option SseClient
  /-- the keys of the map of the bus -/
  subscribed : List Chan
  /-- a `Notify` that holds the mutex: the version at its start, and the
      channels that it has still to come to -/
  notifying : Option (ℕ × List Chan)
  panicked : Bool

inductive BusEvent where
  /-- a change of the store -/
  | change
  | subscribe (c : Chan) (shown : ℕ)
  | unsubscribe (c : Chan)
  /-- `Notify` gets the mutex -/
  | lock
  /-- its loop comes to a channel; the order is that of the map -/
  | send (c : Chan)
  | unlock
  | take (c : Chan)
  /-- the event is written -/
  | flush (c : Chan)
  /-- the browser fetches the page on an event -/
  | fetch (c : Chan)
  /-- or on its own -/
  | visit (c : Chan)
  /-- the context of the request is done -/
  | leave (c : Chan)
  deriving DecidableEq, Repr

namespace BusWorld

def init : BusWorld := ⟨0, fun _ => none, [], none, false⟩

def set (w : BusWorld) (c : Chan) (k : SseClient) : BusWorld :=
  { w with clients := Function.update w.clients c (some k) }

/-- A client that satisfies a guard goes on. -/
def advance (w : BusWorld) (c : Chan) (guard : SseClient → Bool) (f : SseClient → SseClient) :
    Option BusWorld :=
  match w.clients c with
  | none => none
  | some k => if guard k then some (w.set c (f k)) else none

def step (w : BusWorld) : BusEvent → Option BusWorld
  | .change => some { w with version := w.version + 1 }
  | .subscribe c shown =>
    if w.notifying = none ∧ w.clients c = none ∧ shown ≤ w.version then
      some { w.set c ⟨false, false, .waiting, false, shown, 0, 0⟩ with subscribed := c :: w.subscribed }
    else none
  | .unsubscribe c =>
    match w.clients c with
    | none => none
    | some k =>
      if w.notifying = none ∧ k.phase = .leaving then
        -- closing a closed channel panics
        some { w.set c { k with closed := true, phase := .left } with
          subscribed := w.subscribed.filter (· ≠ c), panicked := w.panicked || k.closed }
      else none
  | .lock =>
    if w.notifying = none then some { w with notifying := some (w.version, w.subscribed) } else none
  | .send c =>
    match w.notifying, w.clients c with
    | some (since, rest), some k =>
      if c ∈ rest then
        -- sending on a closed channel panics
        some { w.set c { k with token := true, announced := since } with
          notifying := some (since, rest.filter (· ≠ c)), panicked := w.panicked || k.closed }
      else none
    | _, _ => none
  | .unlock =>
    match w.notifying with
    | some (since, []) =>
      some { w with
        notifying := none
        clients := fun c =>
          if c ∈ w.subscribed then (w.clients c).map fun k => { k with told := since }
          else w.clients c }
    | _ => none
  | .take c =>
    w.advance c (fun k => k.token && k.phase == .waiting) fun k =>
      { k with token := false, phase := .sending }
  | .flush c =>
    w.advance c (fun k => k.phase == .sending) fun k => { k with inFlight := true, phase := .waiting }
  | .fetch c =>
    w.advance c (fun k => k.inFlight) fun k => { k with inFlight := false, seen := w.version }
  | .visit c => w.advance c (fun _ => true) fun k => { k with seen := w.version }
  | .leave c => w.advance c (fun k => k.phase == .waiting) fun k => { k with phase := .leaving }

end BusWorld

/-! ## What every step keeps -/

/-- A client knows of every `Notify` that came to its channel, unless something
    is under way to it. -/
structure SseClient.Current (version : ℕ) (k : SseClient) : Prop where
  announced : k.announced ≤ version
  told : k.told ≤ k.announced
  seen : k.Idle → k.announced ≤ k.seen

structure BusWorld.SoundBus (w : BusWorld) : Prop where
  calm : w.panicked = false
  /-- the channels in the map are open -/
  open_ : ∀ c ∈ w.subscribed, ∃ k, w.clients c = some k ∧ k.closed = false ∧ k.phase ≠ .left
  gone : ∀ c k, w.clients c = some k → c ∉ w.subscribed → k.phase = .left
  current : ∀ c k, w.clients c = some k → k.Current w.version
  rest : ∀ since rest, w.notifying = some (since, rest) → since ≤ w.version ∧ rest ⊆ w.subscribed ∧
    ∀ c k, w.clients c = some k → k.announced ≤ since ∧
      (c ∈ w.subscribed → c ∉ rest → k.announced = since)

namespace BusWorld

variable {w w' : BusWorld} {c : Chan} {k k' : SseClient}

theorem advance_eq_some {guard : SseClient → Bool} {f : SseClient → SseClient} :
    w.advance c guard f = some w' ↔ ∃ k, w.clients c = some k ∧ guard k ∧ w' = w.set c (f k) := by
  unfold advance
  cases hc : w.clients c with
  | none => simp
  | some k =>
    by_cases hg : guard k
    · simp only [if_pos hg, Option.some.injEq]
      constructor
      · rintro rfl
        exact ⟨k, rfl, hg, rfl⟩
      · rintro ⟨j, rfl, -, rfl⟩
        rfl
    · simp [hg]

theorem set_clients (w : BusWorld) (c : Chan) (k : SseClient) (d : Chan) :
    (w.set c k).clients d = if d = c then some k else w.clients d := by
  simp [set, Function.update_apply]

theorem set_self (w : BusWorld) (c : Chan) (k : SseClient) : (w.set c k).clients c = some k := by
  rw [set_clients, if_pos rfl]

/-- A client goes on that does not leave the map. -/
theorem SoundBus.set (h : w.SoundBus) (hk : w.clients c = some k) (hclosed : k'.closed = k.closed)
    (hannounced : k'.announced = k.announced) (hphase : k'.phase = .left ↔ k.phase = .left)
    (hcurrent : k'.Current w.version) : (w.set c k').SoundBus := by
  have hset : ∀ d j, (w.set c k').clients d = some j →
      d = c ∧ j = k' ∨ d ≠ c ∧ w.clients d = some j := by
    intro d j hd
    rw [set_clients] at hd
    split_ifs at hd with hdc
    · exact .inl ⟨hdc, (Option.some.inj hd).symm⟩
    · exact .inr ⟨hdc, hd⟩
  constructor
  · exact h.calm
  · intro d hd
    obtain ⟨k₀, hk₀, ho, hl⟩ := h.open_ d hd
    rw [set_clients]
    split_ifs with hdc
    · subst hdc
      cases hk.symm.trans hk₀
      exact ⟨k', rfl, hclosed.trans ho, fun hl' => hl (hphase.1 hl')⟩
    · exact ⟨k₀, hk₀, ho, hl⟩
  · intro d j hd hn
    rcases hset d j hd with ⟨rfl, rfl⟩ | ⟨-, hd⟩
    · exact hphase.2 (h.gone d k hk hn)
    · exact h.gone d j hd hn
  · intro d j hd
    rcases hset d j hd with ⟨rfl, rfl⟩ | ⟨-, hd⟩
    · exact hcurrent
    · exact h.current d j hd
  · intro since rest hn
    obtain ⟨hs, hsub, hann⟩ := h.rest since rest hn
    refine ⟨hs, hsub, fun d j hd => ?_⟩
    rcases hset d j hd with ⟨rfl, rfl⟩ | ⟨-, hd⟩
    · rw [hannounced]
      exact hann d k hk
    · exact hann d j hd

theorem sound_change (h : w.SoundBus) : SoundBus { w with version := w.version + 1 } :=
  ⟨h.calm, h.open_, h.gone,
    fun c k hc => ⟨(h.current c k hc).announced.trans (Nat.le_succ _), (h.current c k hc).told,
      (h.current c k hc).seen⟩,
    fun since rest hn => ⟨(h.rest since rest hn).1.trans (Nat.le_succ _), (h.rest since rest hn).2⟩⟩

theorem sound_subscribe (h : w.SoundBus) {shown : ℕ} (hs : w.step (.subscribe c shown) = some w') :
    w'.SoundBus := by
  simp only [step] at hs
  split_ifs at hs with hg
  obtain ⟨hlock, hnew, hshown⟩ := hg
  cases hs
  have hfresh : c ∉ w.subscribed := by
    intro hm
    obtain ⟨k, hk, -⟩ := h.open_ c hm
    rw [hnew] at hk
    cases hk
  constructor
  · exact h.calm
  · intro d hd
    simp only [set_clients]
    split_ifs with hdc
    · exact ⟨_, rfl, rfl, nofun⟩
    · exact h.open_ d ((List.mem_cons.1 hd).resolve_left hdc)
  · intro d j hd hn
    simp only [set_clients] at hd
    split_ifs at hd with hdc
    · exact absurd (List.mem_cons.2 (.inl hdc)) hn
    · exact h.gone d j hd fun hm => hn (List.mem_cons_of_mem _ hm)
  · intro d j hd
    simp only [set_clients] at hd
    split_ifs at hd with hdc
    · cases hd
      exact ⟨Nat.zero_le _, le_rfl, fun _ => Nat.zero_le _⟩
    · exact h.current d j hd
  · intro since rest hn
    have hn : w.notifying = some (since, rest) := hn
    rw [hlock] at hn
    cases hn

theorem sound_unsubscribe (h : w.SoundBus) (hs : w.step (.unsubscribe c) = some w') : w'.SoundBus := by
  simp only [step] at hs
  cases hc : w.clients c with
  | none => simp [hc] at hs
  | some k =>
    simp only [hc] at hs
    split_ifs at hs with hg
    obtain ⟨hlock, hphase⟩ := hg
    cases hs
    -- the client is in the map, so that its channel is open
    have hmem : c ∈ w.subscribed := by
      by_contra hn
      rw [h.gone c k hc hn] at hphase
      cases hphase
    have hopen : k.closed = false := by
      obtain ⟨k₀, hk₀, ho, -⟩ := h.open_ c hmem
      cases hc.symm.trans hk₀
      exact ho
    have hcurrent := h.current c k hc
    constructor
    · simp [h.calm, hopen]
    · intro d hd
      simp only [List.mem_filter, decide_eq_true_eq] at hd
      simp only [set_clients, if_neg hd.2]
      exact h.open_ d hd.1
    · intro d j hd hn
      simp only [set_clients] at hd
      simp only [List.mem_filter, decide_eq_true_eq, not_and, not_not] at hn
      split_ifs at hd with hdc
      · cases hd
        rfl
      · exact h.gone d j hd fun hm => hdc (hn hm)
    · intro d j hd
      simp only [set_clients] at hd
      split_ifs at hd with hdc
      · cases hd
        exact ⟨hcurrent.announced, hcurrent.told, nofun⟩
      · exact h.current d j hd
    · intro since rest hn
      have hn : w.notifying = some (since, rest) := hn
      rw [hlock] at hn
      cases hn

theorem sound_lock (h : w.SoundBus) (hs : w.step .lock = some w') : w'.SoundBus := by
  simp only [step] at hs
  split_ifs at hs
  cases hs
  refine ⟨h.calm, h.open_, h.gone, h.current, fun since rest hn => ?_⟩
  cases hn
  exact ⟨le_rfl, List.Subset.refl _, fun d j hd =>
    ⟨(h.current d j hd).announced, fun hm hn => absurd hm hn⟩⟩

theorem sound_send (h : w.SoundBus) (hs : w.step (.send c) = some w') : w'.SoundBus := by
  simp only [step] at hs
  split at hs
  next since rest k hn hc =>
    split_ifs at hs with hrest
    cases hs
    obtain ⟨hsince, hsub, hann⟩ := h.rest since rest hn
    have hmem := hsub hrest
    have hopen : k.closed = false ∧ k.phase ≠ .left := by
      obtain ⟨k₀, hk₀, ho⟩ := h.open_ c hmem
      cases hc.symm.trans hk₀
      exact ho
    have hcurrent := h.current c k hc
    have hset : ∀ d j, (w.set c { k with token := true, announced := since }).clients d = some j →
        d = c ∧ j = { k with token := true, announced := since } ∨ d ≠ c ∧ w.clients d = some j := by
      intro d j hd
      rw [set_clients] at hd
      split_ifs at hd with hdc
      · exact .inl ⟨hdc, (Option.some.inj hd).symm⟩
      · exact .inr ⟨hdc, hd⟩
    constructor
    · simp [h.calm, hopen.1]
    · intro d hd
      simp only [set_clients]
      split_ifs with hdc
      · exact ⟨_, rfl, hopen⟩
      · exact h.open_ d hd
    · intro d j hd hnot
      rcases hset d j hd with ⟨rfl, -⟩ | ⟨-, hd⟩
      · exact absurd hmem hnot
      · exact h.gone d j hd hnot
    · intro d j hd
      rcases hset d j hd with ⟨rfl, rfl⟩ | ⟨-, hd⟩
      · exact ⟨hsince, hcurrent.told.trans (hann d k hc).1, nofun⟩
      · exact h.current d j hd
    · intro since' rest' hn'
      cases hn'
      refine ⟨hsince, fun d hd => hsub (List.mem_of_mem_filter hd), fun d j hd => ?_⟩
      rcases hset d j hd with ⟨rfl, rfl⟩ | ⟨hdc, hd⟩
      · exact ⟨le_rfl, fun _ _ => rfl⟩
      · refine ⟨(hann d j hd).1, fun hm hnot => (hann d j hd).2 hm fun hr => hnot ?_⟩
        exact List.mem_filter.2 ⟨hr, by simpa using hdc⟩
  next => cases hs

theorem sound_unlock (h : w.SoundBus) (hs : w.step .unlock = some w') : w'.SoundBus := by
  simp only [step] at hs
  split at hs
  next since hn =>
    cases hs
    obtain ⟨hsince, -, hann⟩ := h.rest since [] hn
    constructor
    · exact h.calm
    · intro d hd
      obtain ⟨k, hk, hopen⟩ := h.open_ d hd
      exact ⟨{ k with told := since }, by simp [if_pos hd, hk], hopen⟩
    · intro d j hd hnot
      simp only [if_neg hnot] at hd
      exact h.gone d j hd hnot
    · intro d j hd
      simp only at hd
      split_ifs at hd with hm
      · obtain ⟨k, hk, rfl⟩ := Option.map_eq_some_iff.1 hd
        have hcurrent := h.current d k hk
        have hreached := (hann d k hk).2 hm (by simp)
        exact ⟨hcurrent.announced, hreached.ge, hcurrent.seen⟩
      · exact h.current d j hd
    · exact nofun
  next => cases hs

/-- **No step panics or forgets a client.** -/
theorem sound_bus_step {e : BusEvent} (h : w.SoundBus) (hs : w.step e = some w') : w'.SoundBus := by
  cases e with
  | change => cases hs; exact sound_change h
  | subscribe c shown => exact sound_subscribe h hs
  | unsubscribe c => exact sound_unsubscribe h hs
  | lock => exact sound_lock h hs
  | send c => exact sound_send h hs
  | unlock => exact sound_unlock h hs
  | take c =>
    obtain ⟨k, hk, hg, rfl⟩ := advance_eq_some.1 hs
    have hc := h.current c k hk
    have hw : k.phase = .waiting := by
      simp only [Bool.and_eq_true, beq_iff_eq] at hg
      exact hg.2
    exact h.set hk rfl rfl (by simp [hw]) ⟨hc.announced, hc.told, nofun⟩
  | flush c =>
    obtain ⟨k, hk, hg, rfl⟩ := advance_eq_some.1 hs
    have hc := h.current c k hk
    exact h.set hk rfl rfl (by simp [eq_of_beq hg]) ⟨hc.announced, hc.told, nofun⟩
  | fetch c =>
    obtain ⟨k, hk, -, rfl⟩ := advance_eq_some.1 hs
    have hc := h.current c k hk
    exact h.set hk rfl rfl Iff.rfl ⟨hc.announced, hc.told, fun _ => hc.announced⟩
  | visit c =>
    obtain ⟨k, hk, -, rfl⟩ := advance_eq_some.1 hs
    have hc := h.current c k hk
    exact h.set hk rfl rfl Iff.rfl ⟨hc.announced, hc.told, fun _ => hc.announced⟩
  | leave c =>
    obtain ⟨k, hk, hg, rfl⟩ := advance_eq_some.1 hs
    have hc := h.current c k hk
    exact h.set hk rfl rfl (by simp [eq_of_beq hg]) ⟨hc.announced, hc.told, nofun⟩

end BusWorld

/-! ## Catching up -/

/-- The event is one of the client's own. -/
def BusEvent.Own (c : Chan) (e : BusEvent) : Prop := e = .take c ∨ e = .flush c ∨ e = .fetch c

namespace BusWorld

/-- The client `c` alone can come to a state of `P`. -/
def Leads (w : BusWorld) (c : Chan) (P : SseClient → Prop) : Prop :=
  ∃ es w' k', Run step (fun _ e => e.Own c) w es w' ∧ w'.version = w.version ∧ w'.clients c = some k' ∧ P k'

variable {w : BusWorld} {c : Chan} {k : SseClient} {P : SseClient → Prop}

theorem Leads.here (hk : w.clients c = some k) (hP : P k) : w.Leads c P :=
  ⟨[], w, k, .nil, rfl, hk, hP⟩

theorem Leads.step {e : BusEvent} (he : e.Own c) (hs : w.step e = some (w.set c k))
    (h : (w.set c k).Leads c P) : w.Leads c P := by
  obtain ⟨es, w', k', hrun, hv, hk', hP⟩ := h
  exact ⟨e :: es, w', k', .cons he hs hrun, hv, hk', hP⟩

/-- With nothing in the channel, the browser fetches the page. -/
theorem leads_fetch (hk : w.clients c = some k) (ht : k.token = false) (hp : k.phase = .waiting)
    (hseen : k.inFlight = false → k.announced ≤ k.seen) (ha : k.announced ≤ w.version) :
    w.Leads c fun k' => k'.Idle ∧ k.announced ≤ k'.seen := by
  cases hi : k.inFlight with
  | false => exact .here hk ⟨⟨ht, hp, hi⟩, hseen hi⟩
  | true =>
    refine .step (k := { k with inFlight := false, seen := w.version }) (.inr (.inr rfl))
      (advance_eq_some.2 ⟨k, hk, hi, rfl⟩) ?_
    exact .here (set_self w c _) ⟨⟨ht, hp, rfl⟩, ha⟩

/-- The goroutine writes the event and takes the next token. -/
theorem leads_flush (hk : w.clients c = some k) (hp : k.phase = .sending) (ha : k.announced ≤ w.version)
    (ht : k.token = false) : w.Leads c fun k' => k'.Idle ∧ k.announced ≤ k'.seen := by
  refine .step (k := { k with inFlight := true, phase := .waiting }) (.inr (.inl rfl))
    (advance_eq_some.2 ⟨k, hk, by simp [hp], rfl⟩) ?_
  exact leads_fetch (k := { k with inFlight := true, phase := .waiting }) (set_self w c _) ht rfl nofun ha

theorem leads_take (hk : w.clients c = some k) (hp : k.phase = .waiting) (ha : k.announced ≤ w.version)
    (hseen : k.Idle → k.announced ≤ k.seen) :
    w.Leads c fun k' => k'.Idle ∧ k.announced ≤ k'.seen := by
  cases ht : k.token with
  | false => exact leads_fetch hk ht hp (fun hi => hseen ⟨ht, hp, hi⟩) ha
  | true =>
    refine .step (k := { k with token := false, phase := .sending }) (.inl rfl)
      (advance_eq_some.2 ⟨k, hk, by simp [ht, hp], rfl⟩) ?_
    exact leads_flush (k := { k with token := false, phase := .sending }) (set_self w c _) rfl ha rfl

/-- **A client catches up by itself**, unless it is leaving. -/
theorem leads_idle (hk : w.clients c = some k) (hc : k.Current w.version)
    (hp : k.phase = .waiting ∨ k.phase = .sending) :
    w.Leads c fun k' => k'.Idle ∧ k.told ≤ k'.seen := by
  have hidle : w.Leads c fun k' => k'.Idle ∧ k.announced ≤ k'.seen := by
    rcases hp with hp | hp
    · exact leads_take hk hp hc.announced hc.seen
    · refine .step (k := { k with inFlight := true, phase := .waiting }) (.inr (.inl rfl))
        (advance_eq_some.2 ⟨k, hk, by simp [hp], rfl⟩) ?_
      exact leads_take (k := { k with inFlight := true, phase := .waiting }) (set_self w c _) rfl
        hc.announced fun hi => nomatch hi.2.2
  obtain ⟨es, w', k', hrun, hv, hk', hi, hseen⟩ := hidle
  exact ⟨es, w', k', hrun, hv, hk', hi, Nat.le_trans hc.told hseen⟩

end BusWorld

/-- **No refresh is lost.**  Nothing panics, and a browser to which nothing is
    under way shows all changes made before the last `Notify` that ended since
    it subscribed began.  A client that is not leaving comes to such a state by
    its own steps. -/
theorem no_refresh_lost {w : BusWorld} (h : Reach BusWorld.step .init w) :
    w.panicked = false ∧ ∀ c ∈ w.subscribed, ∃ k, w.clients c = some k ∧
      (k.Idle → k.told ≤ k.seen) ∧
      (k.phase ≠ .leaving → w.Leads c fun k' => k'.Idle ∧ k.told ≤ k'.seen) := by
  have hsound : w.SoundBus := h.inv (fun _ _ _ hi hs => BusWorld.sound_bus_step hi hs)
    ⟨rfl, nofun, nofun, nofun, nofun⟩
  refine ⟨hsound.calm, fun c hm => ?_⟩
  obtain ⟨k, hk, -, hleft⟩ := hsound.open_ c hm
  have hc := hsound.current c k hk
  refine ⟨k, hk, fun hi => Nat.le_trans hc.told (hc.seen hi), fun hl => BusWorld.leads_idle hk hc ?_⟩
  cases hp : k.phase with
  | waiting => exact .inl rfl
  | sending => exact .inr rfl
  | leaving => exact absurd hp hl
  | left => exact absurd hp hleft

/-- Two clients; one takes its token while `Notify` is still at work. -/
def sampleBus : List BusEvent :=
  [.subscribe 1 0, .subscribe 2 0, .change, .lock, .send 2, .change, .take 2, .send 1, .unlock,
    .flush 2, .fetch 2, .leave 1, .unsubscribe 1]

theorem no_refresh_lost_sample : ∃ w : BusWorld, w.subscribed = [2] ∧ w.panicked = false ∧
    ∃ k, w.clients 2 = some k ∧ (k.Idle → k.told ≤ k.seen) := by
  have h : (exec BusWorld.step .init sampleBus).map (fun w => w.subscribed) = some [2] := by
    decide +kernel
  obtain ⟨w, hw, hsub⟩ := Option.map_eq_some_iff.1 h
  obtain ⟨hcalm, hclients⟩ := no_refresh_lost (Reach.of_exec hw)
  obtain ⟨k, hk, hidle, -⟩ := hclients 2 (by rw [hsub]; exact List.mem_cons_self)
  exact ⟨w, hsub, hcalm, k, hk, hidle⟩

end Mailrelay
