/-
  Logins from the side of the browsers (`internal/httpauth/httpauth.go`).

  In `PartyWorld` every cookie is issued to one party, which may send any of
  its cookies at any time; nonces are drawn at random.  The provider puts the
  nonce of an address into the tokens of those who sign in there.  A callback
  may come with any state and code, also those of another party.

  In `BrowserWorld` browsers drop a cookie when its `Max-Age` is over or the
  server deletes it, and `session` remembers the last login of a browser since
  its last logout.

  * `login_of_own_party`: a party is only logged in with a token for a nonce
    that was drawn for it;
  * `browser_session_ends`: a browser's session ends with `SessionTTL`, with the
    thirty days of the store, and with the logout.
-/
import Mailrelay.Httpauth.Session

namespace Mailrelay

open Lib

section
variable {lib : AuthLib} {cfg : HttpAuthConfig}

/-- A callback that logs a user in: the token is for the nonce of the state
    cookie. -/
theorem callback_token {jar : Jar} {q : CallbackQuery} {answer : Option IdToken} {now : ℤ}
    {user : User} {cookie : Cookie} (h : callback lib cfg jar q answer now = some (user, cookie)) :
    ∃ token c, answer = some token ∧ (stateCookieName, c) ∈ jar ∧ c.values.state = q.state ∧
      c.values.nonce = token.nonce ∧ token.nonce ≠ "" ∧ loginAllowed lib cfg token = true ∧
      user = tokenUser cfg token ∧ cookie = ⟨sessionCookieName cfg, now,
        { ((sessionStore cfg).load jar (sessionCookieName cfg) now).getD .empty with user := some user },
        cfg.sessionTTL⟩ := by
  unfold callback at h
  simp only [bind, Option.bind_eq_some_iff, Option.guard_eq_some'] at h
  obtain ⟨_, -, _, -, v, hv, _, ⟨-, hstate, hnonce⟩, token, hanswer, _, heq, _, hallowed, h⟩ := h
  obtain ⟨c, hc, -, -, rfl⟩ := load_some hv
  cases h
  exact ⟨token, c, hanswer, hc, hstate, heq.symm, fun he => hnonce (heq.symm.trans he), hallowed, rfl, rfl⟩

end

/-! ## Parties -/

structure PartyWorld where
  issued : List (ℕ × Cookie)
  /-- the nonces drawn for the parties -/
  drawn : List (ℕ × String)
  logins : List (ℕ × User × IdToken)

def PartyWorld.init : PartyWorld := ⟨[], [], []⟩

def PartyWorld.step (lib : AuthLib) (cfg : HttpAuthConfig) (w : PartyWorld) (e : ℕ × AuthEvent) :
    Option PartyWorld :=
  let issue (w : PartyWorld) (c : Cookie) : PartyWorld := { w with issued := (e.1, c) :: w.issued }
  let start (jar : Jar) (next state nonce : String) (now : ℤ) : PartyWorld :=
    { issue w (startLogin lib cfg jar next state nonce now) with drawn := (e.1, nonce) :: w.drawn }
  if ∀ p ∈ e.2.jar, (e.1, p.2) ∈ w.issued then
    match e.2 with
    | .login jar next state nonce now => some (start jar next state nonce now)
    | .callback jar q answer now =>
      match callback lib cfg jar q answer now, answer with
      | some (user, cookie), some token =>
        some { issue w cookie with logins := (e.1, user, token) :: w.logins }
      | _, _ => some w
    | .logout _ now => some (issue w (logoutCookie cfg now))
    | .request jar dest state nonce now =>
      match currentUser cfg jar now with
      | some _ => some w
      | none => some (start jar dest state nonce now)
  else none

/-- Nonces are random, and a token for a nonce is given to the party that signs
    in at the address that carries it. -/
def PartyWorld.Honest (signsIn : ℕ → IdToken → Prop) (w : PartyWorld) (e : ℕ × AuthEvent) : Prop :=
  match e.2 with
  | .login _ _ _ nonce _ | .request _ _ _ nonce _ => ∀ p, (p, nonce) ∉ w.drawn
  | .callback _ _ answer _ => ∀ token ∈ answer, ∀ p, (p, token.nonce) ∈ w.drawn → signsIn p token
  | .logout _ _ => True

/-- A login with a token for a nonce that was drawn for this party, and for no
    other. -/
structure OwnLogin (lib : AuthLib) (cfg : HttpAuthConfig) (signsIn : ℕ → IdToken → Prop)
    (drawn : List (ℕ × String)) (l : ℕ × User × IdToken) : Prop where
  drawn : ∀ p, (p, l.2.2.nonce) ∈ drawn ↔ p = l.1
  signedIn : signsIn l.1 l.2.2
  user : l.2.1 = tokenUser cfg l.2.2
  allowed : loginAllowed lib cfg l.2.2 = true

structure PartyWorld.Sound (lib : AuthLib) (cfg : HttpAuthConfig) (signsIn : ℕ → IdToken → Prop)
    (w : PartyWorld) : Prop where
  /-- a cookie carries no nonce but one of its party -/
  nonces : ∀ x ∈ w.issued, x.2.values.nonce ≠ "" → (x.1, x.2.values.nonce) ∈ w.drawn
  once : ∀ p p' n, (p, n) ∈ w.drawn → (p', n) ∈ w.drawn → p = p'
  logins : ∀ l ∈ w.logins, OwnLogin lib cfg signsIn w.drawn l

section
variable {lib : AuthLib} {cfg : HttpAuthConfig} {signsIn : ℕ → IdToken → Prop} {w w' : PartyWorld}

/-- The values that a handler loads are empty, or those of a cookie it was
    sent. -/
theorem load_getD {jar : Jar} {name : String} {now : ℤ} {P : SessionValues → Prop} (hempty : P .empty)
    (hjar : ∀ p ∈ jar, P p.2.values) : P (((sessionStore cfg).load jar name now).getD .empty) := by
  cases hl : (sessionStore cfg).load jar name now with
  | none => exact hempty
  | some v =>
    obtain ⟨c, hc, -, -, rfl⟩ := load_some hl
    exact hjar _ hc

/-- A cookie that starts a login. -/
theorem sound_start (h : w.Sound lib cfg signsIn) {p : ℕ} {nonce : String}
    (hfresh : ∀ p', (p', nonce) ∉ w.drawn) (jar : Jar) (next state : String) (now : ℤ) :
    PartyWorld.Sound lib cfg signsIn { w with
      issued := (p, startLogin lib cfg jar next state nonce now) :: w.issued
      drawn := (p, nonce) :: w.drawn } where
  nonces := by
    rintro x hx hne
    rcases List.mem_cons.1 hx with rfl | hx
    · exact List.mem_cons_self
    · exact List.mem_cons_of_mem _ (h.nonces x hx hne)
  once := by
    intro p₁ p₂ n h₁ h₂
    rcases List.mem_cons.1 h₁ with e₁ | h₁ <;> rcases List.mem_cons.1 h₂ with e₂ | h₂
    · cases e₁; cases e₂; rfl
    · cases e₁; exact absurd h₂ (hfresh p₂)
    · cases e₂; exact absurd h₁ (hfresh p₁)
    · exact h.once _ _ _ h₁ h₂
  logins := by
    intro l hl
    obtain ⟨hdrawn, hsigned, huser, hallowed⟩ := h.logins l hl
    refine ⟨fun p' => ?_, hsigned, huser, hallowed⟩
    rw [List.mem_cons, ← hdrawn p']
    refine or_iff_right_of_imp fun heq => ?_
    cases heq
    exact absurd ((hdrawn l.1).2 rfl) (hfresh l.1)

/-- A cookie with a nonce that the party already has. -/
theorem sound_issue (h : w.Sound lib cfg signsIn) {p : ℕ} {c : Cookie}
    (hc : c.values.nonce ≠ "" → (p, c.values.nonce) ∈ w.drawn) :
    PartyWorld.Sound lib cfg signsIn { w with issued := (p, c) :: w.issued } where
  nonces := List.forall_mem_cons.2 ⟨hc, h.nonces⟩
  once := h.once
  logins := h.logins

theorem party_sound_step {e : ℕ × AuthEvent} (h : w.Sound lib cfg signsIn) (he : w.Honest signsIn e)
    (hs : w.step lib cfg e = some w') : w'.Sound lib cfg signsIn := by
  obtain ⟨p, e⟩ := e
  simp only [PartyWorld.step] at hs
  split_ifs at hs with hjar
  cases e with
  | login jar next state nonce now =>
    cases hs
    exact sound_start h he jar next state now
  | logout jar now =>
    cases hs
    exact sound_issue h fun hne => absurd rfl hne
  | request jar dest state nonce now =>
    simp only at hs
    split at hs
    · cases hs
      exact h
    · cases hs
      exact sound_start h he jar dest state now
  | callback jar q answer now =>
    simp only at hs
    split at hs
    · rename_i user cookie token hcall
      cases hs
      obtain ⟨token', c, hanswer, hc, -, hnonce, hne, hallowed, rfl, rfl⟩ := callback_token hcall
      cases hanswer
      -- the nonce comes from a cookie of this party
      have hdrawn : (p, token.nonce) ∈ w.drawn := by
        rw [← hnonce]
        exact h.nonces _ (hjar _ hc) (hnonce ▸ hne)
      have hown : OwnLogin lib cfg signsIn w.drawn (p, tokenUser cfg token, token) :=
        ⟨fun p' => ⟨fun h' => h.once _ _ _ h' hdrawn, fun heq => heq ▸ hdrawn⟩,
          he token rfl p hdrawn, rfl, hallowed⟩
      have hsound := sound_issue h (p := p) (c := ⟨sessionCookieName cfg, now,
        { ((sessionStore cfg).load jar (sessionCookieName cfg) now).getD .empty with
          user := some (tokenUser cfg token) }, cfg.sessionTTL⟩)
        (load_getD (P := fun v => v.nonce ≠ "" → (p, v.nonce) ∈ w.drawn) (fun hne => absurd rfl hne)
          fun x hx => h.nonces _ (hjar x hx))
      exact ⟨hsound.nonces, hsound.once, List.forall_mem_cons.2 ⟨hown, h.logins⟩⟩
    · cases hs
      exact h

/-- **A login is of the party that started it**: whatever states, codes and
    cookies the parties send, in every run every completed login used a token
    for a nonce that was drawn for the same party, which signed in itself, as
    the user of the session. -/
theorem login_of_own_party {es : List (ℕ × AuthEvent)}
    (h : Run (PartyWorld.step lib cfg) (PartyWorld.Honest signsIn) .init es w) :
    ∀ l ∈ w.logins, OwnLogin lib cfg signsIn w.drawn l :=
  (h.inv (I := PartyWorld.Sound lib cfg signsIn) (fun _ _ _ hi he hs => party_sound_step hi he hs)
    ⟨nofun, nofun, nofun⟩).logins

end

/-- The attacker, party 2, starts a login, and has party 1 open its callback
    address: with a login of its own in the meantime, party 1 is not logged in
    by it, but by its own. -/
def crossedLogins : List (ℕ × AuthEvent) :=
  [(2, .login [] "/" "evil" "nonce2" 0), (1, .login [] "/" "state" "nonce" 0),
    (1, .callback [(stateCookieName, sampleStateCookie)] ⟨"", "evil", "code2"⟩
      (some ⟨"nonce2", "2", "e@example.net", some true, "E"⟩) 0),
    (1, .callback [(stateCookieName, sampleStateCookie)] ⟨"", "state", "code"⟩
      (some ⟨"nonce", "1", "a@example.com", some true, "A"⟩) 0)]

theorem login_of_own_party_sample : ∃ w : PartyWorld,
    w.logins.map (fun l => (l.1, l.2.1.subject)) = [(1, "1")] ∧
    ∀ l ∈ w.logins, OwnLogin sampleAuthLib (sampleAuth 43200) (fun p token => p = 1 ↔ token.subject = "1")
      w.drawn l := by
  have hrun : Run (PartyWorld.step sampleAuthLib (sampleAuth 43200))
      (PartyWorld.Honest fun p token => p = 1 ↔ token.subject = "1") .init crossedLogins
      ⟨[(1, sampleSessionCookie), (1, sampleStateCookie),
          (2, startLogin sampleAuthLib (sampleAuth 43200) [] "/" "evil" "nonce2" 0)],
        [(1, "nonce"), (2, "nonce2")],
        [(1, sampleUser, ⟨"nonce", "1", "a@example.com", some true, "A"⟩)]⟩ := by
    refine .cons ?_ rfl (.cons ?_ rfl (.cons ?_ rfl (.cons ?_ rfl .nil)))
    · intro p hp
      cases hp
    · simp [PartyWorld.Honest, PartyWorld.init]
    · simp [PartyWorld.Honest, PartyWorld.init]
    · simp [PartyWorld.Honest, PartyWorld.init]
  exact ⟨_, rfl, login_of_own_party hrun⟩

/-! ## Browsers that honour `Max-Age` -/

/-- A response sets a cookie, or deletes it. -/
def setCookie (jar : Jar) (c : Cookie) : Jar :=
  let rest := jar.filter fun p => p.1 ≠ c.name
  if c.maxAge < 0 then rest else (c.name, c) :: rest

/-- The cookies that a browser sends at a time. -/
def liveCookies (jar : Jar) (now : ℤ) : Jar :=
  jar.filter fun p => p.2.maxAge = 0 ∨ now < p.2.issuedAt + p.2.maxAge

/-- Whether `CallbackHandler` clears the state cookie. -/
def callbackClears (cfg : HttpAuthConfig) (jar : Jar) (q : CallbackQuery) (now : ℤ) : Bool :=
  if q.error ≠ "" then true
  else
    match (sessionStore cfg).load jar stateCookieName now with
    | none => false
    | some v => decide (q.state ≠ "" ∧ q.code ≠ "" ∧ v.state ≠ "" ∧ v.state = q.state ∧ v.nonce ≠ "")

/-- The cookie of `clearStateCookie`. -/
def clearedState (now : ℤ) : Cookie := ⟨stateCookieName, now, .empty, -1⟩

/-- A request that was passed on, with the last login of the browser since its
    last logout. -/
structure BrowserPass where
  browser : ℕ
  time : ℤ
  user : User
  session : Option (ℤ × User)

structure BrowserWorld where
  jar : ℕ → Jar
  session : ℕ → Option (ℤ × User)
  passes : List BrowserPass

inductive BrowserEvent where
  | login (b : ℕ) (next state nonce : String) (now : ℤ)
  | callback (b : ℕ) (q : CallbackQuery) (answer : Option IdToken) (now : ℤ)
  | logout (b : ℕ) (now : ℤ)
  /-- a request that is not public, for a URL to return to after a login -/
  | request (b : ℕ) (dest state nonce : String) (now : ℤ)

namespace BrowserWorld

def init : BrowserWorld := ⟨fun _ => [], fun _ => none, []⟩

/-- The response to browser `b`. -/
def receive (w : BrowserWorld) (b : ℕ) (cookies : List Cookie) : BrowserWorld :=
  { w with jar := Function.update w.jar b (cookies.foldl setCookie (w.jar b)) }

def step (lib : AuthLib) (cfg : HttpAuthConfig) (w : BrowserWorld) : BrowserEvent → Option BrowserWorld
  | .login b next state nonce now =>
    some (w.receive b [startLogin lib cfg (liveCookies (w.jar b) now) next state nonce now])
  | .callback b q answer now =>
    let sent := liveCookies (w.jar b) now
    let cleared := if callbackClears cfg sent q now then [clearedState now] else []
    match Mailrelay.callback lib cfg sent q answer now with
    | none => some (w.receive b cleared)
    | some (user, cookie) =>
      some { w.receive b (cleared ++ [cookie]) with
        session := Function.update w.session b (some (now, user)) }
  | .logout b now =>
    some { w.receive b [logoutCookie cfg now] with session := Function.update w.session b none }
  | .request b dest state nonce now =>
    let sent := liveCookies (w.jar b) now
    match currentUser cfg sent now with
    | some user => some { w with passes := ⟨b, now, user, w.session b⟩ :: w.passes }
    | none => some (w.receive b [startLogin lib cfg sent dest state nonce now])

/-- The session cookie of a browser is that of its last login. -/
def OwnSession (cfg : HttpAuthConfig) (w : BrowserWorld) : Prop :=
  ∀ b, ∀ p ∈ w.jar b, p.1 = p.2.name ∧ (p.1 = sessionCookieName cfg →
    p.2.maxAge = cfg.sessionTTL ∧ ∃ user, p.2.values.user = some user ∧
      w.session b = some (p.2.issuedAt, user))

end BrowserWorld

/-- What `browser_session_ends` says about a request. -/
def BrowserPass.InTime (cfg : HttpAuthConfig) (p : BrowserPass) : Prop :=
  ∃ t₀, p.session = some (t₀, p.user) ∧ p.time < t₀ + cfg.sessionTTL ∧ p.time - t₀ ≤ 86400 * 30

section
variable {lib : AuthLib} {cfg : HttpAuthConfig} {w w' : BrowserWorld}

theorem mem_setCookie {jar : Jar} {c : Cookie} {p : String × Cookie} (h : p ∈ setCookie jar c) :
    p = (c.name, c) ∨ p ∈ jar ∧ p.1 ≠ c.name := by
  unfold setCookie at h
  split_ifs at h
  · exact .inr (by simpa using h)
  · rcases List.mem_cons.1 h with h | h
    · exact .inl h
    · exact .inr (by simpa using h)

theorem mem_foldl_setCookie {cookies : List Cookie} {jar : Jar} {p : String × Cookie}
    (h : p ∈ cookies.foldl setCookie jar) : p ∈ jar ∨ ∃ c ∈ cookies, p = (c.name, c) := by
  induction cookies generalizing jar with
  | nil => exact .inl h
  | cons c cookies ih =>
    rcases ih h with h | ⟨d, hd, h⟩
    · rcases mem_setCookie h with h | h
      · exact .inr ⟨c, List.mem_cons_self, h⟩
      · exact .inl h.1
    · exact .inr ⟨d, List.mem_cons_of_mem c hd, h⟩

/-- Cookies of another name leave the session as it is. -/
theorem ownSession_other (h : w.OwnSession cfg) {b : ℕ} {cookies : List Cookie}
    (hc : ∀ c ∈ cookies, c.name ≠ sessionCookieName cfg) : (w.receive b cookies).OwnSession cfg := by
  intro b' p hp
  by_cases hb : b' = b
  · subst hb
    simp only [BrowserWorld.receive, Function.update_self] at hp
    rcases mem_foldl_setCookie hp with hp | ⟨c, hmem, rfl⟩
    · exact h b' p hp
    · exact ⟨rfl, fun heq => absurd heq (hc c hmem)⟩
  · simp only [BrowserWorld.receive, Function.update_of_ne hb] at hp
    exact h b' p hp

/-- A new session cookie, or none, replaces the old one. -/
theorem ownSession_set (h : w.OwnSession cfg) (b : ℕ) (c : Cookie) (session : Option (ℤ × User))
    (hname : c.name = sessionCookieName cfg)
    (hc : 0 ≤ c.maxAge → c.maxAge = cfg.sessionTTL ∧ ∃ user, c.values.user = some user ∧
      session = some (c.issuedAt, user)) :
    BrowserWorld.OwnSession cfg { w.receive b [c] with
      session := Function.update w.session b session } := by
  intro b' p hp
  simp only [BrowserWorld.receive] at hp ⊢
  by_cases hb : b' = b
  · subst hb
    rw [Function.update_self] at hp ⊢
    by_cases hage : c.maxAge < 0
    · simp only [List.foldl_cons, List.foldl_nil, setCookie, if_pos hage, List.mem_filter,
        decide_eq_true_eq] at hp
      exact ⟨(h b' p hp.1).1, fun heq => absurd (heq.trans hname.symm) hp.2⟩
    · rcases mem_setCookie hp with rfl | ⟨hp, hne⟩
      · exact ⟨rfl, fun _ => hc (not_lt.1 hage)⟩
      · exact ⟨(h b' p hp).1, fun heq => absurd (heq.trans hname.symm) hne⟩
  · rw [Function.update_of_ne hb] at hp ⊢
    exact h b' p hp

theorem inTime_step (httl : 0 < cfg.sessionTTL) (hname : sessionCookieName cfg ≠ stateCookieName)
    {e : BrowserEvent} (h : w.OwnSession cfg ∧ ∀ p ∈ w.passes, p.InTime cfg)
    (hs : w.step lib cfg e = some w') : w'.OwnSession cfg ∧ ∀ p ∈ w'.passes, p.InTime cfg := by
  obtain ⟨ho, hp⟩ := h
  have hstart : ∀ (b : ℕ) (jar : Jar) next state nonce now,
      (w.receive b [startLogin lib cfg jar next state nonce now]).OwnSession cfg := by
    intro b jar next state nonce now
    refine ownSession_other ho fun c hc => ?_
    rw [List.mem_singleton.1 hc]
    exact Ne.symm hname
  cases e with
  | login b next state nonce now =>
    cases hs
    exact ⟨hstart b _ next state nonce now, hp⟩
  | logout b now =>
    cases hs
    exact ⟨ownSession_set ho b (logoutCookie cfg now) none rfl
      fun hage => absurd hage (by decide : ¬ (0 : ℤ) ≤ -1), hp⟩
  | callback b q answer now =>
    have hclear : ∀ cleared : List Cookie, (∀ c ∈ cleared, c = clearedState now) →
        (w.receive b cleared).OwnSession cfg := by
      intro cleared hall
      refine ownSession_other ho fun c hc => ?_
      rw [hall c hc]
      exact Ne.symm hname
    have hall : ∀ c ∈ (if callbackClears cfg (liveCookies (w.jar b) now) q now then [clearedState now]
        else []), c = clearedState now := by
      split_ifs <;> simp
    simp only [BrowserWorld.step] at hs
    split at hs
    · cases hs
      exact ⟨hclear _ hall, hp⟩
    · rename_i user cookie hcall
      cases hs
      obtain ⟨token, -, -, -, -, -, -, -, huser, hcookie⟩ := callback_token hcall
      have hset := ownSession_set (hclear _ hall) b cookie (some (now, user)) (by rw [hcookie])
        fun _ => ⟨by rw [hcookie], user, by rw [hcookie], by rw [hcookie]⟩
      simp only [BrowserWorld.receive, Function.update_self, Function.update_idem] at hset
      simp only [BrowserWorld.receive, List.foldl_append]
      exact ⟨hset, hp⟩
  | request b dest state nonce now =>
    simp only [BrowserWorld.step] at hs
    split at hs
    · rename_i user hu
      cases hs
      refine ⟨ho, List.forall_mem_cons.2 ⟨?_, hp⟩⟩
      obtain ⟨v, hv, huser⟩ := Option.bind_eq_some_iff.1 hu
      obtain ⟨c, hc, -, hage, rfl⟩ := load_some hv
      obtain ⟨hmem, hlive⟩ := List.mem_filter.1 hc
      obtain ⟨-, hown⟩ := ho b _ hmem
      obtain ⟨hmax, user', hu', hsession⟩ := hown rfl
      rw [huser] at hu'
      cases hu'
      have hlive : c.maxAge = 0 ∨ now < c.issuedAt + c.maxAge := by simpa using hlive
      rw [show c.maxAge = cfg.sessionTTL from hmax] at hlive
      exact ⟨c.issuedAt, hsession, hlive.resolve_left httl.ne', hage⟩
    · cases hs
      exact ⟨hstart b _ dest state nonce now, hp⟩

/-- **A session ends in a browser that honours `Max-Age`**: for a `SessionTTL` of
    whole seconds, in every run each request that is passed on comes less than
    `SessionTTL`, and at most thirty days, after the last login of this browser,
    with no logout since, for the user of that login. -/
theorem browser_session_ends (httl : 0 < cfg.sessionTTL)
    (hname : sessionCookieName cfg ≠ stateCookieName) (h : Reach (BrowserWorld.step lib cfg) .init w) :
    ∀ p ∈ w.passes, p.InTime cfg :=
  (h.inv (I := fun w => w.OwnSession cfg ∧ ∀ p ∈ w.passes, p.InTime cfg)
    (fun _ _ _ hi hs => inTime_step httl hname hi hs) ⟨nofun, nofun⟩).2

end

/-- Requests an hour and a day after the login, and one after the logout. -/
def browserVisit : List BrowserEvent :=
  [.login 1 "/" "state" "nonce" 0,
    .callback 1 ⟨"", "state", "code"⟩ (some ⟨"nonce", "1", "a@example.com", some true, "A"⟩) 0,
    .request 1 "/" "s2" "n2" 3600, .request 1 "/" "s3" "n3" 86400, .logout 1 86500,
    .request 1 "/" "s4" "n4" 86501]

theorem browser_session_ends_sample : ∃ w : BrowserWorld, w.passes.map (fun p => p.time) = [3600] ∧
    ∀ p ∈ w.passes, p.InTime (sampleAuth 43200) := by
  have hs : ((exec (BrowserWorld.step sampleAuthLib (sampleAuth 43200)) .init browserVisit).map
      fun w => w.passes.map fun p => p.time) = some [3600] := by decide +kernel
  obtain ⟨w, hw, hpasses⟩ := Option.map_eq_some_iff.1 hs
  exact ⟨w, hpasses, browser_session_ends (by decide) (by decide) (Reach.of_exec hw)⟩

end Mailrelay
