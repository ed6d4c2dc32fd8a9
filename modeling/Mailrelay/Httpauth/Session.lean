/-
  Logins and sessions (`internal/httpauth/httpauth.go`).

  A session is a signed cookie of `gorilla/sessions`.  The store accepts one
  that it issued under the same name, if it is not older than the limit of its
  codecs, which is thirty days.  `SessionTTL` becomes the `Max-Age` of the
  cookie, which is up to the browser.

  Clients send any cookies the server has ever issued; a value that it has not
  issued fails like a missing one.  Times are in Unix seconds, and nothing is
  assumed about their order.  The provider is seen through its answers.

  * `session_of_login`: a session cookie goes back to a login at its own time,
    if it has a name of its own;
  * `logins_expire_iff`: the main result.
-/
import Mailrelay.Lib.Run
import Mailrelay.Lib.Text
import Mailrelay.Models

namespace Mailrelay

open Lib

/-! ## Sessions -/

/-- The fields of `HTTPAuthConfig` that sessions depend on.  `sessionTTL` is in
    seconds. -/
structure HttpAuthConfig where
  allowedEmailDomains : List String
  cookieName : String
  sessionTTL : ℤ
  providerName : String
  deriving DecidableEq, Repr

structure User where
  subject : String
  email : String
  name : String
  provider : String
  deriving DecidableEq, Repr

/-- The `Values` of a session; a missing text reads as the empty one. -/
structure SessionValues where
  user : Option User
  state : String
  nonce : String
  next : String
  deriving DecidableEq, Repr

def SessionValues.empty : SessionValues := ⟨none, "", "", ""⟩

/-- A `Set-Cookie` of the store: `issuedAt` and the values are signed. -/
structure Cookie where
  name : String
  issuedAt : ℤ
  values : SessionValues
  maxAge : ℤ
  deriving DecidableEq, Repr

/-- `sessions.CookieStore` -/
structure CookieStore where
  /-- of the codecs -/
  codecMaxAge : ℤ
  /-- of the `Options` -/
  maxAge : ℤ

def newCookieStore : CookieStore := ⟨86400 * 30, 86400 * 30⟩

/-- The store of `NewManager`, which replaces the `Options` only. -/
def sessionStore (cfg : HttpAuthConfig) : CookieStore := { newCookieStore with maxAge := cfg.sessionTTL }

/-- The cookies of a request. -/
abbrev Jar := List (String × Cookie)

/-- `store.Get` and `store.New`: the values of a cookie that is accepted. -/
def CookieStore.load (store : CookieStore) (jar : Jar) (name : String) (now : ℤ) :
    Option SessionValues :=
  match jar.lookup name with
  | none => none
  | some c => if c.name = name ∧ now - c.issuedAt ≤ store.codecMaxAge then some c.values else none

def stateCookieName : String := "mailrelay_auth_state"

def sessionCookieName (cfg : HttpAuthConfig) : String :=
  if cfg.cookieName ≠ "" then cfg.cookieName else "mailrelay_session"

/-! ## Handlers -/

structure AuthLib where
  unicode : Unicode
  /-- `url.Parse`: scheme, host and path -/
  parseURL : String → Option (String × String × String)

section
variable (lib : AuthLib) (cfg : HttpAuthConfig)

def safeRedirect (u : String) : String :=
  match u.toList with
  | '/' :: cs =>
    if cs.head? = some '/' ∨ cs.head? = some '\\' then "/"
    else if u.toList.any fun c => c = '\r' ∨ c = '\n' ∨ c = '\t' then "/"
    else
      match lib.parseURL u with
      | none => "/"
      | some (scheme, host, path) =>
        if scheme ≠ "" ∨ host ≠ "" ∨ (afterPrefix? "/auth/" path).isSome then "/" else u
  | _ => "/"

/-- `startLogin`, with the texts that `randomString` draws. -/
def startLogin (jar : Jar) (next state nonce : String) (now : ℤ) : Cookie where
  name := stateCookieName
  issuedAt := now
  values := { ((sessionStore cfg).load jar stateCookieName now).getD .empty with
    state := state, nonce := nonce, next := safeRedirect lib next }
  maxAge := 10 * 60

structure CallbackQuery where
  error : String
  state : String
  code : String
  deriving DecidableEq, Repr

/-- A verified ID token and its claims. -/
structure IdToken where
  nonce : String
  subject : String
  email : String
  emailVerified : Option Bool
  name : String
  deriving DecidableEq, Repr

def emailAllowed (email : String) (allowedDomains : List String) : Bool :=
  -- the characters after the last `@`, and before it, both from the end
  let rev := (lib.unicode.lower (trimSpace email)).toList.reverse
  match cutChars '@' rev with
  | none => false
  | some (domain, before) =>
    !before.isEmpty && !domain.isEmpty &&
      allowedDomains.any fun d => lib.unicode.equalFold (trimSpace d) (String.ofList domain.reverse)

/-- The check of `AllowedEmailDomains`. -/
def loginAllowed (token : IdToken) : Bool :=
  cfg.allowedEmailDomains.isEmpty ||
    (token.emailVerified == some true && emailAllowed lib token.email cfg.allowedEmailDomains)

def tokenUser (token : IdToken) : User := ⟨token.subject, token.email, token.name, cfg.providerName⟩

/-- `CallbackHandler`, with the token that the provider gives for the code: the
    user who is logged in and the session cookie. -/
def callback (jar : Jar) (q : CallbackQuery) (answer : Option IdToken) (now : ℤ) :
    Option (User × Cookie) := do
  guard (q.error = "")
  guard (q.state ≠ "" ∧ q.code ≠ "")
  let v ← (sessionStore cfg).load jar stateCookieName now
  guard (v.state ≠ "" ∧ v.state = q.state ∧ v.nonce ≠ "")
  let token ← answer
  guard (token.nonce = v.nonce)
  guard (loginAllowed lib cfg token)
  let values := ((sessionStore cfg).load jar (sessionCookieName cfg) now).getD .empty
  some (tokenUser cfg token,
    ⟨sessionCookieName cfg, now, { values with user := some (tokenUser cfg token) },
      (sessionStore cfg).maxAge⟩)

/-- The user that `AuthMiddleware` attaches. -/
def currentUser (jar : Jar) (now : ℤ) : Option User :=
  ((sessionStore cfg).load jar (sessionCookieName cfg) now).bind fun v => v.user

/-- The cookie of `LogoutHandler`. -/
def logoutCookie (now : ℤ) : Cookie := ⟨sessionCookieName cfg, now, .empty, -1⟩

end

/-! ## Runs -/

/-- A request that was passed on for a user, and the logins before it. -/
structure Pass where
  time : ℤ
  user : User
  logins : List (ℤ × User)
  deriving DecidableEq, Repr

structure AuthWorld where
  /-- all cookies the server has issued -/
  issued : List Cookie
  logins : List (ℤ × User)
  passes : List Pass
  deriving DecidableEq, Repr

def AuthWorld.init : AuthWorld := ⟨[], [], []⟩

inductive AuthEvent where
  | login (jar : Jar) (next state nonce : String) (now : ℤ)
  | callback (jar : Jar) (q : CallbackQuery) (answer : Option IdToken) (now : ℤ)
  | logout (jar : Jar) (now : ℤ)
  /-- a request that is not allow-listed, for a URL to return to after a login -/
  | request (jar : Jar) (dest state nonce : String) (now : ℤ)

def AuthEvent.jar : AuthEvent → Jar
  | login jar _ _ _ _ | callback jar _ _ _ | logout jar _ | request jar _ _ _ _ => jar

def AuthWorld.step (lib : AuthLib) (cfg : HttpAuthConfig) (w : AuthWorld) (e : AuthEvent) :
    Option AuthWorld :=
  if ∀ p ∈ e.jar, p.2 ∈ w.issued then
    match e with
    | .login jar next state nonce now =>
      some { w with issued := startLogin lib cfg jar next state nonce now :: w.issued }
    | .callback jar q answer now =>
      match callback lib cfg jar q answer now with
      | none => some w
      | some (user, cookie) =>
        some { w with issued := cookie :: w.issued, logins := (now, user) :: w.logins }
    | .logout _ now => some { w with issued := logoutCookie cfg now :: w.issued }
    | .request jar dest state nonce now =>
      match currentUser cfg jar now with
      | some user => some { w with passes := ⟨now, user, w.logins⟩ :: w.passes }
      | none => some { w with issued := startLogin lib cfg jar dest state nonce now :: w.issued }
  else none

/-- Every request was passed on within the lifetime of a login of its user. -/
def AuthWorld.Expires (cfg : HttpAuthConfig) (w : AuthWorld) : Prop :=
  ∀ p ∈ w.passes, ∃ t₀, (t₀, p.user) ∈ p.logins ∧ p.time - t₀ ≤ cfg.sessionTTL

section
variable {lib : AuthLib} {cfg : HttpAuthConfig} {w w' : AuthWorld}

/-! ## What a handler does -/

theorem load_some {store : CookieStore} {jar : Jar} {name : String} {now : ℤ} {v : SessionValues}
    (h : store.load jar name now = some v) : ∃ c, (name, c) ∈ jar ∧ c.name = name ∧
      now - c.issuedAt ≤ store.codecMaxAge ∧ c.values = v := by
  unfold CookieStore.load at h
  split at h
  · cases h
  · rename_i c hc
    split_ifs at h with hok
    obtain ⟨l₁, l₂, rfl, -⟩ := List.lookup_eq_some_iff.1 hc
    exact ⟨c, by simp, hok.1, hok.2, Option.some.inj h⟩

/-- A successful callback logs a user in, whom the provider vouches for. -/
theorem callback_some {jar : Jar} {q : CallbackQuery} {answer : Option IdToken} {now : ℤ} {user : User}
    {cookie : Cookie} (h : callback lib cfg jar q answer now = some (user, cookie)) :
    (∃ token, loginAllowed lib cfg token = true) ∧ cookie.name = sessionCookieName cfg ∧
      cookie.issuedAt = now ∧ cookie.values.user = some user := by
  unfold callback at h
  simp only [bind, Option.bind_eq_some_iff, Option.guard_eq_some'] at h
  obtain ⟨_, -, _, -, v, -, _, -, token, -, _, -, _, hallowed, h⟩ := h
  cases h
  exact ⟨⟨token, hallowed⟩, rfl, rfl, rfl⟩

/-- What one step does: it issues a cookie without a login, logs a user in,
    passes a request on, or changes nothing. -/
inductive AuthEffect (lib : AuthLib) (cfg : HttpAuthConfig) (w : AuthWorld) : AuthWorld → Prop
  | none : AuthEffect lib cfg w w
  | state {c : Cookie} : c.name = stateCookieName →
      (c.values.user = none ∨ ∃ c' ∈ w.issued, c'.name = stateCookieName ∧
        c'.values.user = c.values.user) →
      AuthEffect lib cfg w { w with issued := c :: w.issued }
  | logout {c : Cookie} : c.values.user = none → AuthEffect lib cfg w { w with issued := c :: w.issued }
  | login {c : Cookie} {user : User} : (∃ token, loginAllowed lib cfg token = true) →
      c.values.user = some user →
      AuthEffect lib cfg w
        { w with issued := c :: w.issued, logins := (c.issuedAt, user) :: w.logins }
  | pass {c : Cookie} {now : ℤ} {user : User} : c ∈ w.issued → c.name = sessionCookieName cfg →
      now - c.issuedAt ≤ 86400 * 30 → c.values.user = some user →
      AuthEffect lib cfg w { w with passes := ⟨now, user, w.logins⟩ :: w.passes }

/-- `startLogin` keeps the user of a state cookie that it replaces. -/
theorem startLogin_user {jar : Jar} (hjar : ∀ p ∈ jar, p.2 ∈ w.issued) (next state nonce : String)
    (now : ℤ) : (startLogin lib cfg jar next state nonce now).values.user = none ∨
      ∃ c' ∈ w.issued, c'.name = stateCookieName ∧
        c'.values.user = (startLogin lib cfg jar next state nonce now).values.user := by
  unfold startLogin
  cases hl : (sessionStore cfg).load jar stateCookieName now with
  | none => exact .inl rfl
  | some v =>
    obtain ⟨c, hc, hname, -, rfl⟩ := load_some hl
    exact .inr ⟨c, hjar _ hc, hname, rfl⟩

theorem step_effect {e : AuthEvent} (h : w.step lib cfg e = some w') : AuthEffect lib cfg w w' := by
  unfold AuthWorld.step at h
  split_ifs at h with hjar
  cases e with
  | login jar next state nonce now =>
    cases h
    exact .state rfl (startLogin_user hjar next state nonce now)
  | callback jar q answer now =>
    simp only at h
    split at h
    · cases h
      exact .none
    · rename_i user cookie hc
      cases h
      obtain ⟨hallowed, -, rfl, huser⟩ := callback_some hc
      exact .login hallowed huser
  | logout jar now =>
    cases h
    exact .logout rfl
  | request jar dest state nonce now =>
    simp only at h
    split at h
    · rename_i user hu
      cases h
      obtain ⟨v, hv, huser⟩ := Option.bind_eq_some_iff.1 hu
      obtain ⟨c, hc, hname, hage, rfl⟩ := load_some hv
      exact .pass (hjar _ hc) hname hage huser
    · cases h
      exact .state rfl (startLogin_user hjar dest state nonce now)

/-! ## Sessions go back to logins -/

/-- A session cookie was issued by the login of its user. -/
def SessionsOfLogins (cfg : HttpAuthConfig) (w : AuthWorld) : Prop :=
  ∀ c ∈ w.issued, c.name = sessionCookieName cfg → ∀ user, c.values.user = some user →
    (c.issuedAt, user) ∈ w.logins

theorem session_of_login (hname : sessionCookieName cfg ≠ stateCookieName)
    (h : SessionsOfLogins cfg w) (he : AuthEffect lib cfg w w') : SessionsOfLogins cfg w' := by
  cases he with
  | none => exact h
  | state hs =>
    intro c hc hn user hu
    rcases List.mem_cons.1 hc with rfl | hc
    · exact absurd (hn.symm.trans hs) hname
    · exact h c hc hn user hu
  | logout hs =>
    intro c hc hn user hu
    rcases List.mem_cons.1 hc with rfl | hc
    · rw [hs] at hu
      cases hu
    · exact h c hc hn user hu
  | login _ hs =>
    intro c hc hn user hu
    rcases List.mem_cons.1 hc with rfl | hc
    · rw [hs] at hu
      cases hu
      exact List.mem_cons_self
    · exact List.mem_cons_of_mem _ (h c hc hn user hu)
  | pass => exact h

theorem expires_effect (httl : 86400 * 30 ≤ cfg.sessionTTL) (h : SessionsOfLogins cfg w)
    (hx : w.Expires cfg) (he : AuthEffect lib cfg w w') : w'.Expires cfg := by
  cases he with
  | none | state | logout | login => exact hx
  | @pass c now user hc hn hage hu =>
    intro p hp
    rcases List.mem_cons.1 hp with rfl | hp
    · exact ⟨c.issuedAt, h c hc hn user hu, hage.trans httl⟩
    · exact hx p hp

/-- Nobody is ever logged in, if no login is allowed. -/
theorem no_user_effect (hno : ∀ token, loginAllowed lib cfg token = false)
    (h : (∀ c ∈ w.issued, c.values.user = none) ∧ w.passes = []) (he : AuthEffect lib cfg w w') :
    (∀ c ∈ w'.issued, c.values.user = none) ∧ w'.passes = [] := by
  obtain ⟨hc, hp⟩ := h
  cases he with
  | none => exact ⟨hc, hp⟩
  | state _ hs =>
    refine ⟨List.forall_mem_cons.2 ⟨?_, hc⟩, hp⟩
    rcases hs with hs | ⟨c', hc', -, hu⟩
    · exact hs
    · rw [← hu, hc c' hc']
  | logout hs => exact ⟨List.forall_mem_cons.2 ⟨hs, hc⟩, hp⟩
  | login hs =>
    obtain ⟨token, ht⟩ := hs
    rw [hno token] at ht
    cases ht
  | pass hmem _ _ hu =>
    rw [hc _ hmem] at hu
    cases hu

/-! ## Sessions that outlive their login -/

/-- After one login, at time 0, somebody has a session cookie issued at
    `issuedAt`. -/
def LoggedIn (lib : AuthLib) (cfg : HttpAuthConfig) (user : User) (issuedAt : ℤ) : Prop :=
  ∃ w, Reach (AuthWorld.step lib cfg) .init w ∧ w.logins = [(0, user)] ∧
    ∃ c ∈ w.issued, c.name = sessionCookieName cfg ∧ c.issuedAt = issuedAt ∧ c.values.user = some user

theorem load_own (store : CookieStore) (c : Cookie) {now : ℤ}
    (hage : now - c.issuedAt ≤ store.codecMaxAge) :
    store.load [(c.name, c)] c.name now = some c.values := by
  simp [CookieStore.load, hage]

theorem loggedIn_login {token : IdToken} (h : loginAllowed lib cfg token = true) :
    LoggedIn lib cfg (tokenUser cfg token) 0 := by
  let first := startLogin lib cfg [] "/" "state" "nonce" 0
  have hload : (sessionStore cfg).load [(stateCookieName, first)] stateCookieName 0 =
      some first.values :=
    load_own (sessionStore cfg) first (by decide : (0 : ℤ) - 0 ≤ 86400 * 30)
  have hcallback : ∃ c, callback lib cfg [(stateCookieName, first)] ⟨"", "state", "code"⟩
      (some { token with nonce := "nonce" }) 0 = some (tokenUser cfg token, c) := by
    have hallowed : loginAllowed lib cfg { token with nonce := "nonce" } = true := h
    let values := ((sessionStore cfg).load [(stateCookieName, first)] (sessionCookieName cfg) 0).getD
      .empty
    refine ⟨⟨sessionCookieName cfg, 0, { values with user := some (tokenUser cfg token) },
      (sessionStore cfg).maxAge⟩, ?_⟩
    have hv : first.values = ⟨none, "state", "nonce", safeRedirect lib "/"⟩ := rfl
    simp [callback, hload, hallowed, hv, tokenUser, values]
  obtain ⟨c, hc⟩ := hcallback
  obtain ⟨-, hname, hat, huser⟩ := callback_some hc
  have h₁ : AuthWorld.init.step lib cfg (.login [] "/" "state" "nonce" 0) = some ⟨[first], [], []⟩ := rfl
  have h₂ : (⟨[first], [], []⟩ : AuthWorld).step lib cfg (.callback [(stateCookieName, first)]
      ⟨"", "state", "code"⟩ (some { token with nonce := "nonce" }) 0) =
        some ⟨[c, first], [(0, tokenUser cfg token)], []⟩ := by
    simp [AuthWorld.step, AuthEvent.jar, hc]
  refine ⟨_, ⟨_, .cons trivial h₁ (.cons trivial h₂ .nil)⟩, rfl, c, by simp, hname, hat, huser⟩

/-- With the name of the state cookie, a session is renewed without a login. -/
theorem loggedIn_renew {user : User} {issuedAt now : ℤ}
    (hname : sessionCookieName cfg = stateCookieName) (hage : now - issuedAt ≤ 86400 * 30)
    (h : LoggedIn lib cfg user issuedAt) : LoggedIn lib cfg user now := by
  obtain ⟨w, hreach, hlogins, c, hc, hcn, rfl, hu⟩ := h
  have hload : (sessionStore cfg).load [(stateCookieName, c)] stateCookieName now = some c.values := by
    rw [← hname, ← hcn]
    exact load_own _ _ hage
  have hstep : w.step lib cfg (.login [(stateCookieName, c)] "/" "state" "nonce" now) =
      some { w with issued := startLogin lib cfg [(stateCookieName, c)] "/" "state" "nonce" now ::
        w.issued } := by
    simp [AuthWorld.step, AuthEvent.jar, hc]
  refine ⟨_, hreach.trans ⟨_, .cons trivial hstep .nil⟩, hlogins, _, List.mem_cons_self, hname.symm,
    rfl, ?_⟩
  simp [startLogin, hload, hu]

theorem loggedIn_renewed {user : User} (hname : sessionCookieName cfg = stateCookieName)
    (h : LoggedIn lib cfg user 0) (k : ℕ) : LoggedIn lib cfg user (k * (86400 * 30)) := by
  induction k with
  | zero => simpa using h
  | succ k ih =>
    refine loggedIn_renew hname ?_ ih
    push_cast
    omega

/-- A session cookie is accepted for thirty days, whatever `SessionTTL` is. -/
theorem not_expires {user : User} {issuedAt : ℤ} (now : ℤ) (h : LoggedIn lib cfg user issuedAt)
    (hage : now - issuedAt ≤ 86400 * 30) (hlate : cfg.sessionTTL < now) :
    ∃ w, Reach (AuthWorld.step lib cfg) .init w ∧ ¬ w.Expires cfg := by
  obtain ⟨w, hreach, hlogins, c, hc, hcn, rfl, hu⟩ := h
  have huser : currentUser cfg [(sessionCookieName cfg, c)] now = some user := by
    unfold currentUser
    rw [← hcn, load_own (sessionStore cfg) c hage]
    exact hu
  have hstep : w.step lib cfg (.request [(sessionCookieName cfg, c)] "/" "state" "nonce" now) =
      some { w with passes := ⟨now, user, w.logins⟩ :: w.passes } := by
    simp [AuthWorld.step, AuthEvent.jar, hc, huser]
  refine ⟨_, hreach.trans ⟨_, .cons trivial hstep .nil⟩, fun hx => ?_⟩
  obtain ⟨t₀, ht₀, hle⟩ := hx _ List.mem_cons_self
  simp only [hlogins, List.mem_singleton, Prod.mk.injEq] at ht₀
  obtain ⟨rfl, -⟩ := ht₀
  simp only at hle
  omega

/-- **Logins expire after `SessionTTL`** in every run, iff nobody can log in or
    the lifetime is thirty days at least and the session cookie has a name of
    its own. -/
theorem logins_expire_iff (lib : AuthLib) (cfg : HttpAuthConfig) (httl : 0 < cfg.sessionTTL) :
    (∀ w, Reach (AuthWorld.step lib cfg) .init w → w.Expires cfg) ↔
      (∀ token, loginAllowed lib cfg token = false) ∨
        (86400 * 30 ≤ cfg.sessionTTL ∧ sessionCookieName cfg ≠ stateCookieName) := by
  constructor
  · intro h
    by_contra hcon
    simp only [not_or, not_forall, Bool.not_eq_false, not_and, not_not] at hcon
    obtain ⟨⟨token, htoken⟩, hname⟩ := hcon
    have hin := loggedIn_login htoken
    have hbad : ∃ w, Reach (AuthWorld.step lib cfg) .init w ∧ ¬ w.Expires cfg := by
      by_cases hlong : 86400 * 30 ≤ cfg.sessionTTL
      · -- the last renewal before the lifetime ends is good for a request after it
        have hk := loggedIn_renewed (hname hlong) hin ((cfg.sessionTTL + 1) / (86400 * 30)).toNat
        refine not_expires (cfg.sessionTTL + 1) hk ?_ (by omega)
        omega
      · exact not_expires (cfg.sessionTTL + 1) hin (by omega) (by omega)
    obtain ⟨w, hreach, hw⟩ := hbad
    exact hw (h w hreach)
  · rintro (hno | ⟨hlong, hname⟩) w hreach
    · have hnone := hreach.inv (I := fun w => (∀ c ∈ w.issued, c.values.user = none) ∧ w.passes = [])
        (fun _ _ _ hi hs => no_user_effect hno hi (step_effect hs)) ⟨by rintro _ ⟨⟩, rfl⟩
      intro p hp
      rw [hnone.2] at hp
      cases hp
    · have hinv := hreach.inv (I := fun w => SessionsOfLogins cfg w ∧ w.Expires cfg)
        (fun _ _ _ hi hs => ⟨session_of_login hname hi.1 (step_effect hs),
          expires_effect hlong hi.1 hi.2 (step_effect hs)⟩) ⟨by rintro _ ⟨⟩, by rintro _ ⟨⟩⟩
      exact hinv.2

end

/-! ## Two configurations -/

def sampleAuthLib : AuthLib := ⟨.ascii, fun u => some ("", "", u)⟩

def sampleAuth (ttl : ℤ) : HttpAuthConfig := ⟨[], "", ttl, "google"⟩

/-- Sixty days. -/
theorem logins_expire_sample : 0 < (sampleAuth 5184000).sessionTTL ∧
    ∀ w, Reach (AuthWorld.step sampleAuthLib (sampleAuth 5184000)) .init w →
      w.Expires (sampleAuth 5184000) :=
  ⟨by decide,
    (logins_expire_iff sampleAuthLib (sampleAuth 5184000) (by decide)).2 (.inr ⟨by decide, by decide⟩)⟩

def sampleStateCookie : Cookie :=
  startLogin sampleAuthLib (sampleAuth 43200) [] "/" "state" "nonce" 0

def sampleUser : User := ⟨"1", "a@example.com", "A", "google"⟩

def sampleSessionCookie : Cookie :=
  ⟨"mailrelay_session", 0, { SessionValues.empty with user := some sampleUser }, 43200⟩

/-- A login, and a request with its cookie a day later. -/
def replayedSession : List AuthEvent :=
  [.login [] "/" "state" "nonce" 0,
    .callback [(stateCookieName, sampleStateCookie)] ⟨"", "state", "code"⟩
      (some ⟨"nonce", "1", "a@example.com", some true, "A"⟩) 0,
    .request [("mailrelay_session", sampleSessionCookie)] "/" "state" "nonce" 86400]

/-- **A session of the default twelve hours that is accepted after a day.** -/
theorem session_outlives_ttl : ∃ w,
    exec (AuthWorld.step sampleAuthLib (sampleAuth 43200)) .init replayedSession = some w ∧
    ¬ w.Expires (sampleAuth 43200) := by
  have hs : exec (AuthWorld.step sampleAuthLib (sampleAuth 43200)) .init replayedSession =
      some ⟨[sampleSessionCookie, sampleStateCookie], [(0, sampleUser)],
        [⟨86400, sampleUser, [(0, sampleUser)]⟩]⟩ := by decide +kernel
  refine ⟨_, hs, fun hx => ?_⟩
  obtain ⟨t₀, ht₀, hle⟩ := hx _ List.mem_cons_self
  simp only [List.mem_singleton, Prod.mk.injEq] at ht₀
  obtain ⟨rfl, -⟩ := ht₀
  exact absurd hle (by decide)

end Mailrelay
