/-
  The HTTP server (`run` of `cmd/mailrelay/main.go`, `Register` of
  `internal/webui/handler.go`, `AuthMiddleware` of
  `internal/httpauth/httpauth.go`).

  A request passes `csrfMiddleware`, then `AuthMiddleware` with its list of
  public paths, then the routes.  `SiteWorld` runs requests one after another
  on the sessions of `AuthWorld`, in any order and with any cookies that were
  issued; `calls` records the handlers that were called.

  * `ui_path_guarded`: a path that is routed to the web UI is neither public
    nor exempt from the token;
  * `ui_calls_guarded`: every call of a handler of the web UI is made for a
    user who has logged in, and one that changes something with the token.
-/
import Mailrelay.Http.Csrf
import Mailrelay.Httpauth.Session
import Mailrelay.Lib.Mux

namespace Mailrelay

open Lib

/-! ## Routes -/

inductive Route where
  | healthz | metrics
  | login | callback | logout
  | «static» | list | detail | replay | delete | raw | attachment | deleteAll
  | stats | statsHTML | events
  | settings | settingsSave
  | rulesList | rulesExport | rulesImport | ruleCreate | ruleEditForm | ruleUpdate | ruleDelete
  | ruleToggle | testWebhook
  deriving DecidableEq, Repr

namespace Route

/-- The handlers that `Register` adds. -/
def isUI : Route → Bool
  | healthz | metrics | login | callback | logout => false
  | _ => true

/-- The handlers that change the store, the settings or the rules, or send a
    request. -/
def changes : Route → Bool
  | replay | delete | deleteAll | settingsSave | rulesImport | ruleCreate | ruleUpdate | ruleDelete
  | ruleToggle | testWebhook => true
  | _ => false

end Route

def lit (s : String) : PatternSeg := .lit (utf8 s)

/-- The routes of `run`, with a manager for logins or without. -/
def publicRoutes (auth : Bool) : List (Pattern × Route) :=
  [(⟨"", [lit "healthz"]⟩, .healthz), (⟨"", [lit "metrics"]⟩, .metrics)] ++
    if auth then [(⟨"", [lit "auth", lit "login"]⟩, .login),
      (⟨"", [lit "auth", lit "callback"]⟩, .callback), (⟨"", [lit "auth", lit "logout"]⟩, .logout)]
    else []

/-- `Handler.Register` -/
def uiRoutes : List (Pattern × Route) :=
  [(⟨"GET", [lit "static", .multi]⟩, .static),
    (⟨"GET", [.lit slash]⟩, .list),
    (⟨"GET", [lit "emails", .wild]⟩, .detail),
    (⟨"POST", [lit "emails", .wild, lit "replay"]⟩, .replay),
    (⟨"DELETE", [lit "emails", .wild]⟩, .delete),
    (⟨"GET", [lit "emails", .wild, lit "raw"]⟩, .raw),
    (⟨"GET", [lit "emails", .wild, lit "attachments", .wild]⟩, .attachment),
    (⟨"POST", [lit "emails", lit "delete-all"]⟩, .deleteAll),
    (⟨"GET", [lit "api", lit "stats"]⟩, .stats),
    (⟨"GET", [lit "api", lit "stats-html"]⟩, .statsHTML),
    (⟨"GET", [lit "api", lit "events"]⟩, .events),
    (⟨"GET", [lit "settings"]⟩, .settings),
    (⟨"POST", [lit "settings"]⟩, .settingsSave),
    (⟨"GET", [lit "rules"]⟩, .rulesList),
    (⟨"GET", [lit "rules", lit "export"]⟩, .rulesExport),
    (⟨"POST", [lit "rules", lit "import"]⟩, .rulesImport),
    (⟨"POST", [lit "rules"]⟩, .ruleCreate),
    (⟨"GET", [lit "rules", .wild, lit "edit"]⟩, .ruleEditForm),
    (⟨"POST", [lit "rules", .wild]⟩, .ruleUpdate),
    (⟨"DELETE", [lit "rules", .wild]⟩, .ruleDelete),
    (⟨"POST", [lit "rules", .wild, lit "toggle"]⟩, .ruleToggle),
    (⟨"POST", [lit "rules", lit "test-webhook"]⟩, .testWebhook)]

/-! ## Requests -/

structure SiteConfig where
  lib : AuthLib
  protectMetrics : Bool
  /-- `webui.enabled` -/
  webui : Bool

/-- A request as the middlewares and the handlers of logins read it. -/
structure SiteRequest where
  web : WebRequest
  /-- `URL.EscapedPath` -/
  escapedPath : List Char
  path_eq : web.path = unescape escapedPath
  /-- the cookies of the session store -/
  jar : Jar
  /-- `URL.RequestURI` -/
  requestURI : String
  /-- the query of `/auth/login` -/
  next : String
  /-- the query of `/auth/callback` -/
  query : CallbackQuery

/-- What becomes of a request. -/
inductive Served where
  /-- the token is missing or wrong -/
  | forbidden
  /-- a redirect to the provider, to come back to `dest` -/
  | login (dest : String)
  /-- a redirect or an error of the routes -/
  | unrouted
  | handled (route : Route) (user : Option User)
  deriving DecidableEq, Repr

/-- The public paths of `run`. -/
def allowPublic (protectMetrics : Bool) (r : WebRequest) : Bool :=
  (r.method == "GET" && r.path == utf8 "/healthz") ||
    (r.method == "GET" && r.path == utf8 "/metrics" && !protectMetrics) || isAuthPath r.path

section
variable (c : SiteConfig)

/-- The routes, for a request that has passed the middlewares. -/
def routed (auth : Bool) (r : SiteRequest) (user : Option User) : Served :=
  match serveMux (publicRoutes auth ++ if c.webui then uiRoutes else []) r.web.method r.escapedPath with
  | none => .unrouted
  | some route => .handled route user

/-- `AuthMiddleware` -/
def authMiddleware (cfg : HttpAuthConfig) (r : SiteRequest) (now : ℤ) : Served :=
  if allowPublic c.protectMetrics r.web then routed c true r none
  else
    match currentUser cfg r.jar now with
    | some user => routed c true r (some user)
    | none => .login (if r.web.method = "GET" then r.requestURI else "/")

/-- The handler of the server, with logins. -/
def serveRequest (cfg : HttpAuthConfig) (r : SiteRequest) (random : Random) (now : ℤ) : Served :=
  if (csrfMiddleware c.lib.unicode r.web random).2 then authMiddleware c cfg r now else .forbidden

end

/-! ## Runs -/

/-- A call of a handler, with the logins before it. -/
structure Call where
  route : Route
  user : Option User
  request : WebRequest
  time : ℤ
  logins : List (ℤ × User)

structure SiteWorld where
  auth : AuthWorld
  calls : List Call

def SiteWorld.init : SiteWorld := ⟨.init, []⟩

/-- A request, with the texts that are drawn for it and the answer of the
    provider. -/
structure SiteEvent where
  request : SiteRequest
  random : Random
  state : String
  nonce : String
  answer : Option IdToken
  now : ℤ

/-- What the request is for the sessions. -/
def SiteEvent.auth (e : SiteEvent) : Served → Option AuthEvent
  | .login dest => some (.request e.request.jar dest e.state e.nonce e.now)
  | .handled .login _ => some (.login e.request.jar e.request.next e.state e.nonce e.now)
  | .handled .callback _ => some (.callback e.request.jar e.request.query e.answer e.now)
  | .handled .logout _ => some (.logout e.request.jar e.now)
  | .handled _ (some _) => some (.request e.request.jar "" e.state e.nonce e.now)
  | _ => none

def SiteEvent.calls (e : SiteEvent) (logins : List (ℤ × User)) : Served → List Call
  | .handled route user => [⟨route, user, e.request.web, e.now, logins⟩]
  | _ => []

def SiteWorld.step (c : SiteConfig) (cfg : HttpAuthConfig) (w : SiteWorld) (e : SiteEvent) :
    Option SiteWorld :=
  let served := serveRequest c cfg e.request e.random e.now
  if ∀ p ∈ e.request.jar, p.2 ∈ w.auth.issued then
    let auth := match e.auth served with
      | none => some w.auth
      | some a => w.auth.step c.lib cfg a
    auth.map fun auth => ⟨auth, e.calls w.auth.logins served ++ w.calls⟩
  else none

/-! ## Paths of the web UI -/

/-- The first segments of the routes of the web UI. -/
def uiSegments : List Bytes :=
  [slash, utf8 "static", utf8 "emails", utf8 "api", utf8 "settings", utf8 "rules"]

/-- Every route of the web UI begins with a literal, and those that change
    something are for `POST` or `DELETE`. -/
theorem uiRoutes_pattern : ∀ p ∈ uiRoutes, p.2.isUI = true ∧
    (∃ s ∈ uiSegments, p.1.segs.head? = some (.lit s)) ∧
    (p.2.changes = true → p.1.method = "POST" ∨ p.1.method = "DELETE") := by
  decide +kernel

theorem publicRoutes_notUI (auth : Bool) : ∀ p ∈ publicRoutes auth, p.2.isUI = false := by
  cases auth <;> decide +kernel

/-- Paths that begin with such a segment are not public. -/
theorem uiSegment_not_public {s : Bytes} (hs : s ∈ uiSegments) (tail : Bytes) :
    isAuthPath (47 :: (s ++ tail)) = false ∧ 47 :: (s ++ tail) ≠ utf8 "/healthz" ∧
      47 :: (s ++ tail) ≠ utf8 "/metrics" := by
  have hauth : utf8 "/auth/" = [47, 97, 117, 116, 104, 47] := by decide +kernel
  have hhealth : utf8 "/healthz" = [47, 104, 101, 97, 108, 116, 104, 122] := by decide +kernel
  have hmetrics : utf8 "/metrics" = [47, 109, 101, 116, 114, 105, 99, 115] := by decide +kernel
  have hsegs : uiSegments = [[47], [115, 116, 97, 116, 105, 99], [101, 109, 97, 105, 108, 115],
      [97, 112, 105], [115, 101, 116, 116, 105, 110, 103, 115], [114, 117, 108, 101, 115]] := by
    decide +kernel
  rw [hsegs] at hs
  rw [isAuthPath, hauth, hhealth, hmetrics]
  simp only [List.mem_cons, List.not_mem_nil, or_false] at hs
  rcases hs with rfl | rfl | rfl | rfl | rfl | rfl <;> simp [List.isPrefixOf]

/-- **A path that is routed to the web UI is neither public nor exempt.** -/
theorem ui_path_guarded {c : SiteConfig} {auth : Bool} {r : SiteRequest} {user user' : Option User}
    {route : Route} (h : routed c auth r user = .handled route user') (hui : route.isUI = true) :
    user' = user ∧ isAuthPath r.web.path = false ∧ allowPublic c.protectMetrics r.web = false ∧
      (route.changes = true → unsafeMethod r.web.method = true) := by
  unfold routed at h
  split at h
  · cases h
  rename_i route' hroute
  cases h
  obtain ⟨p, hp, haccepts⟩ := serveMux_sound hroute
  have hp' : (p, route) ∈ uiRoutes := by
    rcases List.mem_append.1 hp with hp | hp
    · have := publicRoutes_notUI auth _ hp
      rw [hui] at this
      cases this
    · split_ifs at hp
      · exact hp
      · cases hp
  obtain ⟨-, ⟨s, hs, hhead⟩, hmethod⟩ := uiRoutes_pattern _ hp'
  obtain ⟨rest, hrest⟩ : ∃ rest, p.segs = .lit s :: rest := by
    obtain ⟨x, xs, hx⟩ := List.exists_cons_of_ne_nil (l := p.segs) (by rintro hnil; simp [hnil] at hhead)
    rw [hx, List.head?_cons, Option.some.injEq] at hhead
    exact ⟨xs, hhead ▸ hx⟩
  have hsegs := haccepts.segs
  have hpath : unescape r.escapedPath = [47] ∨ ∃ tail, unescape r.escapedPath = 47 :: (s ++ tail) := by
    cases hseg : segments r.escapedPath with
    | nil =>
      rw [hrest, hseg] at hsegs
      exact hsegs.elim
    | cons seg segs =>
      rw [hrest, hseg] at hsegs
      obtain ⟨rfl, -⟩ := hsegs
      exact unescape_of_segments hseg
  have hapart : isAuthPath r.web.path = false ∧ r.web.path ≠ utf8 "/healthz" ∧
      r.web.path ≠ utf8 "/metrics" := by
    rw [r.path_eq]
    rcases hpath with hpath | ⟨tail, hpath⟩
    · rw [hpath]
      decide +kernel
    · rw [hpath]
      exact uiSegment_not_public hs tail
  refine ⟨rfl, hapart.1, by simp [allowPublic, hapart], fun hchanges => ?_⟩
  rcases haccepts.method with hm | hm | ⟨hm, -⟩ <;> rcases hmethod hchanges with hm' | hm' <;>
    rw [hm] at hm'
  · exact absurd hm' (by decide)
  · exact absurd hm' (by decide)
  · simp [unsafeMethod, hm']
  · simp [unsafeMethod, hm']
  · exact absurd hm' (by decide)
  · exact absurd hm' (by decide)

/-! ## Calls of the web UI -/

section
variable {c : SiteConfig} {cfg : HttpAuthConfig} {w w' : SiteWorld} {a a' : AuthWorld}

/-- Every login is one that the configuration allows. -/
def LoginsAllowed (lib : AuthLib) (cfg : HttpAuthConfig) (a : AuthWorld) : Prop :=
  ∀ l ∈ a.logins, ∃ token, loginAllowed lib cfg token = true ∧ tokenUser cfg token = l.2

theorem loginsAllowed_step {lib : AuthLib} {e : AuthEvent} (h : LoginsAllowed lib cfg a)
    (hs : a.step lib cfg e = some a') : LoginsAllowed lib cfg a' := by
  unfold AuthWorld.step at hs
  split_ifs at hs
  cases e with
  | login => cases hs; exact h
  | logout => cases hs; exact h
  | request =>
    simp only at hs
    split at hs <;> cases hs <;> exact h
  | callback jar q answer now =>
    simp only at hs
    split at hs
    · cases hs
      exact h
    · rename_i user cookie hc
      cases hs
      refine List.forall_mem_cons.2 ⟨?_, h⟩
      unfold callback at hc
      simp only [bind, Option.bind_eq_some_iff, Option.guard_eq_some'] at hc
      obtain ⟨_, -, _, -, v, -, _, -, token, -, _, -, _, hallowed, hc⟩ := hc
      cases hc
      exact ⟨token, hallowed, rfl⟩

/-- A call for a user who has logged in within the lifetime of session cookies;
    if it changes something, the request carries the token of its cookie. -/
structure Call.Guarded (lib : AuthLib) (cfg : HttpAuthConfig) (call : Call) : Prop where
  user : ∃ user t₀ token, call.user = some user ∧ (t₀, user) ∈ call.logins ∧
    call.time - t₀ ≤ 86400 * 30 ∧ loginAllowed lib cfg token = true ∧ tokenUser cfg token = user
  token : call.route.changes = true → ∃ t, t ≠ "" ∧ call.request.cookie csrfCookieName = some t ∧
    (call.request.headerGet csrfHeaderName = t ∨
      call.request.headerGet csrfHeaderName = "" ∧ call.request.formValue csrfFormField = t)

structure SiteWorld.Guarded (lib : AuthLib) (cfg : HttpAuthConfig) (w : SiteWorld) : Prop where
  sessions : SessionsOfLogins cfg w.auth
  allowed : LoginsAllowed lib cfg w.auth
  calls : ∀ call ∈ w.calls, call.route.isUI = true → call.Guarded lib cfg

/-- The user of a request that is passed on has logged in. -/
theorem currentUser_loggedIn (hs : SessionsOfLogins cfg a) {jar : Jar} (hjar : ∀ p ∈ jar, p.2 ∈ a.issued)
    {now : ℤ} {user : User} (h : currentUser cfg jar now = some user) :
    ∃ t₀, (t₀, user) ∈ a.logins ∧ now - t₀ ≤ 86400 * 30 := by
  obtain ⟨v, hv, huser⟩ := Option.bind_eq_some_iff.1 h
  obtain ⟨cookie, hc, hname, hage, rfl⟩ := load_some hv
  exact ⟨cookie.issuedAt, hs cookie (hjar _ hc) hname user huser, hage⟩

/-- **What one request can call**: a handler of the web UI only behind both
    middlewares. -/
theorem serveRequest_guarded {r : SiteRequest} {random : Random} {now : ℤ} {route : Route}
    {user : Option User} (h : serveRequest c cfg r random now = .handled route user)
    (hui : route.isUI = true) : (∃ u, user = some u ∧ currentUser cfg r.jar now = some u) ∧
      (route.changes = true → validateToken r.web = true) := by
  unfold serveRequest at h
  split_ifs at h with hcsrf
  unfold authMiddleware at h
  by_cases hallow : allowPublic c.protectMetrics r.web = true
  · rw [if_pos hallow] at h
    have := (ui_path_guarded h hui).2.2.1
    rw [hallow] at this
    cases this
  · rw [if_neg hallow] at h
    cases hu : currentUser cfg r.jar now with
    | none => rw [hu] at h; cases h
    | some u =>
      rw [hu] at h
      obtain ⟨rfl, hpath, -, hmethod⟩ := ui_path_guarded h hui
      refine ⟨⟨u, rfl, rfl⟩, fun hchanges => ?_⟩
      rwa [csrfMiddleware_passes (hmethod hchanges) hpath] at hcsrf

theorem guarded_step (hname : sessionCookieName cfg ≠ stateCookieName) {e : SiteEvent}
    (h : w.Guarded c.lib cfg) (hs : w.step c cfg e = some w') : w'.Guarded c.lib cfg := by
  simp only [SiteWorld.step] at hs
  split_ifs at hs with hjar
  obtain ⟨auth, hauth, rfl⟩ := Option.map_eq_some_iff.1 hs
  have hinv : SessionsOfLogins cfg auth ∧ LoginsAllowed c.lib cfg auth := by
    cases he : e.auth (serveRequest c cfg e.request e.random e.now) with
    | none =>
      rw [he, Option.some.injEq] at hauth
      rw [← hauth]
      exact ⟨h.sessions, h.allowed⟩
    | some ev =>
      rw [he] at hauth
      exact ⟨session_of_login hname h.sessions (step_effect hauth), loginsAllowed_step h.allowed hauth⟩
  refine ⟨hinv.1, hinv.2, fun call hcall hui => ?_⟩
  rcases List.mem_append.1 hcall with hcall | hcall
  · cases hserved : serveRequest c cfg e.request e.random e.now with
    | forbidden | login | unrouted => rw [hserved] at hcall; cases hcall
    | handled route user =>
      rw [hserved, SiteEvent.calls, List.mem_singleton] at hcall
      subst hcall
      obtain ⟨⟨u, rfl, hu⟩, htoken⟩ := serveRequest_guarded hserved hui
      obtain ⟨t₀, ht₀, hage⟩ := currentUser_loggedIn h.sessions hjar hu
      obtain ⟨token, hallowed, huser⟩ := h.allowed _ ht₀
      exact ⟨⟨u, t₀, token, rfl, ht₀, hage, hallowed, huser⟩, fun hch => validateToken_iff.1 (htoken hch)⟩
  · exact h.calls call hcall hui

end

/-- **The web UI is called only for users who have logged in, and changes
    something only with the token**: in every run of requests with logins
    enabled. -/
theorem ui_calls_guarded (c : SiteConfig) (cfg : HttpAuthConfig)
    (hname : sessionCookieName cfg ≠ stateCookieName) (w : SiteWorld)
    (h : Reach (SiteWorld.step c cfg) .init w) :
    ∀ call ∈ w.calls, call.route.isUI = true → call.Guarded c.lib cfg :=
  (h.inv (I := SiteWorld.Guarded c.lib cfg) (fun _ _ _ hi hs => guarded_step hname hi hs)
    ⟨nofun, nofun, nofun⟩).calls

def sampleSite : SiteConfig := ⟨sampleAuthLib, false, true⟩

/-- A request for a path, with cookies of the session store and a token. -/
def siteRequest (method path : String) (jar : Jar) (query : CallbackQuery) (token : String) :
    SiteRequest where
  web := ⟨method, unescape path.toList, false, [(csrfCookieName, token)], [(csrfHeaderName, token)], []⟩
  escapedPath := path.toList
  path_eq := rfl
  jar := jar
  requestURI := path
  next := "/"
  query := query

def siteEvent (request : SiteRequest) (answer : Option IdToken) : SiteEvent :=
  ⟨request, none, "state", "nonce", answer, 0⟩

/-- A login, a replay of an email, and one without the session. -/
def loginAndReplay : List SiteEvent :=
  [siteEvent (siteRequest "GET" "/auth/login" [] ⟨"", "", ""⟩ "t") none,
    siteEvent (siteRequest "GET" "/auth/callback" [(stateCookieName, sampleStateCookie)]
      ⟨"", "state", "code"⟩ "t") (some ⟨"nonce", "1", "a@example.com", some true, "A"⟩),
    siteEvent (siteRequest "POST" "/emails/7/replay" [("mailrelay_session", sampleSessionCookie)]
      ⟨"", "", ""⟩ "t") none,
    siteEvent (siteRequest "POST" "/emails/7/replay" [] ⟨"", "", ""⟩ "t") none]

theorem ui_calls_guarded_sample : ∃ w : SiteWorld,
    w.calls.map (fun call => call.route) = [.replay, .callback, .login] ∧
      ∀ call ∈ w.calls, call.route.isUI = true → call.Guarded sampleSite.lib (sampleAuth 43200) := by
  have hs : ((exec (SiteWorld.step sampleSite (sampleAuth 43200)) .init loginAndReplay).map
      fun w => w.calls.map fun call => call.route) = some [.replay, .callback, .login] := by
    decide +kernel
  obtain ⟨w, hw, hroutes⟩ := Option.map_eq_some_iff.1 hs
  exact ⟨w, hroutes, ui_calls_guarded sampleSite (sampleAuth 43200) (by decide) w (Reach.of_exec hw)⟩

end Mailrelay
