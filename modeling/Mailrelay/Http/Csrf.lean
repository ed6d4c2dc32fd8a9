/-
  Cross-site request forgery (`internal/httpcsrf/httpcsrf.go`, and
  `csrfMiddleware` of `cmd/mailrelay/main.go`).

  The server keeps no tokens: a request that changes state repeats the token of
  its cookie in a header or a form field.  In `CsrfWorld` browsers load pages,
  whose responses set the cookie, send requests of these pages, and are made by
  other sites to send requests.  Another site cannot set the header, does not
  see the cookies of the browser, and knows the tokens that its own browsers
  were given (`hostile`).  Random tokens are not guessed and not drawn twice.
  A browser has its response before it sends its next request: two first loads
  of a page at the same time, which each get a token, are not in the model.

  * `forged_request_stopped`: no request of another site changes anything;
  * `own_request_passes_iff`: a request of a page passes iff the page has a
    token, as long as no response to a request without cookie is mixed in.
-/
import Mailrelay.Lib.Base64
import Mailrelay.Lib.Bytes
import Mailrelay.Lib.Mail
import Mailrelay.Lib.Run

namespace Mailrelay

open Lib

/-! ## Requests -/

/-- What the checks read of a request; the names of the header are canonical. -/
structure WebRequest where
  method : String
  /-- `URL.Path` -/
  path : Bytes
  tls : Bool
  cookies : List (String × String)
  header : List (String × String)
  form : List (String × String)
  deriving DecidableEq, Repr

namespace WebRequest

/-- `r.Cookie` -/
def cookie (r : WebRequest) (name : String) : Option String := r.cookies.lookup name

/-- `r.Header.Get` -/
def headerGet (r : WebRequest) (key : String) : String := get key r.header

/-- `r.FormValue` -/
def formValue (r : WebRequest) (key : String) : String := get key r.form

end WebRequest

/-! ## Tokens -/

def csrfCookieName : String := "mailrelay_csrf"

/-- `X-CSRF-Token` -/
def csrfHeaderName : String := "X-Csrf-Token"

def csrfFormField : String := "csrf_token"

/-- The bytes that `rand.Read` gives, unless it fails. -/
abbrev Random := Option (Vector UInt8 32)

def randomToken : Random → String
  | none => ""
  | some b => Base64.encodeRawURL b.toList

/-- The cookie of `EnsureToken`. -/
structure CsrfCookie where
  value : String
  secure : Bool
  deriving DecidableEq, Repr

/-- `IsSecure` -/
def isSecure (u : Unicode) (r : WebRequest) : Bool :=
  r.tls || u.equalFold (r.headerGet "X-Forwarded-Proto") "https"

/-- `EnsureToken`: the token, and the cookie if one is set. -/
def ensureToken (u : Unicode) (r : WebRequest) (random : Random) : String × Option CsrfCookie :=
  let value := (r.cookie csrfCookieName).getD ""
  if value ≠ "" then (value, none)
  else (randomToken random, some ⟨randomToken random, isSecure u r⟩)

def validateToken (r : WebRequest) : Bool :=
  match r.cookie csrfCookieName with
  | none => false
  | some want =>
    if want = "" then false
    else if r.headerGet csrfHeaderName ≠ "" then r.headerGet csrfHeaderName == want
    else if r.formValue csrfFormField ≠ "" then r.formValue csrfFormField == want
    else false

/-- The methods that `csrfMiddleware` checks. -/
def unsafeMethod (method : String) : Bool :=
  method == "POST" || method == "PUT" || method == "PATCH" || method == "DELETE"

/-- `strings.HasPrefix(r.URL.Path, "/auth/")` -/
def isAuthPath (path : Bytes) : Bool := (utf8 "/auth/").isPrefixOf path

/-- `csrfMiddleware`: the cookie it sets, and whether it calls the next handler. -/
def csrfMiddleware (u : Unicode) (r : WebRequest) (random : Random) : Option CsrfCookie × Bool :=
  if unsafeMethod r.method then
    if isAuthPath r.path then (none, true)
    else ((ensureToken u r random).2, validateToken r)
  else ((ensureToken u r random).2, true)

/-- A page handler calls `EnsureToken` again, on the same request: the cookies
    of the response in order, and the token that the page shows. -/
def pageTokens (u : Unicode) (r : WebRequest) (first second : Random) : List CsrfCookie × String :=
  ((csrfMiddleware u r first).1.toList ++ (ensureToken u r second).2.toList, (ensureToken u r second).1)

/-! ## Browsers -/

structure CsrfPass where
  browser : ℕ
  request : WebRequest
  /-- whether another site made the browser send it -/
  forged : Bool

structure CsrfWorld where
  jar : ℕ → Option String
  /-- the tokens that open pages show -/
  pages : List (ℕ × String)
  /-- the tokens that responses have set -/
  issued : List (ℕ × String)
  /-- the requests that reached the next handler -/
  passed : List CsrfPass

namespace CsrfWorld

def init : CsrfWorld := ⟨fun _ => none, [], [], []⟩

/-- A response arrives; the browser may ignore its cookies. -/
def receive (w : CsrfWorld) (b : ℕ) (keeps : Bool) (cookies : List CsrfCookie) : CsrfWorld :=
  { w with
    jar := if keeps then Function.update w.jar b ((cookies.map (·.value)).getLast?.or (w.jar b))
      else w.jar
    issued := cookies.map (fun c => (b, c.value)) ++ w.issued }

/-- The next handler is called, if the middleware does. -/
def pass (w : CsrfWorld) (b : ℕ) (r : WebRequest) (forged passed : Bool) : CsrfWorld :=
  { w with passed := if passed then ⟨b, r, forged⟩ :: w.passed else w.passed }

end CsrfWorld

/-- The request carries the cookie `jar`, and the token `t` in the header or in
    the form. -/
def WebRequest.Sends (r : WebRequest) (jar : Option String) (t : String) : Prop :=
  r.cookie csrfCookieName = jar ∧
    (r.headerGet csrfHeaderName = t ∧ r.formValue csrfFormField = "" ∨
      r.headerGet csrfHeaderName = "" ∧ r.formValue csrfFormField = t)

instance (r : WebRequest) (jar : Option String) (t : String) : Decidable (r.Sends jar t) :=
  inferInstanceAs (Decidable (_ ∧ _))

inductive CsrfEvent where
  /-- a page of this site is loaded -/
  | page (b : ℕ) (r : WebRequest) (first second : Random)
  /-- a page of this site sends a request with the token `t` that it shows, or
      with that of the cookie -/
  | own (b : ℕ) (t : String) (r : WebRequest) (random : Random)
  /-- another site makes the browser send a request -/
  | cross (b : ℕ) (r : WebRequest) (random : Random) (keeps : Bool)

def CsrfWorld.step (u : Unicode) (w : CsrfWorld) : CsrfEvent → Option CsrfWorld
  | .page b r first second =>
    if r.cookie csrfCookieName = w.jar b ∧ unsafeMethod r.method = false then
      let response := pageTokens u r first second
      some { w.receive b true response.1 with pages := (b, response.2) :: w.pages }
    else none
  | .own b t r random =>
    if r.Sends (w.jar b) t ∧ ((b, t) ∈ w.pages ∨ w.jar b = some t) then
      let outcome := csrfMiddleware u r random
      some ((w.receive b true outcome.1.toList).pass b r false outcome.2)
    else none
  | .cross b r random keeps =>
    if (r.cookie csrfCookieName = none ∨ r.cookie csrfCookieName = w.jar b) ∧
        r.headerGet csrfHeaderName = "" then
      let outcome := csrfMiddleware u r random
      some ((w.receive b keeps outcome.1.toList).pass b r true outcome.2)
    else none

/-! ## What a response sets -/

section
variable {u : Unicode} {w w' : CsrfWorld} {b : ℕ} {r : WebRequest} {random : Random}

/-- A token is empty only if the randomness fails. -/
theorem randomToken_ne_empty (bytes : Vector UInt8 32) : randomToken (some bytes) ≠ "" := by
  refine Base64.encodeRawURL_ne_empty fun h => ?_
  have hlen := congrArg List.length h
  simp at hlen

/-- A cookie with a token is kept. -/
theorem ensureToken_of_token {t : String} (hc : r.cookie csrfCookieName = some t) (ht : t ≠ "") :
    ensureToken u r random = (t, none) := by
  simp [ensureToken, hc, ht]

/-- Without one, a new token is set. -/
theorem ensureToken_of_blank (hc : (r.cookie csrfCookieName).getD "" = "") :
    ensureToken u r random = (randomToken random, some ⟨randomToken random, isSecure u r⟩) := by
  simp [ensureToken, hc]

theorem ensureToken_cookie {c : CsrfCookie} (h : c ∈ (ensureToken u r random).2) :
    c.value = randomToken random := by
  by_cases hc : (r.cookie csrfCookieName).getD "" = ""
  · rw [ensureToken_of_blank hc, Option.mem_some_iff] at h
    rw [← h]
  · simp [ensureToken, hc] at h

theorem csrfMiddleware_cookie {c : CsrfCookie} (h : c ∈ (csrfMiddleware u r random).1) :
    c.value = randomToken random := by
  unfold csrfMiddleware at h
  split_ifs at h
  · cases h
  · exact ensureToken_cookie h
  · exact ensureToken_cookie h

theorem csrfMiddleware_of_token {t : String} (hc : r.cookie csrfCookieName = some t) (ht : t ≠ "") :
    (csrfMiddleware u r random).1 = none := by
  unfold csrfMiddleware
  split_ifs
  · rfl
  · exact congrArg Prod.snd (ensureToken_of_token hc ht)
  · exact congrArg Prod.snd (ensureToken_of_token hc ht)

/-- A request that changes state passes if its token is that of the cookie. -/
theorem csrfMiddleware_passes (hm : unsafeMethod r.method = true) (hp : isAuthPath r.path = false) :
    (csrfMiddleware u r random).2 = validateToken r := by
  simp [csrfMiddleware, hm, hp]

/-- **What `Validate` accepts**: the token of the cookie, in the header or else
    in the form. -/
theorem validateToken_iff : validateToken r = true ↔ ∃ t, t ≠ "" ∧ r.cookie csrfCookieName = some t ∧
    (r.headerGet csrfHeaderName = t ∨ r.headerGet csrfHeaderName = "" ∧ r.formValue csrfFormField = t) := by
  unfold validateToken
  cases hc : r.cookie csrfCookieName with
  | none => simp
  | some want =>
    simp only [Option.some.injEq]
    constructor
    · intro h
      split_ifs at h with hw hh hf
      · exact ⟨want, hw, rfl, .inl (by simpa using h)⟩
      · exact ⟨want, hw, rfl, .inr ⟨not_not.1 hh, by simpa using h⟩⟩
    · rintro ⟨t, ht, rfl, hh | ⟨hh, hf⟩⟩
      · simp [ht, hh]
      · simp [ht, hh, hf]

/-! ## Forged requests -/

/-- The token was drawn for no other browser. -/
def CsrfWorld.Fresh (w : CsrfWorld) (b : ℕ) (random : Random) : Prop :=
  ∀ b', (b', randomToken random) ∈ w.issued → randomToken random ≠ "" → b' = b

/-- Tokens are random, and another site uses no token but those of its own
    browsers, or texts that are no token. -/
def CsrfWorld.Unguessed (hostile : ℕ → Prop) (w : CsrfWorld) : CsrfEvent → Prop
  | .page b _ first second => w.Fresh b first ∧ w.Fresh b second
  | .own b _ _ random => w.Fresh b random
  | .cross b r random _ => w.Fresh b random ∧
    ∀ b', (b', r.formValue csrfFormField) ∈ w.issued → r.formValue csrfFormField ≠ "" → hostile b'

/-- The cookie of a browser was issued to it, and no token to two browsers. -/
structure CsrfWorld.Issued (w : CsrfWorld) : Prop where
  jar : ∀ b v, w.jar b = some v → (b, v) ∈ w.issued
  owner : ∀ b b' v, v ≠ "" → (b, v) ∈ w.issued → (b', v) ∈ w.issued → b = b'

theorem CsrfWorld.Issued.receive (h : w.Issued) (b : ℕ) (keeps : Bool) (cookies : List CsrfCookie)
    (hfresh : ∀ c ∈ cookies, ∀ b', (b', c.value) ∈ w.issued → c.value ≠ "" → b' = b) :
    (w.receive b keeps cookies).Issued := by
  have hnew : ∀ {b' v}, (b', v) ∈ cookies.map (fun c => (b, c.value)) → b' = b ∧
      ∃ c ∈ cookies, c.value = v := by
    intro b' v hm
    obtain ⟨c, hc, heq⟩ := List.mem_map.1 hm
    cases heq
    exact ⟨rfl, c, hc, rfl⟩
  constructor
  · intro b' v hv
    simp only [CsrfWorld.receive, List.mem_append]
    simp only [CsrfWorld.receive] at hv
    by_cases hb : keeps = true ∧ b' = b
    · obtain ⟨rfl, rfl⟩ := hb
      rw [if_pos rfl, Function.update_self] at hv
      cases hl : (cookies.map (·.value)).getLast? with
      | none => exact .inr (h.jar _ _ (by simpa [hl] using hv))
      | some x =>
        rw [hl, Option.some_or, Option.some.injEq] at hv
        obtain ⟨c, hc, rfl⟩ := List.mem_map.1 (List.mem_of_getLast? hl)
        exact .inl (List.mem_map.2 ⟨c, hc, by rw [hv]⟩)
    · refine .inr (h.jar _ _ ?_)
      by_cases hk : keeps = true
      · rwa [if_pos hk, Function.update_of_ne (fun he => hb ⟨hk, he⟩)] at hv
      · rwa [if_neg hk] at hv
  · intro b₁ b₂ v hv h₁ h₂
    simp only [CsrfWorld.receive, List.mem_append] at h₁ h₂
    rcases h₁ with h₁ | h₁ <;> rcases h₂ with h₂ | h₂
    · rw [(hnew h₁).1, (hnew h₂).1]
    · obtain ⟨rfl, c, hc, rfl⟩ := hnew h₁
      exact (hfresh c hc _ h₂ hv).symm
    · obtain ⟨rfl, c, hc, rfl⟩ := hnew h₂
      exact hfresh c hc _ h₁ hv
    · exact h.owner _ _ _ hv h₁ h₂

/-- What a forged request that reached the next handler can have done. -/
def CsrfPass.Harmless (hostile : ℕ → Prop) (p : CsrfPass) : Prop :=
  p.forged = true → hostile p.browser ∨ unsafeMethod p.request.method = false ∨
    isAuthPath p.request.path = true

/-- A forged request with the cookie of a browser that is not hostile does not
    pass: its token would have been issued to a hostile one. -/
theorem forged_harmless {hostile : ℕ → Prop} (h : w.Issued)
    (hc : r.cookie csrfCookieName = none ∨ r.cookie csrfCookieName = w.jar b)
    (hh : r.headerGet csrfHeaderName = "")
    (hknown : ∀ b', (b', r.formValue csrfFormField) ∈ w.issued → r.formValue csrfFormField ≠ "" →
      hostile b')
    (hp : (csrfMiddleware u r random).2 = true) : CsrfPass.Harmless hostile ⟨b, r, true⟩ := by
  intro _
  by_cases hm : unsafeMethod r.method = true
  · by_cases ha : isAuthPath r.path = true
    · exact .inr (.inr ha)
    · rw [csrfMiddleware_passes hm (by simpa using ha), validateToken_iff] at hp
      obtain ⟨t, ht, hct, htok⟩ := hp
      have hf : r.formValue csrfFormField = t := by
        rcases htok with htok | ⟨-, htok⟩
        · exact absurd (htok.symm.trans hh) ht
        · exact htok
      have hjar : w.jar b = some t := by
        rcases hc with hc | hc
        · rw [hc] at hct; cases hct
        · rw [← hc, hct]
      exact .inl (hknown b (hf ▸ h.jar b t hjar) (hf ▸ ht))
  · exact .inr (.inl (by simpa using hm))

theorem issued_step {hostile : ℕ → Prop} {e : CsrfEvent}
    (h : w.Issued ∧ ∀ p ∈ w.passed, p.Harmless hostile) (he : w.Unguessed hostile e)
    (hs : w.step u e = some w') : w'.Issued ∧ ∀ p ∈ w'.passed, p.Harmless hostile := by
  obtain ⟨hi, hp⟩ := h
  have hpass : ∀ {b r forged passed} {v : CsrfWorld}, v.passed = w.passed →
      (passed = true → CsrfPass.Harmless hostile ⟨b, r, forged⟩) →
      ∀ p ∈ (v.pass b r forged passed).passed, p.Harmless hostile := by
    intro b r forged passed v hv hharm p hmem
    unfold CsrfWorld.pass at hmem
    simp only [hv] at hmem
    split_ifs at hmem with hpassed
    · rcases List.mem_cons.1 hmem with rfl | hmem
      · exact hharm hpassed
      · exact hp p hmem
    · exact hp p hmem
  cases e with
  | page b r first second =>
    simp only [CsrfWorld.step] at hs
    split_ifs at hs
    cases hs
    have hr := hi.receive b true (pageTokens u r first second).1 (by
      intro c hc b' hb' hne
      rcases List.mem_append.1 hc with hc | hc
      · rw [csrfMiddleware_cookie (Option.mem_toList.1 hc)] at hb' hne
        exact he.1 b' hb' hne
      · rw [ensureToken_cookie (Option.mem_toList.1 hc)] at hb' hne
        exact he.2 b' hb' hne)
    exact ⟨⟨hr.jar, hr.owner⟩, hp⟩
  | own b t r random =>
    simp only [CsrfWorld.step] at hs
    split_ifs at hs
    cases hs
    have hr := hi.receive b true (csrfMiddleware u r random).1.toList (by
      intro c hc b' hb' hne
      rw [csrfMiddleware_cookie (Option.mem_toList.1 hc)] at hb' hne
      exact he b' hb' hne)
    exact ⟨⟨hr.jar, hr.owner⟩, hpass rfl (fun _ hf => absurd hf (by simp))⟩
  | cross b r random keeps =>
    simp only [CsrfWorld.step] at hs
    split_ifs at hs with hg
    cases hs
    have hr := hi.receive b keeps (csrfMiddleware u r random).1.toList (by
      intro c hc b' hb' hne
      rw [csrfMiddleware_cookie (Option.mem_toList.1 hc)] at hb' hne
      exact he.1 b' hb' hne)
    exact ⟨⟨hr.jar, hr.owner⟩, hpass rfl (forged_harmless hi hg.1 hg.2 he.2)⟩

/-- **No forged request changes anything**: in every run in which tokens are not
    guessed, a request that another site makes a browser send reaches a handler
    only if its method is safe, its path is exempt, or the browser is the other
    site's own. -/
theorem forged_request_stopped (hostile : ℕ → Prop) {es : List CsrfEvent}
    (h : Run (CsrfWorld.step u) (CsrfWorld.Unguessed hostile) .init es w) :
    ∀ p ∈ w.passed, p.forged = true → ¬ hostile p.browser →
      unsafeMethod p.request.method = false ∨ isAuthPath p.request.path = true := by
  have hinv := h.inv (I := fun w => w.Issued ∧ ∀ p ∈ w.passed, p.Harmless hostile)
    (fun _ _ _ hi he hs => issued_step hi he hs) ⟨⟨nofun, nofun⟩, nofun⟩
  intro p hp hforged hnot
  exact (hinv.2 p hp hforged).resolve_left hnot

end

def sampleVisit : WebRequest := ⟨"GET", utf8 "/rules", false, [], [], []⟩

def sampleRandom : Random := some (Vector.replicate 32 7)

/-- Browser 1 has loaded a page. -/
def sampleVisited : CsrfWorld :=
  { CsrfWorld.init.receive 1 true (pageTokens .ascii sampleVisit none sampleRandom).1 with
    pages := [(1, (pageTokens .ascii sampleVisit none sampleRandom).2)] }

theorem sampleVisited_step : CsrfWorld.init.step .ascii (.page 1 sampleVisit none sampleRandom) =
    some sampleVisited := by
  rw [CsrfWorld.step, if_pos ⟨rfl, rfl⟩]
  rfl

/-- A link of another site, which is followed with the cookie. -/
def sampleLink : WebRequest :=
  ⟨"GET", utf8 "/emails", false, [(csrfCookieName, randomToken sampleRandom)], [],
    [(csrfFormField, "guess")]⟩

/-- The response to the link. -/
def sampleForged : CsrfWorld :=
  (sampleVisited.receive 1 true (csrfMiddleware .ascii sampleLink none).1.toList).pass 1
    sampleLink true (csrfMiddleware .ascii sampleLink none).2

/-- A form of another site, with a token that is guessed. -/
def sampleForgedForm : WebRequest :=
  { sampleLink with method := "POST", path := utf8 "/emails/delete-all" }

/-- The response to the form. -/
def sampleStopped : CsrfWorld :=
  (sampleForged.receive 1 true (csrfMiddleware .ascii sampleForgedForm none).1.toList).pass 1
    sampleForgedForm true (csrfMiddleware .ascii sampleForgedForm none).2

/-- The link is followed, and the form is stopped. -/
theorem forged_request_stopped_sample : ∃ w,
    Run (CsrfWorld.step .ascii) (CsrfWorld.Unguessed (2 = ·)) .init
      [.page 1 sampleVisit none sampleRandom, .cross 1 sampleLink none true,
        .cross 1 sampleForgedForm none true] w ∧
    w.passed = [⟨1, sampleLink, true⟩] ∧ ∀ p ∈ w.passed, p.forged = true → ¬ 2 = p.browser →
      unsafeMethod p.request.method = false ∨ isAuthPath p.request.path = true := by
  have hvisited : ∀ p ∈ sampleVisited.issued, p.2 ≠ "guess" := by decide +kernel
  have hforged : ∀ p ∈ sampleForged.issued, p.2 ≠ "guess" := by decide +kernel
  have hcross : sampleVisited.step .ascii (.cross 1 sampleLink none true) = some sampleForged := by
    rw [CsrfWorld.step, if_pos (by decide +kernel)]
    rfl
  have hpost : sampleForged.step .ascii (.cross 1 sampleForgedForm none true) = some sampleStopped := by
    rw [CsrfWorld.step, if_pos (by decide +kernel)]
    rfl
  have hfresh : CsrfWorld.init.Unguessed (2 = ·) (.page 1 sampleVisit none sampleRandom) :=
    ⟨nofun, nofun⟩
  have hlink : sampleVisited.Unguessed (2 = ·) (.cross 1 sampleLink none true) :=
    ⟨fun _ _ h => absurd rfl h, fun _ hmem _ => absurd rfl (hvisited _ hmem)⟩
  have hform : sampleForged.Unguessed (2 = ·) (.cross 1 sampleForgedForm none true) :=
    ⟨fun _ _ h => absurd rfl h, fun _ hmem _ => absurd rfl (hforged _ hmem)⟩
  have hsafe : (csrfMiddleware .ascii sampleLink none).2 = true := by decide +kernel
  have hunsafe : (csrfMiddleware .ascii sampleForgedForm none).2 = false := by decide +kernel
  have hpassed : sampleStopped.passed = [⟨1, sampleLink, true⟩] := by
    simp [sampleStopped, sampleForged, sampleVisited, CsrfWorld.pass, CsrfWorld.receive,
      CsrfWorld.init, hsafe, hunsafe]
  have hrun := Run.cons hfresh sampleVisited_step (.cons hlink hcross (.cons hform hpost .nil))
  exact ⟨sampleStopped, hrun, hpassed, forged_request_stopped (2 = ·) hrun⟩

/-! ## Requests of the site's own pages -/

section
variable {u : Unicode} {w w' : CsrfWorld} {b : ℕ} {r : WebRequest} {random : Random}

/-- No response to a request without the cookie is mixed in: a request that
    another site causes carries it, or its response sets none. -/
def CsrfWorld.Sticky (w : CsrfWorld) : CsrfEvent → Prop
  | .cross b r _ keeps => r.cookie csrfCookieName = w.jar b ∨ keeps = false
  | _ => True

/-- The tokens that pages show are those of the cookie. -/
def CsrfWorld.InStep (w : CsrfWorld) : Prop :=
  ∀ b t, (b, t) ∈ w.pages → t ≠ "" → w.jar b = some t

/-- The cookie of a browser changes only if it has no token. -/
theorem receive_jar (hc : r.cookie csrfCookieName = w.jar b) {b' : ℕ} {t : String} (ht : t ≠ "")
    (hjar : w.jar b' = some t) (keeps : Bool) :
    (w.receive b keeps (csrfMiddleware u r random).1.toList).jar b' = some t := by
  unfold CsrfWorld.receive
  cases keeps with
  | false => exact hjar
  | true =>
    by_cases hb : b' = b
    · subst hb
      rw [hjar] at hc
      simp [csrfMiddleware_of_token hc ht, hjar]
    · simp [Function.update_of_ne hb, hjar]

theorem inStep_step {e : CsrfEvent} (h : w.InStep) (he : w.Sticky e) (hs : w.step u e = some w') :
    w'.InStep := by
  cases e with
  | page b r first second =>
    simp only [CsrfWorld.step] at hs
    split_ifs at hs with hg
    cases hs
    obtain ⟨hc, -⟩ := hg
    intro b' t hmem ht
    cases hv : (r.cookie csrfCookieName).getD "" == "" with
    | false =>
      -- the cookie has a token: no new one is set
      obtain ⟨v, hcv, hne⟩ : ∃ v, r.cookie csrfCookieName = some v ∧ v ≠ "" := by
        cases hr : r.cookie csrfCookieName with
        | none => simp [hr] at hv
        | some v => exact ⟨v, rfl, by simpa [hr] using hv⟩
      have hpage : pageTokens u r first second = ([], v) := by
        simp [pageTokens, csrfMiddleware_of_token hcv hne, ensureToken_of_token hcv hne]
      have hjar : (w.receive b true []).jar = w.jar := by
        simp [CsrfWorld.receive]
      rw [hpage] at hmem ⊢
      show (w.receive b true []).jar b' = some t
      rw [hjar]
      rcases List.mem_cons.1 hmem with heq | hmem
      · cases heq
        rw [← hc, hcv]
      · exact h b' t hmem ht
    | true =>
      -- no page shows a token yet; this one shows the last that is set
      have hblank : (r.cookie csrfCookieName).getD "" = "" := by simpa using hv
      have hlast : ((pageTokens u r first second).1.map (·.value)).getLast? =
          some (randomToken second) := by
        simp [pageTokens, ensureToken_of_blank hblank]
      have hshown : (pageTokens u r first second).2 = randomToken second := by
        simp [pageTokens, ensureToken_of_blank hblank]
      simp only [CsrfWorld.receive, if_pos, hlast, Option.some_or] at hmem ⊢
      rw [hshown] at hmem
      rcases List.mem_cons.1 hmem with heq | hmem
      · cases heq
        exact Function.update_self ..
      · have hold := h b' t hmem ht
        have hb : b' ≠ b := by
          rintro rfl
          rw [hc, hold] at hblank
          exact ht hblank
        rw [Function.update_of_ne hb, hold]
  | own b s r random =>
    simp only [CsrfWorld.step] at hs
    split_ifs at hs with hg
    cases hs
    intro b' t hmem ht
    exact receive_jar hg.1.1 ht (h b' t hmem ht) true
  | cross b r random keeps =>
    simp only [CsrfWorld.step] at hs
    split_ifs at hs with hg
    cases hs
    intro b' t hmem ht
    rcases he with he | rfl
    · exact receive_jar he ht (h b' t hmem ht) keeps
    · exact h b' t hmem ht

/-- **Requests of own pages pass**: in every run of page loads one after the
    other, without responses to requests that lack the cookie, a request that
    changes state, sent by a page with the token that the page shows, passes iff
    the page shows one. -/
theorem own_request_passes_iff {es : List CsrfEvent}
    (h : Run (CsrfWorld.step u) CsrfWorld.Sticky .init es w) {t : String} (hpage : (b, t) ∈ w.pages)
    (hsends : r.Sends (w.jar b) t) (hm : unsafeMethod r.method = true)
    (hp : isAuthPath r.path = false) (random : Random) :
    (csrfMiddleware u r random).2 = true ↔ t ≠ "" := by
  have hstep : w.InStep := h.inv (I := CsrfWorld.InStep)
    (fun _ _ _ hi he hs => inStep_step hi he hs) nofun
  obtain ⟨hc, htok⟩ := hsends
  rw [csrfMiddleware_passes hm hp, validateToken_iff]
  constructor
  · rintro ⟨v, hv, -, hsent⟩ rfl
    rcases htok with ⟨hh, hf⟩ | ⟨hh, hf⟩ <;> rcases hsent with hs | ⟨-, hs⟩
    · exact hv (hs.symm.trans hh)
    · exact hv (hs.symm.trans hf)
    · exact hv (hs.symm.trans hh)
    · exact hv (hs.symm.trans hf)
  · intro ht
    refine ⟨t, ht, hc.trans (hstep b t hpage ht), ?_⟩
    rcases htok with ⟨hh, -⟩ | ⟨hh, hf⟩
    · exact .inl hh
    · exact .inr ⟨hh, hf⟩

end

/-- A form of the page. -/
def samplePost : WebRequest :=
  ⟨"POST", utf8 "/settings", false, [(csrfCookieName, randomToken sampleRandom)], [],
    [(csrfFormField, randomToken sampleRandom)]⟩

theorem own_request_passes_sample :
    (csrfMiddleware .ascii samplePost none).2 = true ↔ randomToken sampleRandom ≠ "" :=
  have hrun : Run (CsrfWorld.step .ascii) CsrfWorld.Sticky .init
      [.page 1 sampleVisit none sampleRandom] sampleVisited := .cons trivial sampleVisited_step .nil
  own_request_passes_iff (b := 1) hrun List.mem_cons_self (by decide +kernel) rfl (by decide +kernel) none

end Mailrelay
