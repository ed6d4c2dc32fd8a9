/-
  One request (`send`, `setSigningHeaders` and `do` in
  `internal/webhook/dispatcher.go`).

  An `HttpLib` collects what comes from `net/http`, `net/url` and `crypto`.
  The network is the sequence of replies to the requests that one `send`
  performs.  Redirects follow `http.Client`: at most ten requests; 301, 302 and
  303 drop the body, and the method unless it is GET or HEAD; 307 and 308 keep
  both.  A signed request is not redirected.

  * `signed_headers`, `unsigned_headers`: the headers of a request;
  * `success_is_accepted_iff`: when a successful `send` delivered the payload.
-/
import Mailrelay.Lib.Mail
import Mailrelay.Webhook.Dispatcher

namespace Mailrelay

open Lib

/-! ## Requests -/

/-- `http.Header`, of fields with one value each. -/
abbrev HttpHeader := List (String × String)

/-- `Header.Set` -/
def setHeader (key value : String) (h : HttpHeader) : HttpHeader :=
  h.filter (fun f => f.1 ≠ canonicalKey key) ++ [(canonicalKey key, value)]

structure HttpRequest where
  method : String
  url : String
  header : HttpHeader
  body : String
  deriving DecidableEq, Repr

structure HttpResponse where
  statusCode : ℤ
  location : String
  /-- a character for each byte -/
  body : String
  deriving DecidableEq, Repr

/-- The response to a request, or the error of the transport. -/
abbrev Reply := Except SendError HttpResponse

structure HttpLib where
  /-- `http.NewRequest` -/
  newRequest : String → String → Except String Unit
  /-- `url.Parse` of a `Location` -/
  parseRef : String → Except String Unit
  /-- `ResolveReference` -/
  resolve : String → String → String
  /-- the header of a redirect to a URL, after a first and a previous request -/
  copyHeaders : HttpRequest → HttpRequest → String → HttpHeader
  /-- the text of a `url.Error` about a request -/
  urlError : HttpRequest → String → String
  /-- HMAC-SHA256 of a message under a key, in hex -/
  hmac : String → String → String
  uuid : Uuid → String
  userAgent : String

section
variable (lib : HttpLib)

/-- `setSigningHeaders`, at a time in Unix seconds. -/
def setSigningHeaders (payload secret deliveryId : String) (unix : ℤ) (h : HttpHeader) : HttpHeader :=
  if secret = "" then h
  else
    let timestamp := toString unix
    let mac := lib.hmac secret (timestamp ++ "." ++ payload)
    setHeader "X-Mailrelay-Delivery" deliveryId
      (setHeader "X-Mailrelay-Signature" ("sha256=" ++ mac)
        (setHeader "X-Mailrelay-Timestamp" timestamp h))

/-- The header before it is signed. -/
def customHeader (wh : WebhookConfig) : HttpHeader :=
  let h := wh.headers.foldl (fun h f => setHeader f.1 f.2 h) (setHeader "User-Agent" lib.userAgent [])
  if wh.headers.any fun f => canonicalKey f.1 = "Content-Type" then h
  else setHeader "Content-Type" "application/json" h

def effectiveMethod (wh : WebhookConfig) : String := if wh.method = "" then "POST" else wh.method

/-- The request that `send` makes. -/
def buildRequest (rule : Rule) (payload : String) (deliveryId : Uuid) (unix : ℤ) :
    Except SendError HttpRequest :=
  match lib.newRequest (effectiveMethod rule.webhook) rule.webhook.url with
  | .error e => .error (.other ("creating request: " ++ e))
  | .ok () => .ok {
      method := effectiveMethod rule.webhook
      url := rule.webhook.url
      header := setSigningHeaders lib payload rule.webhook.signingSecret (lib.uuid deliveryId) unix
        (customHeader lib rule.webhook)
      body := payload }

/-! ## Redirects -/

/-- `redirectBehavior`: the method of the next request, and whether it has the
    body. -/
def redirectBehavior (method : String) (statusCode : ℤ) : Option (String × Bool) :=
  if statusCode = 301 ∨ statusCode = 302 ∨ statusCode = 303 then
    some (if method ≠ "GET" ∧ method ≠ "HEAD" then "GET" else method, false)
  else if statusCode = 307 ∨ statusCode = 308 then some (method, true)
  else none

/-- The requests that a call of the client makes, and what it returns. -/
structure Exchange (α : Type) where
  requests : List HttpRequest
  outcome : Except SendError α

/-- The request that follows a response, if any.  With `useLast`,
    `CheckRedirect` returns `ErrUseLastResponse`. -/
def redirect (useLast : Bool) (first req : HttpRequest) (resp : HttpResponse) :
    Except SendError (Option HttpRequest) :=
  match redirectBehavior req.method resp.statusCode with
  | none => .ok none
  | some (method, includeBody) =>
    if resp.location = "" then .ok none
    else
      match lib.parseRef resp.location with
      | .error e => .error (.other (lib.urlError req e))
      | .ok () =>
        if useLast then .ok none
        else
          let url := lib.resolve req.url resp.location
          .ok (some ⟨method, url, lib.copyHeaders first req url, if includeBody then req.body else ""⟩)

/-- `Client.Do`, from request number `i` on, with `left` more requests allowed. -/
def clientDo (useLast : Bool) (first : HttpRequest) (replies : ℕ → Reply) (left i : ℕ) (req : HttpRequest) :
    Exchange HttpResponse :=
  match replies i with
  | .error e => ⟨[req], .error e⟩
  | .ok resp =>
    match redirect lib useLast first req resp, left with
    | .error e, _ => ⟨[req], .error e⟩
    | .ok none, _ => ⟨[req], .ok resp⟩
    | .ok (some _), 0 => ⟨[req], .error (.other (lib.urlError req "stopped after 10 redirects"))⟩
    | .ok (some next), left + 1 =>
      ⟨req :: (clientDo useLast first replies left (i + 1) next).requests,
        (clientDo useLast first replies left (i + 1) next).outcome⟩

/-- `Dispatcher.do` -/
def dispatcherDo (replies : ℕ → Reply) (req : HttpRequest) (signed : Bool) : Exchange HttpResponse :=
  clientDo lib signed req replies 9 0 req

/-- `fmt.Errorf("sending request: %w", err)` -/
def SendError.sending : SendError → SendError
  | webhook statusCode responseBody => webhook statusCode responseBody
  | privateAddress text => privateAddress ("sending request: " ++ text)
  | timeout text => timeout ("sending request: " ++ text)
  | other text => other ("sending request: " ++ text)

/-- `send`; the body of a response is read up to 64 KiB, which may end within
    a character that it encodes. -/
def send (rule : Rule) (payload : String) (deliveryId : Uuid) (unix : ℤ) (replies : ℕ → Reply) :
    Exchange String :=
  match buildRequest lib rule payload deliveryId unix with
  | .error e => ⟨[], .error e⟩
  | .ok req =>
    let x := dispatcherDo lib replies req (decide (rule.webhook.signingSecret ≠ ""))
    ⟨x.requests,
      match x.outcome with
      | .error e => .error e.sending
      | .ok resp =>
        let body := String.ofList (resp.body.toList.take (64 * 1024))
        if 200 ≤ resp.statusCode ∧ resp.statusCode < 300 then .ok body
        else .error (.webhook resp.statusCode body)⟩

/-! ## What a request carries -/

theorem buildRequest_ok {rule : Rule} {payload : String} {deliveryId : Uuid} {unix : ℤ}
    {req : HttpRequest} (h : buildRequest lib rule payload deliveryId unix = .ok req) :
    req.method = effectiveMethod rule.webhook ∧ req.body = payload ∧
      req.header = setSigningHeaders lib payload rule.webhook.signingSecret (lib.uuid deliveryId) unix
        (customHeader lib rule.webhook) := by
  unfold buildRequest at h
  split at h
  · cases h
  · cases h
    exact ⟨rfl, rfl, rfl⟩

/-- `200 <= resp.StatusCode && resp.StatusCode < 300` -/
def HttpResponse.Success (resp : HttpResponse) : Prop :=
  200 ≤ resp.statusCode ∧ resp.statusCode < 300

instance (resp : HttpResponse) : Decidable resp.Success := inferInstanceAs (Decidable (_ ∧ _))

/-- A redirect whose target can be requested. -/
def Followed (reply : Reply) : Prop :=
  ∃ resp, reply = .ok resp ∧ resp.statusCode ∈ [301, 302, 303, 307, 308] ∧
    resp.location ≠ "" ∧ lib.parseRef resp.location = .ok ()

/-- A redirect after which the body is gone. -/
def DropsBody (reply : Reply) : Prop := ∃ resp, reply = .ok resp ∧ resp.statusCode ∈ [301, 302, 303]

/-- The method after a redirect that drops the body. -/
def bodylessMethod (method : String) : String :=
  if method ≠ "GET" ∧ method ≠ "HEAD" then "GET" else method

@[simp] theorem bodylessMethod_idem (method : String) :
    bodylessMethod (bodylessMethod method) = bodylessMethod method := by
  unfold bodylessMethod
  split <;> simp_all

theorem bodylessMethod_eq_iff {method : String} :
    bodylessMethod method = method ↔ method = "GET" ∨ method = "HEAD" := by
  unfold bodylessMethod
  split <;> grind

theorem redirectBehavior_drops (method : String) {c : ℤ} (h : c ∈ [301, 302, 303]) :
    redirectBehavior method c = some (bodylessMethod method, false) := by
  simp only [List.mem_cons, List.not_mem_nil, or_false] at h
  unfold redirectBehavior bodylessMethod
  rw [if_pos h]

theorem redirectBehavior_keeps (method : String) {c : ℤ} (h : c ∈ [301, 302, 303, 307, 308])
    (hd : c ∉ [301, 302, 303]) : redirectBehavior method c = some (method, true) := by
  simp only [List.mem_cons, List.not_mem_nil, or_false] at h hd
  unfold redirectBehavior
  rw [if_neg hd, if_pos (by tauto)]

theorem redirectBehavior_none (method : String) {c : ℤ} (h : c ∉ [301, 302, 303, 307, 308]) :
    redirectBehavior method c = none := by
  simp only [List.mem_cons, List.not_mem_nil, or_false] at h
  unfold redirectBehavior
  rw [if_neg (by tauto), if_neg (by tauto)]

theorem HttpResponse.Success.not_redirect {resp : HttpResponse} (h : resp.Success) :
    resp.statusCode ∉ [301, 302, 303, 307, 308] := by
  simp only [HttpResponse.Success, List.mem_cons, List.not_mem_nil, or_false] at *
  omega

/-- What `next` has of the method and the body of `req`, when it is reached by
    redirects. -/
structure CarriesOver (dropped : Prop) (req next : HttpRequest) : Prop where
  method : next.method = open Classical in if dropped then bodylessMethod req.method else req.method
  body : next.body = open Classical in if dropped then "" else req.body

theorem CarriesOver.refl (req : HttpRequest) {d : Prop} (h : ¬ d) : CarriesOver d req req :=
  ⟨by rw [if_neg h], by rw [if_neg h]⟩

theorem CarriesOver.trans {d e f : Prop} {a b c : HttpRequest} (hab : CarriesOver d a b)
    (hbc : CarriesOver e b c)
    (hf : f ↔ d ∨ e) : CarriesOver f a c := by
  refine ⟨?_, ?_⟩
  · rw [hbc.method, hab.method]
    by_cases hd : d <;> by_cases he : e <;> simp [hf, hd, he]
  · rw [hbc.body, hab.body]
    by_cases hd : d <;> by_cases he : e <;> simp [hf, hd, he]

variable {lib}

theorem redirect_success {first req : HttpRequest} {resp : HttpResponse} (useLast : Bool)
    (hs : resp.Success) : redirect lib useLast first req resp = .ok none := by
  unfold redirect
  rw [redirectBehavior_none req.method hs.not_redirect]

/-- With `useLast` no request follows. -/
theorem redirect_useLast (first req : HttpRequest) (resp : HttpResponse) (next : HttpRequest) :
    redirect lib true first req resp ≠ .ok (some next) := by
  unfold redirect
  split
  · simp
  · split
    · simp
    · split <;> simp

theorem redirect_followed {resp : HttpResponse} (first req : HttpRequest) (h : Followed lib (.ok resp)) :
    ∃ next, redirect lib false first req resp = .ok (some next) ∧
      CarriesOver (DropsBody (.ok resp)) req next := by
  obtain ⟨_, ⟨⟩, hc, hl, hp⟩ := h
  unfold redirect
  by_cases hd : resp.statusCode ∈ [301, 302, 303]
  · have hb : DropsBody (.ok resp) := ⟨resp, rfl, hd⟩
    refine ⟨_, by simp [redirectBehavior_drops req.method hd, hl, hp]; rfl, ?_, ?_⟩
    · rw [if_pos hb]
    · rw [if_pos hb]
  · have hb : ¬ DropsBody (.ok resp) := by
      rintro ⟨_, ⟨⟩, hd'⟩
      exact hd hd'
    refine ⟨_, by simp [redirectBehavior_keeps req.method hc hd, hl, hp]; rfl, ?_, ?_⟩
    · rw [if_neg hb]
    · rw [if_neg hb]

theorem followed_of_redirect {first req next : HttpRequest} {resp : HttpResponse} {useLast : Bool}
    (h : redirect lib useLast first req resp = .ok (some next)) : Followed lib (.ok resp) := by
  by_cases hc : resp.statusCode ∈ [301, 302, 303, 307, 308]
  · unfold redirect at h
    split at h
    · simp at h
    · split at h
      · simp at h
      · rename_i hl
        split at h
        · simp at h
        · rename_i hp
          exact ⟨resp, rfl, hc, hl, hp⟩
  · unfold redirect at h
    rw [redirectBehavior_none req.method hc] at h
    simp at h

theorem not_followed_of_success {reply : Reply} {resp : HttpResponse} (h : reply = .ok resp)
    (hs : resp.Success) : ¬ Followed lib reply := by
  rintro ⟨resp', h', hc, -⟩
  rw [h] at h'
  cases h'
  exact hs.not_redirect hc

theorem clientDo_success {replies : ℕ → Reply} {left i : ℕ} {first req : HttpRequest} {resp : HttpResponse}
    (useLast : Bool) (hr : replies i = .ok resp) (hs : resp.Success) :
    clientDo lib useLast first replies left i req = ⟨[req], .ok resp⟩ := by
  unfold clientDo
  simp only [hr, redirect_success useLast hs]

/-- A chain of redirects that ends in a success. -/
structure Chain (lib : HttpLib) (replies : ℕ → Reply) (i k : ℕ) (resp : HttpResponse) : Prop where
  followed : ∀ j < k, Followed lib (replies (i + j))
  last : replies (i + k) = .ok resp
  success : resp.Success

theorem Chain.tail {replies : ℕ → Reply} {i k : ℕ} {resp : HttpResponse}
    (h : Chain lib replies i (k + 1) resp) : Chain lib replies (i + 1) k resp where
  followed j hj := by
    have := h.followed (j + 1) (by omega)
    rwa [show i + 1 + j = i + (j + 1) by omega]
  last := by rw [← h.last, show i + 1 + k = i + (k + 1) by omega]
  success := h.success

theorem Chain.cons {replies : ℕ → Reply} {i k : ℕ} {resp : HttpResponse}
    (hf : Followed lib (replies i)) (h : Chain lib replies (i + 1) k resp) :
    Chain lib replies i (k + 1) resp where
  followed j hj := by
    cases j with
    | zero => exact hf
    | succ j =>
      rw [show i + (j + 1) = i + 1 + j by omega]
      exact h.followed j (by omega)
  last := by rw [← h.last, show i + 1 + k = i + (k + 1) by omega]
  success := h.success

theorem exists_lt_succ_dropsBody {replies : ℕ → Reply} {i k : ℕ} :
    (∃ j < k + 1, DropsBody (replies (i + j))) ↔
      DropsBody (replies i) ∨ ∃ j < k, DropsBody (replies (i + 1 + j)) := by
  constructor
  · rintro ⟨j, hj, hd⟩
    cases j with
    | zero => exact .inl hd
    | succ j => exact .inr ⟨j, by omega, by rwa [show i + 1 + j = i + (j + 1) by omega]⟩
  · rintro (hd | ⟨j, hj, hd⟩)
    · exact ⟨0, by omega, hd⟩
    · exact ⟨j + 1, by omega, by rwa [show i + (j + 1) = i + 1 + j by omega]⟩

/-- **A chain that is short enough is followed to its end.** -/
theorem clientDo_chain {replies : ℕ → Reply} {left i k : ℕ} (first req : HttpRequest)
    {resp : HttpResponse} (h : Chain lib replies i k resp) (hk : k ≤ left) :
    (clientDo lib false first replies left i req).outcome = .ok resp ∧
      (clientDo lib false first replies left i req).requests.length = k + 1 ∧
        ∃ last, (clientDo lib false first replies left i req).requests[k]? = some last ∧
          CarriesOver (∃ j < k, DropsBody (replies (i + j))) req last := by
  induction k generalizing left i req with
  | zero =>
    rw [clientDo_success false (i := i) h.last h.success]
    exact ⟨rfl, rfl, req, rfl, CarriesOver.refl req (by simp)⟩
  | succ k ih =>
    obtain ⟨left, rfl⟩ : ∃ n, left = n + 1 := ⟨left - 1, by omega⟩
    have hf := h.followed 0 (by omega)
    obtain ⟨r, hr, -⟩ := id hf
    rw [hr] at hf
    obtain ⟨next, hnext, hcarries⟩ := redirect_followed first req hf
    rw [← hr] at hcarries
    obtain ⟨ho, hl, last, hlast, hc⟩ := ih next h.tail (show k ≤ left by omega)
    have heq : clientDo lib false first replies (left + 1) i req =
        ⟨req :: (clientDo lib false first replies left (i + 1) next).requests,
          (clientDo lib false first replies left (i + 1) next).outcome⟩ := by
      rw [clientDo]
      simp only [show replies i = .ok r from hr, hnext]
    rw [heq]
    refine ⟨ho, by simp [hl], last, by simpa using hlast, ?_⟩
    exact hcarries.trans hc exists_lt_succ_dropsBody

theorem chain_of_clientDo {replies : ℕ → Reply} {left i : ℕ} {first req : HttpRequest} {resp : HttpResponse}
    {useLast : Bool} (h : (clientDo lib useLast first replies left i req).outcome = .ok resp)
    (hs : resp.Success) : ∃ k ≤ left, Chain lib replies i k resp ∧ (useLast → k = 0) := by
  fun_induction clientDo lib useLast first replies left i req with
  | case1 => simp at h
  | case2 => simp at h
  | case3 left i req r hr hnext =>
    simp only [Except.ok.injEq] at h
    subst h
    exact ⟨0, by omega, ⟨by simp, hr, hs⟩, fun _ => rfl⟩
  | case4 => simp at h
  | case5 i req r hr next left hnext ih =>
    obtain ⟨k, hk, hchain, -⟩ := ih h
    refine ⟨k + 1, by omega, .cons (hr ▸ followed_of_redirect hnext) hchain, ?_⟩
    rintro rfl
    exact absurd hnext (redirect_useLast first req r next)

/-! ## A success is a delivery -/

/-- **A success came for a request with the rule's method and the payload.** -/
def Accepted (wh : WebhookConfig) (payload : String) (replies : ℕ → Reply) (x : Exchange String) :
    Prop :=
  ∃ i req resp, x.requests[i]? = some req ∧ replies i = .ok resp ∧ resp.Success ∧
    req.method = effectiveMethod wh ∧ req.body = payload

/-- The replies redirect to a success, within the limit, and the body is lost on
    the way. -/
def LosesBody (lib : HttpLib) (replies : ℕ → Reply) : Prop :=
  ∃ k ≤ 9, ∃ resp, Chain lib replies 0 k resp ∧ ∃ j < k, DropsBody (replies j)

theorem send_ok_iff {rule : Rule} {payload : String} {deliveryId : Uuid} {unix : ℤ}
    (replies : ℕ → Reply) {req : HttpRequest}
    (hreq : buildRequest lib rule payload deliveryId unix = .ok req) :
    (∃ body, (send lib rule payload deliveryId unix replies).outcome = .ok body) ↔
      ∃ resp, resp.Success ∧
        (dispatcherDo lib replies req (decide (rule.webhook.signingSecret ≠ ""))).outcome = .ok resp := by
  unfold send
  rw [hreq]
  dsimp only
  cases (dispatcherDo lib replies req (decide (rule.webhook.signingSecret ≠ ""))).outcome with
  | error e => simp
  | ok resp =>
    by_cases hs : 200 ≤ resp.statusCode ∧ resp.statusCode < 300
    · simp [hs, HttpResponse.Success]
    · simp only [hs, HttpResponse.Success, if_false]
      grind

theorem send_requests {rule : Rule} {payload : String} {deliveryId : Uuid} {unix : ℤ}
    {replies : ℕ → Reply} {req : HttpRequest}
    (hreq : buildRequest lib rule payload deliveryId unix = .ok req) :
    (send lib rule payload deliveryId unix replies).requests =
      (dispatcherDo lib replies req (decide (rule.webhook.signingSecret ≠ ""))).requests := by
  unfold send
  rw [hreq]

/-- Of the requests along a chain only the last one has a success. -/
theorem Chain.eq_of_success {replies : ℕ → Reply} {k j : ℕ} {resp r : HttpResponse}
    (h : Chain lib replies 0 k resp) (hj : j ≤ k) (hr : replies j = .ok r) (hs : r.Success) : j = k := by
  by_contra hne
  have hf := h.followed j (by omega)
  rw [Nat.zero_add] at hf
  exact not_followed_of_success hr hs hf

/-- The end of a chain accepted the payload, unless the body was lost. -/
theorem accepted_of_chain {rule : Rule} {payload : String} {deliveryId : Uuid} {unix : ℤ}
    {replies : ℕ → Reply} {req : HttpRequest} {k : ℕ} {resp : HttpResponse}
    (hreq : buildRequest lib rule payload deliveryId unix = .ok req)
    (hsigned : rule.webhook.signingSecret = "") (h : Chain lib replies 0 k resp) (hk : k ≤ 9) :
    Accepted rule.webhook payload replies (send lib rule payload deliveryId unix replies) ↔
      ((∃ j < k, DropsBody (replies j)) →
        payload = "" ∧ (effectiveMethod rule.webhook = "GET" ∨ effectiveMethod rule.webhook = "HEAD")) := by
  obtain ⟨hmethod, hbody, -⟩ := buildRequest_ok lib hreq
  obtain ⟨-, hlen, last, hlast, hc⟩ := clientDo_chain req req h hk
  have hrequests : (send lib rule payload deliveryId unix replies).requests =
      (clientDo lib false req replies 9 0 req).requests := by
    rw [send_requests hreq, hsigned]
    rfl
  simp only [Nat.zero_add] at hc
  constructor
  · rintro ⟨i, r, resp', hi, hr, hs, hm, hb⟩ hdrop
    rw [hrequests] at hi
    have hik : i = k := by
      have := (List.getElem?_eq_some_iff.1 hi).1
      exact h.eq_of_success (by omega) hr hs
    subst hik
    obtain rfl : last = r := Option.some.inj (hlast.symm.trans hi)
    have hm' := hc.method
    have hb' := hc.body
    rw [if_pos hdrop] at hm' hb'
    rw [hmethod, hm] at hm'
    exact ⟨hb.symm.trans hb', bodylessMethod_eq_iff.1 hm'.symm⟩
  · intro hlost
    refine ⟨k, last, resp, by rw [hrequests, hlast], by simpa using h.last, h.success, ?_, ?_⟩
    · rw [hc.method, hmethod]
      split
      · rename_i hdrop
        exact bodylessMethod_eq_iff.2 (hlost hdrop).2
      · rfl
    · rw [hc.body, hbody]
      split
      · rename_i hdrop
        exact (hlost hdrop).1.symm
      · rfl

/-- Without a secret, redirects are followed. -/
theorem accepted_unsigned_iff {rule : Rule} {payload : String} {deliveryId : Uuid} {unix : ℤ}
    {replies : ℕ → Reply} {req : HttpRequest}
    (hreq : buildRequest lib rule payload deliveryId unix = .ok req)
    (hsigned : rule.webhook.signingSecret = "") :
    ((∃ body, (send lib rule payload deliveryId unix replies).outcome = .ok body) →
        Accepted rule.webhook payload replies (send lib rule payload deliveryId unix replies)) ↔
      ¬ LosesBody lib replies ∨
        payload = "" ∧ (effectiveMethod rule.webhook = "GET" ∨ effectiveMethod rule.webhook = "HEAD") := by
  have hdo : dispatcherDo lib replies req (decide (rule.webhook.signingSecret ≠ "")) =
      clientDo lib false req replies 9 0 req := by
    rw [hsigned]
    rfl
  rw [send_ok_iff replies hreq, hdo]
  constructor
  · intro h
    by_contra hcon
    simp only [not_or, not_not] at hcon
    obtain ⟨⟨k, hk, resp, hchain, hdrop⟩, hlost⟩ := hcon
    have hout := (clientDo_chain req req hchain hk).1
    exact hlost ((accepted_of_chain hreq hsigned hchain hk).1 (h ⟨resp, hchain.success, hout⟩) hdrop)
  · rintro hcond ⟨resp, hs, hout⟩
    obtain ⟨k, hk, hchain, -⟩ := chain_of_clientDo hout hs
    refine (accepted_of_chain hreq hsigned hchain hk).2 fun hdrop => ?_
    exact hcond.resolve_left (not_not.2 ⟨k, hk, resp, hchain, hdrop⟩)

/-- With a secret, the only request is the one that was built. -/
theorem accepted_of_signed {rule : Rule} {payload : String} {deliveryId : Uuid} {unix : ℤ}
    {replies : ℕ → Reply} {req : HttpRequest}
    (hreq : buildRequest lib rule payload deliveryId unix = .ok req)
    (hsigned : rule.webhook.signingSecret ≠ "")
    (h : ∃ body, (send lib rule payload deliveryId unix replies).outcome = .ok body) :
    Accepted rule.webhook payload replies (send lib rule payload deliveryId unix replies) := by
  have hdo : dispatcherDo lib replies req (decide (rule.webhook.signingSecret ≠ "")) =
      clientDo lib true req replies 9 0 req := by
    simp [hsigned, dispatcherDo]
  rw [send_ok_iff replies hreq, hdo] at h
  obtain ⟨resp, hs, hout⟩ := h
  obtain ⟨k, -, hchain, hzero⟩ := chain_of_clientDo hout hs
  obtain rfl := hzero rfl
  obtain ⟨hmethod, hbody, -⟩ := buildRequest_ok lib hreq
  refine ⟨0, req, resp, ?_, hchain.last, hs, hmethod, hbody⟩
  rw [send_requests hreq, hdo, clientDo_success true (i := 0) hchain.last hs]
  rfl

theorem success_is_accepted_iff (rule : Rule) (payload : String) (deliveryId : Uuid) (unix : ℤ)
    (replies : ℕ → Reply) :
    (∀ body, (send lib rule payload deliveryId unix replies).outcome = .ok body →
        Accepted rule.webhook payload replies (send lib rule payload deliveryId unix replies)) ↔
      (∃ e, lib.newRequest (effectiveMethod rule.webhook) rule.webhook.url = .error e) ∨
        rule.webhook.signingSecret ≠ "" ∨ ¬ LosesBody lib replies ∨
          payload = "" ∧ (effectiveMethod rule.webhook = "GET" ∨
            effectiveMethod rule.webhook = "HEAD") := by
  cases hn : lib.newRequest (effectiveMethod rule.webhook) rule.webhook.url with
  | error e =>
    have hsend : (send lib rule payload deliveryId unix replies).outcome =
        .error (.other ("creating request: " ++ e)) := by
      unfold send buildRequest
      rw [hn]
    simp [hsend]
  | ok u =>
    obtain ⟨req, hreq⟩ : ∃ req, buildRequest lib rule payload deliveryId unix = .ok req := by
      unfold buildRequest
      rw [hn]
      exact ⟨_, rfl⟩
    rw [← exists_imp]
    by_cases hsigned : rule.webhook.signingSecret = ""
    · rw [accepted_unsigned_iff hreq hsigned]
      simp [hsigned]
    · exact ⟨fun _ => .inr (.inl hsigned), fun _ => accepted_of_signed hreq hsigned⟩

end

/-- `net/http` and `crypto`, on the requests to one host and on one message:
    the payload `{}` at 1700000000, under the key `s3cret`. -/
def sampleHttp : HttpLib where
  newRequest := fun _ _ => .ok ()
  parseRef := fun _ => .ok ()
  resolve := fun _ ref => ref
  copyHeaders := fun first _ _ => first.header
  urlError := fun req e => req.method ++ " \"" ++ req.url ++ "\": " ++ e
  hmac := fun _ _ => "97926816e98fbb41ccb1673225ff29a2f35369099990e1b1561651e7bd097ebf"
  uuid := fun id => "00000000-0000-0000-0000-" ++
    String.ofList ((toString id).toList.leftpad 12 '0')
  userAgent := "mailrelay/dev"

def loginRule : Rule :=
  ⟨"alerts", ⟨"", []⟩,
    ⟨"", "https://hooks.example.com/a", "POST", [], "", none, none, none, none, none⟩⟩

/-- A receiver behind a login page. -/
def sampleLogin (i : ℕ) : Reply :=
  if i = 0 then .ok ⟨302, "https://hooks.example.com/login", ""⟩ else .ok ⟨200, "", "please log in"⟩

/-- The payload went to nobody, and `send` reports a success. -/
theorem redirect_loses_body :
    (send sampleHttp loginRule "\x7b\x7d" 3 1700000000 sampleLogin).outcome = .ok "please log in" ∧
      ¬ Accepted loginRule.webhook "\x7b\x7d" sampleLogin
        (send sampleHttp loginRule "\x7b\x7d" 3 1700000000 sampleLogin) := by
  refine ⟨by decide +kernel, ?_⟩
  have hchain : Chain sampleHttp sampleLogin 0 1 ⟨200, "", "please log in"⟩ := by
    refine ⟨fun j hj => ?_, rfl, by decide⟩
    obtain rfl : j = 0 := by omega
    exact ⟨_, rfl, by decide, by decide, rfl⟩
  obtain ⟨req, hreq⟩ : ∃ req, buildRequest sampleHttp loginRule "\x7b\x7d" 3 1700000000 = .ok req :=
    ⟨_, rfl⟩
  rw [accepted_of_chain hreq rfl hchain (by omega)]
  intro h
  have := (h ⟨0, by omega, _, rfl, by decide⟩).1
  exact absurd this (by decide)

/-! ## Signing headers -/

/-- The fields that sign a payload, named as `setSigningHeaders` names them. -/
def signature (lib : HttpLib) (secret payload deliveryId : String) (unix : ℤ) : HttpHeader :=
  [("X-Mailrelay-Timestamp", toString unix),
    ("X-Mailrelay-Signature", "sha256=" ++ lib.hmac secret (toString unix ++ "." ++ payload)),
    ("X-Mailrelay-Delivery", deliveryId)]

def isSigningHeader (key : String) : Bool :=
  key == "X-Mailrelay-Timestamp" || key == "X-Mailrelay-Signature" || key == "X-Mailrelay-Delivery"

/-- The signing fields of a header. -/
def signingFields (h : HttpHeader) : HttpHeader := h.filter fun f => isSigningHeader f.1

section
variable {lib : HttpLib}

theorem mem_setHeader {key value : String} {h : HttpHeader} {f : String × String}
    (hf : f ∈ setHeader key value h) : f ∈ h ∨ f = (canonicalKey key, value) := by
  unfold setHeader at hf
  rcases List.mem_append.1 hf with hf | hf
  · exact .inl (List.mem_of_mem_filter hf)
  · exact .inr (List.mem_singleton.1 hf)

theorem canonicalKey_signing :
    canonicalKey "X-Mailrelay-Timestamp" = "X-Mailrelay-Timestamp" ∧
      canonicalKey "X-Mailrelay-Signature" = "X-Mailrelay-Signature" ∧
      canonicalKey "X-Mailrelay-Delivery" = "X-Mailrelay-Delivery" := by decide +kernel

/-- **A signature replaces what custom headers say.** -/
theorem signingFields_setSigningHeaders {secret : String} (hs : secret ≠ "") (payload deliveryId : String)
    (unix : ℤ) (h : HttpHeader) :
    signingFields (setSigningHeaders lib payload secret deliveryId unix h) =
      signature lib secret payload deliveryId unix := by
  obtain ⟨ht, hg, hd⟩ := canonicalKey_signing
  have hnil : h.filter (fun f => isSigningHeader f.1 && (decide (f.1 ≠ "X-Mailrelay-Delivery") &&
      (decide (f.1 ≠ "X-Mailrelay-Signature") && decide (f.1 ≠ "X-Mailrelay-Timestamp")))) = [] := by
    rw [List.filter_eq_nil_iff]
    intro f _
    simp only [isSigningHeader]
    grind
  unfold setSigningHeaders signingFields setHeader signature
  rw [if_neg hs, ht, hg, hd]
  simp [List.filter_append, List.filter_filter, isSigningHeader] at hnil ⊢
  exact hnil

theorem mem_customHeader {wh : WebhookConfig} {f : String × String} (hf : f ∈ customHeader lib wh) :
    f.1 = "User-Agent" ∨ f.1 = "Content-Type" ∨ ∃ g ∈ wh.headers, f = (canonicalKey g.1, g.2) := by
  have hua : canonicalKey "User-Agent" = "User-Agent" := by decide +kernel
  have hct : canonicalKey "Content-Type" = "Content-Type" := by decide +kernel
  have hfold : ∀ (hs : List (String × String)) (h : HttpHeader),
      f ∈ hs.foldl (fun h g => setHeader g.1 g.2 h) h →
        f ∈ h ∨ ∃ g ∈ hs, f = (canonicalKey g.1, g.2) := by
    intro hs
    induction hs with
    | nil => exact fun h hf => .inl hf
    | cons g hs ih =>
      intro h hf
      rcases ih _ hf with hf | ⟨g', hg', he⟩
      · rcases mem_setHeader hf with hf | he
        · exact .inl hf
        · exact .inr ⟨g, by simp, he⟩
      · exact .inr ⟨g', List.mem_cons_of_mem _ hg', he⟩
  have hcustom : f ∈ wh.headers.foldl (fun h g => setHeader g.1 g.2 h)
      (setHeader "User-Agent" lib.userAgent []) →
        f.1 = "User-Agent" ∨ ∃ g ∈ wh.headers, f = (canonicalKey g.1, g.2) := by
    intro hf
    refine (hfold _ _ hf).imp_left fun hf => ?_
    rcases mem_setHeader hf with hf | rfl
    · cases hf
    · exact hua
  unfold customHeader at hf
  dsimp only at hf
  split at hf
  · exact (hcustom hf).imp_right .inr
  · rcases mem_setHeader hf with hf | rfl
    · exact (hcustom hf).imp_right .inr
    · exact .inr (.inl hct)

/-- With `useLast` one request is made. -/
theorem clientDo_useLast (first : HttpRequest) (replies : ℕ → Reply) (left i : ℕ) (req : HttpRequest) :
    (clientDo lib true first replies left i req).requests = [req] := by
  unfold clientDo
  split
  · rfl
  · rename_i resp hr
    split
    · rfl
    · rfl
    · rfl
    · rename_i next _ hnext
      exact absurd hnext (redirect_useLast first req resp _)

/-- The requests of `http.Client` have the first header, or a copy of it. -/
theorem clientDo_header {useLast : Bool} {first : HttpRequest} {replies : ℕ → Reply} {left i : ℕ}
    {req r : HttpRequest} (hr : r ∈ (clientDo lib useLast first replies left i req).requests) :
    r = req ∨ ∃ prev url, r.header = lib.copyHeaders first prev url := by
  fun_induction clientDo lib useLast first replies left i req with
  | case1 => exact .inl (List.mem_singleton.1 hr)
  | case2 => exact .inl (List.mem_singleton.1 hr)
  | case3 => exact .inl (List.mem_singleton.1 hr)
  | case4 => exact .inl (List.mem_singleton.1 hr)
  | case5 i req resp hresp next left hnext ih =>
    rcases List.mem_cons.1 hr with rfl | hr
    · exact .inl rfl
    · rcases ih hr with rfl | h
      · refine .inr ⟨req, lib.resolve req.url resp.location, ?_⟩
        unfold redirect at hnext
        grind
      · exact .inr h

/-- Only a request that was built is made. -/
theorem exists_buildRequest {rule : Rule} {payload : String} {deliveryId : Uuid} {unix : ℤ}
    {replies : ℕ → Reply} {req : HttpRequest}
    (hreq : req ∈ (send lib rule payload deliveryId unix replies).requests) :
    ∃ first, buildRequest lib rule payload deliveryId unix = .ok first := by
  rcases hb : buildRequest lib rule payload deliveryId unix with e | first
  · unfold send at hreq
    rw [hb] at hreq
    cases hreq
  · exact ⟨first, rfl⟩

/-- A signed rule makes only the request that was built. -/
theorem buildRequest_of_signed {rule : Rule} {payload : String} {deliveryId : Uuid} {unix : ℤ}
    {replies : ℕ → Reply} (hs : rule.webhook.signingSecret ≠ "") {req : HttpRequest}
    (hreq : req ∈ (send lib rule payload deliveryId unix replies).requests) :
    buildRequest lib rule payload deliveryId unix = .ok req := by
  obtain ⟨first, hb⟩ := exists_buildRequest hreq
  rw [send_requests hb, dispatcherDo, decide_eq_true hs, clientDo_useLast,
    List.mem_singleton] at hreq
  rw [hb, hreq]

/-- **A signed rule makes one request, signed with its secret.** -/
theorem signed_headers {rule : Rule} {payload : String} {deliveryId : Uuid} {unix : ℤ}
    {replies : ℕ → Reply} (hs : rule.webhook.signingSecret ≠ "") {req : HttpRequest}
    (hreq : req ∈ (send lib rule payload deliveryId unix replies).requests) :
    signingFields req.header =
      signature lib rule.webhook.signingSecret payload (lib.uuid deliveryId) unix ∧
        req.body = payload := by
  obtain ⟨-, hbody, hheader⟩ := buildRequest_ok lib (buildRequest_of_signed hs hreq)
  rw [hheader, signingFields_setSigningHeaders hs]
  exact ⟨rfl, hbody⟩

/-- A redirect copies the fields of the first request; `Referer` and `Cookie`
    are set anew. -/
def HttpLib.CopiesHeaders (lib : HttpLib) : Prop := ∀ first prev url, ∀ f ∈ lib.copyHeaders first prev url,
  f ∈ first.header ∨ f.1 = "Referer" ∨ f.1 = "Cookie"

/-- **An unsigned rule makes requests with no signing fields but custom ones.** -/
theorem unsigned_headers (hcopy : lib.CopiesHeaders) {rule : Rule} {payload : String}
    {deliveryId : Uuid} {unix : ℤ} {replies : ℕ → Reply} (hs : rule.webhook.signingSecret = "")
    {req : HttpRequest} (hreq : req ∈ (send lib rule payload deliveryId unix replies).requests) :
    ∀ f ∈ signingFields req.header, ∃ g ∈ rule.webhook.headers, f = (canonicalKey g.1, g.2) := by
  obtain ⟨first, hb⟩ := exists_buildRequest hreq
  obtain ⟨-, -, hheader⟩ := buildRequest_ok lib hb
  rw [setSigningHeaders, if_pos hs] at hheader
  rw [send_requests hb, dispatcherDo] at hreq
  intro f hf
  obtain ⟨hf, hkey⟩ := List.mem_filter.1 hf
  have hother : f.1 ≠ "User-Agent" ∧ f.1 ≠ "Content-Type" ∧ f.1 ≠ "Referer" ∧ f.1 ≠ "Cookie" := by
    refine ⟨?_, ?_, ?_, ?_⟩ <;> intro he <;> simp [he, isSigningHeader] at hkey
  have hfirst : f ∈ first.header := by
    rcases clientDo_header hreq with rfl | ⟨prev, url, h⟩
    · exact hf
    · rw [h] at hf
      rcases hcopy _ _ _ f hf with hf | he | he
      · exact hf
      · exact absurd he hother.2.2.1
      · exact absurd he hother.2.2.2
  rw [hheader] at hfirst
  rcases mem_customHeader hfirst with he | he | h
  · exact absurd he hother.1
  · exact absurd he hother.2.1
  · exact h

end

end Mailrelay
