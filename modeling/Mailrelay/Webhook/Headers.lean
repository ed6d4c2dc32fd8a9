/-
  The headers of a request and the order of the configured ones (`send` in
  `internal/webhook/dispatcher.go`).

  The source ranges over a map, in any order, and sets each header under its
  canonical name.  Two names that differ in case only are one header then.

  * `mem_requestHeader`: what a request carries;
  * `headers_fixed_iff`: when this does not depend on the order.
-/
import Mailrelay.Lib.HeaderKey
import Mailrelay.Rules.Validate
import Mailrelay.Webhook.Request

namespace Mailrelay

open Lib

/-! ## One value for each name -/

/-- No name twice. -/
def Functional (h : HttpHeader) : Prop := ∀ f ∈ h, ∀ g ∈ h, f.1 = g.1 → f = g

theorem mem_setHeader_iff {key value : String} {h : HttpHeader} {f : String × String} :
    f ∈ setHeader key value h ↔ f ∈ h ∧ f.1 ≠ canonicalKey key ∨ f = (canonicalKey key, value) := by
  simp [setHeader]

theorem functional_setHeader {h : HttpHeader} (hh : Functional h) (key value : String) :
    Functional (setHeader key value h) := by
  intro f hf g hg hfg
  rw [mem_setHeader_iff] at hf hg
  rcases hf with ⟨hf, hfk⟩ | rfl
  · rcases hg with ⟨hg, -⟩ | rfl
    · exact hh f hf g hg hfg
    · exact absurd hfg hfk
  · rcases hg with ⟨-, hgk⟩ | rfl
    · exact absurd hfg.symm hgk
    · rfl

theorem functional_foldl {h : HttpHeader} (hh : Functional h) (hs : List (String × String)) :
    Functional (hs.foldl (fun h f => setHeader f.1 f.2 h) h) := by
  induction hs generalizing h with
  | nil => exact hh
  | cons f hs ih => exact ih (functional_setHeader hh f.1 f.2)

/-- The last one of the headers with a name stands, which is any of them if all
    have the same value. -/
theorem mem_foldl_setHeader {hs : List (String × String)} {h : HttpHeader} {f : String × String}
    (hagree : ∀ g ∈ hs, ∀ g' ∈ hs, canonicalKey g.1 = f.1 → canonicalKey g'.1 = f.1 → g.2 = g'.2) :
    f ∈ hs.foldl (fun h g => setHeader g.1 g.2 h) h ↔
      (f ∈ h ∧ ∀ g ∈ hs, canonicalKey g.1 ≠ f.1) ∨ ∃ g ∈ hs, f = (canonicalKey g.1, g.2) := by
  induction hs using List.reverseRecOn with
  | nil => simp
  | append_singleton hs g ih =>
    have hagree' : ∀ x ∈ hs, ∀ y ∈ hs, canonicalKey x.1 = f.1 → canonicalKey y.1 = f.1 → x.2 = y.2 :=
      fun x hx y hy => hagree x (by simp [hx]) y (by simp [hy])
    rw [List.foldl_append, List.foldl_cons, List.foldl_nil, mem_setHeader_iff, ih hagree']
    by_cases hk : canonicalKey g.1 = f.1
    · constructor
      · rintro (⟨-, hne⟩ | rfl)
        · exact absurd hk.symm hne
        · exact .inr ⟨g, by simp, rfl⟩
      · rintro (⟨-, hno⟩ | ⟨x, hx, rfl⟩)
        · exact absurd hk (hno g (by simp))
        · right
          rw [Prod.mk.injEq]
          exact ⟨hk.symm, hagree x hx g (by simp) rfl hk⟩
    · constructor
      · rintro (⟨⟨hf, hno⟩ | ⟨x, hx, rfl⟩, -⟩ | rfl)
        · left
          refine ⟨hf, fun x hx => ?_⟩
          rcases List.mem_append.1 hx with hx | hx
          · exact hno x hx
          · rwa [List.mem_singleton.1 hx]
        · exact .inr ⟨x, by simp [hx], rfl⟩
        · exact absurd rfl hk
      · rintro (⟨hf, hno⟩ | ⟨x, hx, rfl⟩)
        · exact .inl ⟨.inl ⟨hf, fun x hx => hno x (by simp [hx])⟩, fun he => hk he.symm⟩
        · rcases List.mem_append.1 hx with hx | hx
          · exact .inl ⟨.inr ⟨x, hx, rfl⟩, fun he => hk he.symm⟩
          · rw [List.mem_singleton.1 hx] at hk
            exact absurd rfl hk

/-! ## What a request carries -/

/-- Equal up to case. -/
def SameName (a b : String) : Prop := a.toList.map Char.toLower = b.toList.map Char.toLower

/-- A header that a request should carry: the signature, and else the
    configured headers, and the default ones that are not configured. -/
def Wanted (lib : HttpLib) (wh : WebhookConfig) (payload deliveryId : String) (unix : ℤ)
    (f : String × String) : Prop :=
  if wh.signingSecret ≠ "" ∧ isSigningHeader f.1 then
    f ∈ signature lib wh.signingSecret payload deliveryId unix
  else
    (∃ g ∈ wh.headers, f = (canonicalKey g.1, g.2)) ∨
      (f = ("User-Agent", lib.userAgent) ∧ ∀ g ∈ wh.headers, ¬SameName g.1 "User-Agent") ∨
      (f = ("Content-Type", "application/json") ∧ ∀ g ∈ wh.headers, ¬SameName g.1 "Content-Type")

/-- The header of the request that `send` makes. -/
def requestHeader (lib : HttpLib) (wh : WebhookConfig) (payload deliveryId : String)
    (unix : ℤ) : HttpHeader :=
  setSigningHeaders lib payload wh.signingSecret deliveryId unix (customHeader lib wh)

/-- Names that are the same header have the same value, unless the signature
    replaces it. -/
def NoConflict (wh : WebhookConfig) : Prop :=
  ∀ f ∈ wh.headers, ∀ g ∈ wh.headers, canonicalKey f.1 = canonicalKey g.1 →
    f.2 = g.2 ∨ wh.signingSecret ≠ "" ∧ isSigningHeader (canonicalKey f.1)

section
variable {lib : HttpLib} {wh : WebhookConfig} {payload deliveryId : String} {unix : ℤ}

theorem canonicalKey_default :
    canonicalKey "User-Agent" = "User-Agent" ∧ canonicalKey "Content-Type" = "Content-Type" := by
  decide +kernel

theorem sameName_default (s : String) :
    (SameName s "User-Agent" ↔ canonicalKey s = "User-Agent") ∧
      (SameName s "Content-Type" ↔ canonicalKey s = "Content-Type") := by
  have hua : "User-Agent".toList.all isTokenChar := by decide +kernel
  have hct : "Content-Type".toList.all isTokenChar := by decide +kernel
  rw [SameName, SameName, ← canonicalKey_eq_iff hua, ← canonicalKey_eq_iff hct, canonicalKey_default.1,
    canonicalKey_default.2]
  exact ⟨Iff.rfl, Iff.rfl⟩

theorem functional_customHeader : Functional (customHeader lib wh) := by
  have hnil : Functional [] := fun f hf => by cases hf
  have hfold := functional_foldl (functional_setHeader hnil "User-Agent" lib.userAgent) wh.headers
  unfold customHeader
  dsimp only
  split_ifs
  · exact hfold
  · exact functional_setHeader hfold _ _

theorem functional_requestHeader : Functional (requestHeader lib wh payload deliveryId unix) := by
  unfold requestHeader setSigningHeaders
  split_ifs
  · exact functional_customHeader
  · exact functional_setHeader
      (functional_setHeader (functional_setHeader functional_customHeader _ _) _ _) _ _

/-- The signature does not touch other fields. -/
theorem mem_setSigningHeaders {secret : String} {h : HttpHeader} {f : String × String}
    (hf : ¬(secret ≠ "" ∧ isSigningHeader f.1)) :
    f ∈ setSigningHeaders lib payload secret deliveryId unix h ↔ f ∈ h := by
  unfold setSigningHeaders
  split_ifs with hs
  · rfl
  · obtain ⟨ht, hg, hd⟩ := canonicalKey_signing
    have hkey : isSigningHeader f.1 = false := by
      rw [Bool.eq_false_iff]
      exact fun h => hf ⟨hs, h⟩
    simp only [isSigningHeader, Bool.or_eq_false_iff, beq_eq_false_iff_ne] at hkey
    simp only [mem_setHeader_iff, ht, hg, hd]
    obtain ⟨⟨h₁, h₂⟩, h₃⟩ := hkey
    have hne : ∀ k v, f.1 ≠ k → f ≠ (k, v) := fun k v hk he => hk (by rw [he])
    simp [h₁, h₂, h₃, hne]

/-- Before the signature. -/
theorem mem_customHeader_iff {f : String × String}
    (hagree : ∀ g ∈ wh.headers, ∀ g' ∈ wh.headers, canonicalKey g.1 = f.1 →
      canonicalKey g'.1 = f.1 → g.2 = g'.2) :
    f ∈ customHeader lib wh ↔
      (∃ g ∈ wh.headers, f = (canonicalKey g.1, g.2)) ∨
        (f = ("User-Agent", lib.userAgent) ∧ ∀ g ∈ wh.headers, ¬SameName g.1 "User-Agent") ∨
        (f = ("Content-Type", "application/json") ∧ ∀ g ∈ wh.headers, ¬SameName g.1 "Content-Type") := by
  obtain ⟨hua, hct⟩ := canonicalKey_default
  have hfold := mem_foldl_setHeader (h := setHeader "User-Agent" lib.userAgent []) hagree
  have hagent : f ∈ setHeader "User-Agent" lib.userAgent [] ↔ f = ("User-Agent", lib.userAgent) := by
    simp [mem_setHeader_iff, hua]
  have hno : (f = ("User-Agent", lib.userAgent) ∧ ∀ g ∈ wh.headers, canonicalKey g.1 ≠ f.1) ↔
      f = ("User-Agent", lib.userAgent) ∧ ∀ g ∈ wh.headers, canonicalKey g.1 ≠ "User-Agent" := by
    refine and_congr_right fun hf => ?_
    rw [hf]
  rw [hagent, hno] at hfold
  simp only [sameName_default]
  unfold customHeader
  dsimp only
  split_ifs with hany
  · obtain ⟨g, hg, hgk⟩ := List.any_eq_true.1 hany
    rw [hfold]
    constructor
    · rintro (hf | hf)
      · exact .inr (.inl hf)
      · exact .inl hf
    · rintro (hf | hf | ⟨-, hnone⟩)
      · exact .inr hf
      · exact .inl hf
      · exact absurd (of_decide_eq_true hgk) (hnone g hg)
  · have hnone : ∀ g ∈ wh.headers, canonicalKey g.1 ≠ "Content-Type" := by
      intro g hg hgk
      exact hany (List.any_eq_true.2 ⟨g, hg, decide_eq_true hgk⟩)
    rw [mem_setHeader_iff, hfold, hct]
    constructor
    · rintro (⟨hf | hf, -⟩ | hf)
      · exact .inr (.inl hf)
      · exact .inl hf
      · exact .inr (.inr ⟨hf, hnone⟩)
    · rintro (⟨g, hg, rfl⟩ | ⟨rfl, hf⟩ | ⟨hf, -⟩)
      · exact .inl ⟨.inr ⟨g, hg, rfl⟩, hnone g hg⟩
      · exact .inl ⟨.inl ⟨rfl, hf⟩, by simp⟩
      · exact .inr hf

/-- **What a request carries** if no names are in conflict. -/
theorem mem_requestHeader (h : NoConflict wh) (f : String × String) :
    f ∈ requestHeader lib wh payload deliveryId unix ↔ Wanted lib wh payload deliveryId unix f := by
  unfold requestHeader Wanted
  split_ifs with hs
  · have hsign := @signingFields_setSigningHeaders lib _ hs.1 payload deliveryId unix (customHeader lib wh)
    rw [← hsign, signingFields, List.mem_filter, and_iff_left hs.2]
  · rw [mem_setSigningHeaders hs]
    refine mem_customHeader_iff fun g hg g' hg' hk hk' => ?_
    refine (h g hg g' hg' (hk.trans hk'.symm)).resolve_right fun hsign => hs ⟨hsign.1, ?_⟩
    rw [← hk]
    exact hsign.2

theorem Wanted.perm {hs : List (String × String)} (h : hs.Perm wh.headers) (f : String × String) :
    Wanted lib { wh with headers := hs } payload deliveryId unix f ↔
      Wanted lib wh payload deliveryId unix f := by
  simp only [Wanted, h.mem_iff]

theorem NoConflict.perm {hs : List (String × String)} (h : hs.Perm wh.headers) (hno : NoConflict wh) :
    NoConflict { wh with headers := hs } := by
  intro f hf g hg
  exact hno f (h.mem_iff.1 hf) g (h.mem_iff.1 hg)

end

/-! ## The order of the headers -/

/-- The rule with its headers in another order. -/
def Rule.withHeaders (rule : Rule) (hs : List (String × String)) : Rule :=
  { rule with webhook := { rule.webhook with headers := hs } }

/-- In every order of the configured headers, the request carries the same
    ones, which are those it should carry, and its own signature. -/
structure HeadersFixed (lib : HttpLib) (rule : Rule) (payload : String) (deliveryId : Uuid) (unix : ℤ) :
    Prop where
  same : ∀ hs hs' : List (String × String), hs.Perm rule.webhook.headers → hs'.Perm rule.webhook.headers →
    ∀ req req', buildRequest lib (rule.withHeaders hs) payload deliveryId unix = .ok req →
      buildRequest lib (rule.withHeaders hs') payload deliveryId unix = .ok req' →
        ∀ f, f ∈ req.header ↔ f ∈ req'.header
  wanted : ∀ hs : List (String × String), hs.Perm rule.webhook.headers → ∀ req,
    buildRequest lib (rule.withHeaders hs) payload deliveryId unix = .ok req →
      ∀ f, f ∈ req.header ↔ Wanted lib rule.webhook payload (lib.uuid deliveryId) unix f
  signed : ∀ hs : List (String × String), hs.Perm rule.webhook.headers → ∀ req,
    buildRequest lib (rule.withHeaders hs) payload deliveryId unix = .ok req →
      rule.webhook.signingSecret ≠ "" → signingFields req.header =
        signature lib rule.webhook.signingSecret payload (lib.uuid deliveryId) unix

section
variable {lib : HttpLib} {rule : Rule} {payload : String} {deliveryId : Uuid} {unix : ℤ}

theorem buildRequest_header {hs : List (String × String)} {req : HttpRequest}
    (h : buildRequest lib (rule.withHeaders hs) payload deliveryId unix = .ok req) :
    req.header =
      requestHeader lib { rule.webhook with headers := hs } payload (lib.uuid deliveryId) unix :=
  (buildRequest_ok lib h).2.2

/-- Whether a request is made does not depend on the headers. -/
theorem exists_buildRequest_iff (hs : List (String × String)) :
    (∃ req, buildRequest lib (rule.withHeaders hs) payload deliveryId unix = .ok req) ↔
      (lib.newRequest (effectiveMethod rule.webhook) rule.webhook.url).isOk := by
  have hmethod : effectiveMethod (rule.withHeaders hs).webhook = effectiveMethod rule.webhook := rfl
  have hurl : (rule.withHeaders hs).webhook.url = rule.webhook.url := rfl
  unfold buildRequest
  rw [hmethod, hurl]
  rcases lib.newRequest (effectiveMethod rule.webhook) rule.webhook.url with e | u
  · refine iff_of_false ?_ Bool.false_ne_true
    rintro ⟨req, h⟩
    cases h
  · exact iff_of_true ⟨_, rfl⟩ rfl

/-- **The headers do not depend on the order** exactly if no two names that
    are the same header have different values, or no request can be made. -/
theorem headers_fixed_iff :
    HeadersFixed lib rule payload deliveryId unix ↔
      (lib.newRequest (effectiveMethod rule.webhook) rule.webhook.url).isOk = false ∨
        NoConflict rule.webhook := by
  constructor
  · intro h
    rw [or_iff_not_imp_left, Bool.not_eq_false]
    intro hnew f hf g hg hk
    by_contra hno
    rw [not_or] at hno
    obtain ⟨req, hreq⟩ := (exists_buildRequest_iff rule.webhook.headers).2 hnew
    have hwanted := h.wanted _ (List.Perm.refl _) req hreq
    have hmem : ∀ x ∈ rule.webhook.headers, canonicalKey x.1 = canonicalKey f.1 →
        (canonicalKey x.1, x.2) ∈ req.header := by
      intro x hx hxk
      rw [hwanted, Wanted, if_neg (by rw [hxk]; exact hno.2)]
      exact .inl ⟨x, hx, rfl⟩
    have hfun : Functional req.header := by
      rw [buildRequest_header hreq]
      exact functional_requestHeader
    have := hfun _ (hmem f hf rfl) _ (hmem g hg hk.symm) hk
    exact hno.1 (Prod.mk.inj this).2
  · rintro (hnew | hno)
    · have hnone : ∀ hs req, buildRequest lib (rule.withHeaders hs) payload deliveryId unix ≠ .ok req := by
        intro hs req hreq
        rw [(exists_buildRequest_iff hs).1 ⟨req, hreq⟩] at hnew
        cases hnew
      exact ⟨fun hs _ _ _ req _ h => absurd h (hnone hs req), fun hs _ req h => absurd h (hnone hs req),
        fun hs _ req h => absurd h (hnone hs req)⟩
    · have hmem : ∀ hs : List (String × String), hs.Perm rule.webhook.headers → ∀ req,
          buildRequest lib (rule.withHeaders hs) payload deliveryId unix = .ok req →
            ∀ f, f ∈ req.header ↔ Wanted lib rule.webhook payload (lib.uuid deliveryId) unix f := by
        intro hs hp req hreq f
        rw [buildRequest_header hreq, mem_requestHeader (hno.perm hp), Wanted.perm hp]
      refine ⟨fun hs hs' hp hp' req req' hreq hreq' f => ?_, hmem, fun hs hp req hreq hs => ?_⟩
      · rw [hmem hs hp req hreq, hmem hs' hp' req' hreq']
      · rw [buildRequest_header hreq]
        exact signingFields_setSigningHeaders hs payload _ unix _

end

/-! ## Two names for one header -/

def collidingRule : RuleRecord :=
  ⟨1, "alerts", true, ⟨"", []⟩,
    ⟨"", "https://hooks.example/mail", "POST", [("X-A", "1"), ("x-a", "2")], "", none, none, none,
      none, none⟩,
    0, 0, 0⟩

/-- The value that is sent depends on the order. -/
theorem colliding_headers : ¬∀ r : RuleRecord, validate sampleRuleLib r = .ok () →
    ∀ (payload : String) (deliveryId : Uuid) (unix : ℤ),
      HeadersFixed sampleHttp r.toRule payload deliveryId unix := by
  intro h
  have hfixed := h collidingRule (by decide +kernel) "\x7b\x7d" 3 1700000000
  have hsame := hfixed.same [("X-A", "1"), ("x-a", "2")] [("x-a", "2"), ("X-A", "1")] (List.Perm.refl _)
    (List.Perm.swap _ _ _) _ _ rfl rfl ("X-A", "1")
  revert hsame
  decide +kernel

end Mailrelay
