/-
  Authentication of a message (`internal/smtp/auth.go`): the ARC headers,
  the domain of the From header, and `VerifyAuth`.

  The outcomes of the SPF, DKIM and DMARC lookups are parameters (`Lookups`).

  * `arc_harmless_iff`: when the ARC headers of a message change nothing;
  * `header_from_authenticated_iff`: when DMARC looks at the domain of the From
    address that rules and webhooks see.
-/
import Mailrelay.Smtp.Parser
import Mailrelay.Smtp.Server

namespace Mailrelay

open Lib

/-! ## The ARC headers -/

/-- `strconv.Atoi` -/
def atoi (s : String) : Option ℤ :=
  let digits (cs : List Char) : Option ℤ :=
    if cs ≠ [] ∧ cs.all Char.isDigit then
      some (cs.foldl (fun n c => 10 * n + (c.toNat - '0'.toNat : ℕ)) 0)
    else none
  let value := match s.toList with
    | '-' :: cs => (digits cs).map (- ·)
    | '+' :: cs => digits cs
    | cs => digits cs
  value.filter fun n => minInt64 ≤ n ∧ n ≤ maxInt64

structure ArcChainResult where
  passed : Bool
  spf : AuthCheckResult
  dkim : AuthCheckResult
  dmarc : AuthCheckResult
  deriving DecidableEq, Repr

/-- The zero value, whose results are not `none` but empty texts. -/
def ArcChainResult.zero : ArcChainResult := ⟨false, .unset, .unset, .unset⟩

section
variable (u : Unicode)

/-- The texts after `key=` of the parameters of a header value. -/
def arcParams (s key : String) : List String :=
  (split ';' (u.lower s)).filterMap fun part => (afterPrefix? (key ++ "=") (trimSpace part)).map trimSpace

/-- The first one that is a number. -/
def arcIntParam (s key : String) : ℤ := ((arcParams u s key).findSome? atoi).getD 0

def arcStringParam (s key : String) : String := (arcParams u s key).headD ""

def authResultValue (s method : String) : AuthCheckResult :=
  match cutText (method ++ "=").toList (u.lower s).toList with
  | none => .none
  | some (before, after) =>
    -- a word boundary before the method
    if before.getLast?.any fun c => !(" \t\n;".toList.contains c) then .none
    else
      match trimSpace (String.ofList (after.takeWhile fun c => !(" \t\n\r;(".toList.contains c))) with
      | "pass" => .pass
      | "fail" | "softfail" => .fail
      | _ => .none

def validCv (s : String) : Bool :=
  let cv := arcStringParam u s "cv"
  u.equalFold cv "pass" || (decide (arcIntParam u s "i" = 1) && u.equalFold cv "none")

/-- The loop over the seals. -/
def maxValidInstance (seals : List String) : ℤ :=
  seals.foldl (fun m s =>
    let i := arcIntParam u s "i"
    if i > 0 ∧ validCv u s ∧ i > m then i else m) 0

/-- `checkARCChain` after `ReadMessage`. -/
def arcChain (header : List (String × String)) : ArcChainResult :=
  let seals := values "Arc-Seal" header
  if seals.any fun s => u.equalFold (arcStringParam u s "cv") "fail" then .zero
  else if maxValidInstance u seals = 0 then .zero
  else
    match (values "Arc-Authentication-Results" header).find? fun aar => arcIntParam u aar "i" = 1 with
    | none => { ArcChainResult.zero with passed := true }
    | some aar =>
      ⟨true, authResultValue u aar "spf", authResultValue u aar "dkim", authResultValue u aar "dmarc"⟩

def checkARCChain (raw : List String) : ArcChainResult :=
  match readMessage raw with
  | none => .zero
  | some header => arcChain u header

theorem checkARCChain_eq (raw : List String) : checkARCChain u raw = arcChain u (fields raw) := by
  unfold checkARCChain fields
  rcases readMessage raw with _ | header
  · rfl
  · rfl

end

/-! ## Domains -/

section
variable (ml : MailLib)

def parseHeaderFromDomain (raw : List String) : String :=
  match readMessage raw with
  | none => ""
  | some header =>
    let fromHdr := get "From" header
    if fromHdr = "" then ""
    else
      match ml.plain fromHdr with
      | none | some [] => ""
      | some (addr :: _) => (domainOf ml.unicode addr).getD ""

def envelopeFromDomain (sender : String) : String := ((cut '@' sender).map Prod.snd).getD ""

/-- The domain for the lookup of the DMARC record and for alignment. -/
def hdrFromDomain (sender : String) (raw : List String) : String :=
  let d := parseHeaderFromDomain ml raw
  if d = "" then envelopeFromDomain sender else d

end

section
variable (u : Unicode)

/-- The last two labels. -/
def orgDomain (domain : String) : String :=
  let parts := split '.' (u.lower domain)
  if parts.length ≤ 2 then u.lower domain
  else String.intercalate "." (parts.drop (parts.length - 2))

def domainAligns (checkDomain fromDomain : String) (relaxed : Bool) : Bool :=
  let a := u.lower checkDomain
  let b := u.lower fromDomain
  decide (a = b) || (relaxed && decide (orgDomain u a = orgDomain u b))

end

/-! ## VerifyAuth -/

inductive AuthMode where
  | off | log | enforce
  deriving DecidableEq, Repr

namespace AuthMode

def enabled (m : AuthMode) : Bool := decide (m ≠ .off)

def enforced (m : AuthMode) : Bool := decide (m = .enforce)

/-- Whether a result of the check refuses the message. -/
def refuses (m : AuthMode) (result : AuthCheckResult) : Bool := m.enforced && decide (result = .fail)

end AuthMode

structure AuthConfig where
  spf : AuthMode
  dkim : AuthMode
  dmarc : AuthMode
  deriving DecidableEq, Repr

/-- The results of `spf.CheckHostWithSender`. -/
inductive SpfResult where
  | none | neutral | pass | fail | softFail | tempError | permError
  deriving DecidableEq, Repr

/-- A `dkim.Verification`; `ok` when it has no error. -/
structure Verification where
  domain : String
  ok : Bool
  deriving DecidableEq, Repr

/-- A `dmarc.Record`, as far as `VerifyAuth` reads it. -/
structure DmarcRecord where
  strictSPF : Bool
  strictDKIM : Bool
  deriving DecidableEq, Repr

structure Lookups (IP : Type) where
  /-- `spf.CheckHostWithSender(ip, domain, sender)` -/
  spf : IP → String → String → SpfResult
  /-- `dkim.Verify` of the message -/
  dkim : List Verification
  /-- `dmarc.Lookup`; `none` for an error -/
  dmarc : String → Option DmarcRecord

def spfCheck : SpfResult → AuthCheckResult
  | .pass => .pass
  | .neutral | .none | .tempError | .permError => .none
  | .fail | .softFail => .fail

def dkimCheck (vs : List Verification) : AuthCheckResult :=
  if vs = [] then .none
  else if vs.any Verification.ok then .pass
  else .fail

section
variable (u : Unicode)

def dkimPassDomains (vs : List Verification) : List String :=
  (vs.filter Verification.ok).map fun v => u.lower v.domain

/-- The live DMARC check, given the results before it. -/
def dmarcCheck (record : Option DmarcRecord) (spf : AuthCheckResult)
    (envelopeFromDomain hdrFromDomain : String) (dkimPassDomains : List String) : AuthCheckResult :=
  match record with
  | none => .none
  | some record =>
    let spfAligned := decide (spf = .pass) &&
      domainAligns u envelopeFromDomain hdrFromDomain (!record.strictSPF)
    let dkimAligned := dkimPassDomains.any fun d => domainAligns u d hdrFromDomain (!record.strictDKIM)
    if spfAligned || dkimAligned then .pass else .fail

end

/-- The result of a check that the ARC headers preserve, or else the live one. -/
def ArcChainResult.or (arc : ArcChainResult) (preserved live : AuthCheckResult) : AuthCheckResult :=
  if arc.passed ∧ preserved ≠ .none then preserved else live

section
variable (ml : MailLib) {IP : Type} (cfg : AuthConfig) (lk : Lookups IP) (ip : Option IP)
  (sender : String)

/-- The address that the SPF check looks at, when it runs. -/
def spfInput : Option IP :=
  if cfg.spf.enabled ∧ envelopeFromDomain sender ≠ "" then ip else none

/-- The live SPF check. -/
def liveSpf : AuthCheckResult :=
  match spfInput cfg ip sender with
  | none => .none
  | some a => spfCheck (lk.spf a (envelopeFromDomain sender) sender)

def spfResult (arc : ArcChainResult) : AuthCheckResult :=
  if (spfInput cfg ip sender).isSome then arc.or arc.spf (liveSpf cfg lk ip sender) else .none

def dkimResult : AuthCheckResult := if cfg.dkim.enabled then dkimCheck lk.dkim else .none

def dkimDomains : List String :=
  if cfg.dkim.enabled then dkimPassDomains ml.unicode lk.dkim else []

/-- The live DMARC check on the domain of the From header, given the SPF result. -/
def liveDmarc (hdrFrom : String) (spf : AuthCheckResult) : AuthCheckResult :=
  dmarcCheck ml.unicode (lk.dmarc hdrFrom) spf (envelopeFromDomain sender) hdrFrom
    (dkimDomains ml cfg lk)

def dmarcResult (hdrFrom : String) (arc : ArcChainResult) (spf : AuthCheckResult) : AuthCheckResult :=
  if cfg.dmarc.enabled ∧ hdrFrom ≠ "" then
    arc.or arc.dmarc (liveDmarc ml cfg lk sender hdrFrom spf)
  else .none

/-- The checks of `VerifyAuth`, on the domain of the From header and the ARC
    headers.  A check that refuses the message is the last one. -/
def authenticate (hdrFrom : String) (arc : ArcChainResult) : AuthResult × Except String Unit :=
  let arcResult : AuthCheckResult := if arc.passed then .pass else .none
  let spf := spfResult cfg lk ip sender arc
  if cfg.spf.refuses spf then
    (⟨false, spf, .none, .none, arcResult⟩, .error ("SPF check failed for " ++ sender))
  else
    let dkim := dkimResult cfg lk
    if cfg.dkim.refuses dkim then
      (⟨false, spf, dkim, .none, arcResult⟩, .error ("DKIM check failed for " ++ sender))
    else
      let dmarc := dmarcResult ml cfg lk sender hdrFrom arc spf
      if cfg.dmarc.refuses dmarc then
        (⟨false, spf, dkim, dmarc, arcResult⟩, .error ("DMARC check failed for " ++ sender))
      else (⟨false, spf, dkim, dmarc, arcResult⟩, .ok ())

def verifyAuth (raw : List String) : AuthResult × Except String Unit :=
  authenticate ml cfg lk ip sender (hdrFromDomain ml sender raw) (checkARCChain ml.unicode raw)

/-- The DMARC record that matters is the one of this domain. -/
theorem verifyAuth_dmarc_congr (raw : List String) {dmarc : String → Option DmarcRecord}
    (h : dmarc (hdrFromDomain ml sender raw) = lk.dmarc (hdrFromDomain ml sender raw)) :
    verifyAuth ml cfg { lk with dmarc := dmarc } ip sender raw = verifyAuth ml cfg lk ip sender raw := by
  simp only [verifyAuth, authenticate, dmarcResult, liveDmarc, h]
  rfl

/-! ## Messages that vouch for themselves -/

def isArcKey (key : String) : Bool := key = "Arc-Seal" || key = "Arc-Authentication-Results"

/-- The message without its ARC seals and results. -/
def stripArc (raw : List String) : List String := removeFields isArcKey raw

/-- The same SPF, DKIM and DMARC results, and the same decision. -/
def SameVerdict (a b : AuthResult × Except String Unit) : Prop :=
  a.1.spf = b.1.spf ∧ a.1.dkim = b.1.dkim ∧ a.1.dmarc = b.1.dmarc ∧ a.2.isOk = b.2.isOk

/-- Whether `VerifyAuth` comes to the DMARC check with the SPF result `spf`. -/
def ReachesDmarc (hdrFrom : String) (spf : AuthCheckResult) : Prop :=
  cfg.spf.refuses spf = false ∧ cfg.dkim.refuses (dkimResult cfg lk) = false ∧
    cfg.dmarc.enabled ∧ hdrFrom ≠ ""

/-- What the ARC headers say agrees with the lookups, for the checks that run. -/
structure ArcAgrees (hdrFrom : String) (arc : ArcChainResult) : Prop where
  spf : (spfInput cfg ip sender).isSome → arc.spf ≠ .none → arc.spf = liveSpf cfg lk ip sender
  dmarc : ReachesDmarc cfg lk hdrFrom (liveSpf cfg lk ip sender) → arc.dmarc ≠ .none →
    arc.dmarc = liveDmarc ml cfg lk sender hdrFrom (liveSpf cfg lk ip sender)

theorem ArcChainResult.or_eq_iff (arc : ArcChainResult) (preserved live : AuthCheckResult) :
    arc.or preserved live = live ↔ (arc.passed → preserved ≠ .none → preserved = live) := by
  unfold ArcChainResult.or
  split_ifs with h
  · exact ⟨fun he _ _ => he, fun hi => hi h.1 h.2⟩
  · exact ⟨fun _ hp hn => absurd ⟨hp, hn⟩ h, fun _ => rfl⟩

@[simp] theorem ArcChainResult.zero_or (preserved live : AuthCheckResult) :
    ArcChainResult.zero.or preserved live = live := by
  simp [ArcChainResult.or, ArcChainResult.zero]

@[simp] theorem spfResult_zero : spfResult cfg lk ip sender .zero = liveSpf cfg lk ip sender := by
  unfold spfResult liveSpf
  rcases spfInput cfg ip sender with _ | a
  · rfl
  · simp

theorem spfResult_eq_iff (arc : ArcChainResult) :
    spfResult cfg lk ip sender arc = liveSpf cfg lk ip sender ↔
      (arc.passed → (spfInput cfg ip sender).isSome → arc.spf ≠ .none →
        arc.spf = liveSpf cfg lk ip sender) := by
  rcases hi : spfInput cfg ip sender with _ | a
  · simp [spfResult, liveSpf, hi]
  · simp only [spfResult, hi, Option.isSome_some, if_true, ArcChainResult.or_eq_iff, true_implies]

theorem dmarcResult_eq_iff (hdrFrom : String) (arc : ArcChainResult) (spf : AuthCheckResult) :
    dmarcResult ml cfg lk sender hdrFrom arc spf = dmarcResult ml cfg lk sender hdrFrom .zero spf ↔
      (cfg.dmarc.enabled ∧ hdrFrom ≠ "" → arc.passed → arc.dmarc ≠ .none →
        arc.dmarc = liveDmarc ml cfg lk sender hdrFrom spf) := by
  unfold dmarcResult
  split_ifs with h
  · simp only [ArcChainResult.zero_or, ArcChainResult.or_eq_iff, h, true_implies, ne_eq,
      not_false_eq_true, and_self]
  · simp only [h, false_implies]

@[simp] theorem authenticate_spf (hdrFrom : String) (arc : ArcChainResult) :
    (authenticate ml cfg lk ip sender hdrFrom arc).1.spf = spfResult cfg lk ip sender arc := by
  simp only [authenticate]
  split_ifs <;> rfl

/-- The DMARC result of a message that comes to the DMARC check. -/
theorem authenticate_dmarc {hdrFrom : String} {arc : ArcChainResult} {spf : AuthCheckResult}
    (hs : spfResult cfg lk ip sender arc = spf) (h : ReachesDmarc cfg lk hdrFrom spf) :
    (authenticate ml cfg lk ip sender hdrFrom arc).1.dmarc =
      dmarcResult ml cfg lk sender hdrFrom arc spf := by
  obtain ⟨h₁, h₂, -⟩ := h
  simp only [authenticate, hs, h₁, h₂, Bool.false_eq_true, if_false]
  split_ifs <;> rfl

/-- ARC headers change nothing exactly when they agree with the lookups. -/
theorem sameVerdict_iff (hdrFrom : String) (arc : ArcChainResult) :
    SameVerdict (authenticate ml cfg lk ip sender hdrFrom arc)
        (authenticate ml cfg lk ip sender hdrFrom .zero) ↔
      (arc.passed → ArcAgrees ml cfg lk ip sender hdrFrom arc) := by
  constructor
  · rintro ⟨hspf, -, hdmarc, -⟩ hp
    have hs : spfResult cfg lk ip sender arc = liveSpf cfg lk ip sender := by simpa using hspf
    refine ⟨(spfResult_eq_iff cfg lk ip sender arc).1 hs hp, fun hr => ?_⟩
    rw [authenticate_dmarc ml cfg lk ip sender hs hr,
      authenticate_dmarc ml cfg lk ip sender (spfResult_zero cfg lk ip sender) hr] at hdmarc
    exact (dmarcResult_eq_iff ml cfg lk sender hdrFrom arc _).1 hdmarc hr.2.2 hp
  · intro h
    have hs : spfResult cfg lk ip sender arc = liveSpf cfg lk ip sender :=
      (spfResult_eq_iff cfg lk ip sender arc).2 fun hp => (h hp).spf
    have hz := spfResult_zero cfg lk ip sender
    rcases h₁ : cfg.spf.refuses (liveSpf cfg lk ip sender) with _ | _
    · rcases h₂ : cfg.dkim.refuses (dkimResult cfg lk) with _ | _
      · have hd : dmarcResult ml cfg lk sender hdrFrom arc (liveSpf cfg lk ip sender) =
            dmarcResult ml cfg lk sender hdrFrom .zero (liveSpf cfg lk ip sender) :=
          (dmarcResult_eq_iff ml cfg lk sender hdrFrom arc _).2 fun hr hp => (h hp).dmarc ⟨h₁, h₂, hr⟩
        rcases h₃ : cfg.dmarc.refuses
            (dmarcResult ml cfg lk sender hdrFrom .zero (liveSpf cfg lk ip sender)) with _ | _ <;>
          simp [SameVerdict, authenticate, hs, hz, h₁, h₂, h₃, hd]
      · simp [SameVerdict, authenticate, hs, hz, h₁, h₂]
    · simp [SameVerdict, authenticate, hs, hz, h₁]

theorem arcKeys_noSpace (key : String) (hk : isArcKey key) : ' ' ∉ key.toList := by
  simp only [isArcKey, Bool.or_eq_true, decide_eq_true_eq] at hk
  rcases hk with rfl | rfl <;> decide

theorem checkARCChain_stripArc (u : Unicode) (raw : List String) :
    checkARCChain u (stripArc raw) = .zero := by
  have hs : values "Arc-Seal" (fields (stripArc raw)) = [] := by
    rw [stripArc, values_removeFields arcKeys_noSpace]
    rfl
  simp [checkARCChain_eq, arcChain, hs, maxValidInstance]

theorem parseHeaderFromDomain_eq (raw : List String) : parseHeaderFromDomain ml raw =
    if get "From" (fields raw) = "" then ""
    else
      match ml.plain (get "From" (fields raw)) with
      | none | some [] => ""
      | some (addr :: _) => (domainOf ml.unicode addr).getD "" := by
  unfold parseHeaderFromDomain fields
  rcases readMessage raw with _ | header
  · rfl
  · rfl

theorem hdrFromDomain_stripArc (raw : List String) :
    hdrFromDomain ml sender (stripArc raw) = hdrFromDomain ml sender raw := by
  have hf : get "From" (fields (stripArc raw)) = get "From" (fields raw) := by
    unfold Lib.get
    rw [stripArc, values_removeFields arcKeys_noSpace]
    rfl
  simp only [hdrFromDomain, parseHeaderFromDomain_eq, hf]

/-- **ARC headers are harmless exactly when they agree with the lookups.**  The
    verdict on a message is the one on the message without its ARC headers,
    unless the chain passes and says something else; no signature matters. -/
theorem arc_harmless_iff (raw : List String) :
    SameVerdict (verifyAuth ml cfg lk ip sender raw) (verifyAuth ml cfg lk ip sender (stripArc raw)) ↔
      ((checkARCChain ml.unicode raw).passed → ArcAgrees ml cfg lk ip sender
        (hdrFromDomain ml sender raw) (checkARCChain ml.unicode raw)) := by
  simp only [verifyAuth, checkARCChain_stripArc, hdrFromDomain_stripArc]
  exact sameVerdict_iff ml cfg lk ip sender _ _

end

/-! ### A forged chain -/

/-- Two From headers: the plain parser reads the first only. -/
def sampleMailLib : MailLib where
  unicode := .ascii
  plain v := if v = "CEO <ceo@bank.com>" then some ["ceo@bank.com"] else none
  decoding v :=
    if v = "CEO <ceo@bank.com>" then some ["ceo@bank.com"]
    else if v = "=?windows-1252?Q?Caf=E9?= <a@b.com>" then some ["a@b.com"]
    else none
  decoding_of_plain v addrs h := by
    split_ifs at h ⊢ with hv
    exact h
  decodeWords := some

/-- A message that brings its own seal and results. -/
def forgedMessage : List String :=
  ["From: CEO <ceo@bank.com>",
   "ARC-Seal: i=1; a=rsa-sha256; cv=none; d=evil.example; s=x; b=AAAA",
   "ARC-Authentication-Results: i=1; evil.example; spf=pass; dmarc=pass",
   "Subject: Invoice", "", "Pay now."]

/-- The address may not send for the domain, which has a DMARC record. -/
def forgedLookups : Lookups Unit := ⟨fun _ _ _ => .fail, [], fun _ => some ⟨false, false⟩⟩

/-- The forged headers turn the refusal of a message into a pass. -/
theorem forged_arc : ¬∀ valid : String → Bool,
    (∀ s ∈ values "Arc-Seal" (fields forgedMessage), valid s = false) →
      SameVerdict
        (verifyAuth sampleMailLib ⟨.enforce, .enforce, .enforce⟩ forgedLookups (some ()) "ceo@bank.com"
          forgedMessage)
        (verifyAuth sampleMailLib ⟨.enforce, .enforce, .enforce⟩ forgedLookups (some ()) "ceo@bank.com"
          (stripArc forgedMessage)) := by
  intro h
  have hspf := (h (fun _ => false) fun _ _ => rfl).1
  simp only [verifyAuth, authenticate_spf, checkARCChain_stripArc, spfResult_zero] at hspf
  revert hspf
  decide +kernel

/-! ## The From header that users see -/

section
variable (ml : MailLib) (sender : String)

@[simp] theorem domainOf_empty (u : Unicode) : domainOf u "" = none := by
  simp [domainOf, cut, cutChars]

theorem headerFromDomain_eq {readBody} {raw : List String} {email : ParsedEmail}
    (h : parseEmail ml readBody raw = some email) (hd : email.headerFromDomain ml.unicode ≠ "") :
    ∃ addr rest, parseAddressList ml (get "From" (fields raw)) = addr :: rest ∧
      domainOf ml.unicode addr = some (email.headerFromDomain ml.unicode) := by
  have hf := parseEmail_from ml h
  unfold ParsedEmail.headerFromDomain at hd ⊢
  rw [hf] at hd ⊢
  rcases hl : parseAddressList ml (get "From" (fields raw)) with _ | ⟨addr, rest⟩
  · simp [hl] at hd
  · refine ⟨addr, rest, rfl, ?_⟩
    simp only [hl, List.headD_cons] at hd ⊢
    rcases hdom : domainOf ml.unicode addr with _ | d
    · simp [hdom] at hd
    · rfl

/-- **DMARC looks at the From header that users see exactly when the plain
    parser reads it**, or the envelope sender has the same domain. -/
theorem header_from_authenticated_iff {readBody} {raw : List String} {email : ParsedEmail}
    (h : parseEmail ml readBody raw = some email) (hd : email.headerFromDomain ml.unicode ≠ "") :
    hdrFromDomain ml sender raw = email.headerFromDomain ml.unicode ↔
      (ml.plain (get "From" (fields raw))).isSome ∨
        ((parseAddressList ml (get "From" (fields raw))).head?.bind (domainOf ml.unicode)) =
          some (envelopeFromDomain sender) := by
  obtain ⟨addr, rest, hl, hdom⟩ := headerFromDomain_eq ml h hd
  have hv : trimSpace (get "From" (fields raw)) ≠ "" := by
    intro hv
    simp [parseAddressList, hv] at hl
  have hne : get "From" (fields raw) ≠ "" := by
    intro he
    exact hv (by rw [he]; decide)
  rcases hp : ml.plain (get "From" (fields raw)) with _ | addrs
  · have : hdrFromDomain ml sender raw = envelopeFromDomain sender := by
      simp [hdrFromDomain, parseHeaderFromDomain_eq, hp]
    simp [this, hl, hdom, eq_comm]
  · have ha : addrs = addr :: rest := (parseAddressList_of_plain ml hp hv).symm.trans hl
    have : hdrFromDomain ml sender raw = email.headerFromDomain ml.unicode := by
      simp [hdrFromDomain, parseHeaderFromDomain_eq, hp, hne, ha, hdom, hd]
    simp [this]

end

/-- A From header in a charset that only the lenient reading decodes. -/
def charsetMessage : List String := ["From: =?windows-1252?Q?Caf=E9?= <a@b.com>", "", "Hello."]

def charsetEmail : ParsedEmail where
  from_ := "a@b.com"
  to_ := []
  cc := []
  subject := ""
  textBody := "Hello."
  htmlBody := ""
  headers := [("From", ["=?windows-1252?Q?Caf=E9?= <a@b.com>"])]
  attachments := []
  authResult := none
  envelopeFrom := ""
  envelopeTo := []

def plainBody (_ : List (String × String)) (lines : List String) : Option MailBody :=
  some ⟨String.intercalate "\n" lines, "", []⟩

theorem parseEmail_charset : parseEmail sampleMailLib plainBody charsetMessage = some charsetEmail := by
  decide +kernel

theorem header_from_authenticated_sample :
    hdrFromDomain sampleMailLib "news@b.com" charsetMessage = charsetEmail.headerFromDomain .ascii :=
  (header_from_authenticated_iff sampleMailLib "news@b.com" parseEmail_charset (by decide +kernel)).2
    (Or.inr (by decide +kernel))

/-- Mail from `b.com`, to its reader, is authenticated against the domain of
    the envelope sender. -/
theorem charset_from_unauthenticated : ¬∀ (sender : String) (raw : List String) (email : ParsedEmail),
    parseEmail sampleMailLib plainBody raw = some email →
      email.headerFromDomain .ascii ≠ "" →
        ¬((checkARCChain .ascii raw).passed ∧ (checkARCChain .ascii raw).dmarc ≠ .none) →
          hdrFromDomain sampleMailLib sender raw = email.headerFromDomain .ascii := by
  intro h
  have hd := h "x@evil.example" charsetMessage charsetEmail parseEmail_charset (by decide +kernel)
    (by decide +kernel)
  revert hd
  decide +kernel

end Mailrelay
