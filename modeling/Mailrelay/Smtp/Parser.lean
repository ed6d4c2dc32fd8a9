/-
  Reading a message (`internal/smtp/parser.go`): the headers that `ParseEmail`
  fills in, and the lenient reading of address headers.

  `MailLib` collects what comes from `net/mail` and `mime`: the strict address
  list parsers and the decoder of encoded words.  The parser that decodes more
  charsets reads what the plain one reads (`decoding_of_plain`).  The reading
  of the body is a parameter of `parseEmail`.
-/
import Mathlib.Data.List.TakeWhile
import Mailrelay.Lib.Mail
import Mailrelay.Rules.Engine

namespace Mailrelay

open Lib

/-- What `net/mail` and `mime` provide; an address list is given by the
    addresses, without the names. -/
structure MailLib where
  unicode : Unicode
  /-- `mail.ParseAddressList` -/
  plain : String → Option (List String)
  /-- `addressParser.ParseList` -/
  decoding : String → Option (List String)
  decoding_of_plain : ∀ v addrs, plain v = some addrs → decoding v = some addrs
  /-- `headerDecoder.DecodeHeader` -/
  decodeWords : String → Option String

/-! ## Loose addresses -/

/-- The class ``[^\s<>()\[\]",;:@]`` of `looseAddrRe`. -/
def isLooseChar (c : Char) : Bool := !("\t\n\x0c\r <>()[]\",;:@".toList.contains c)

/-- The match of `looseAddrRe` at the start of a text.  `@` is not in the
    class, so that the longest run before it is the only one that can match. -/
def looseMatch? (cs : List Char) : Option (List Char) :=
  let user := cs.takeWhile isLooseChar
  match cs.dropWhile isLooseChar with
  | '@' :: rest =>
    let domain := rest.takeWhile isLooseChar
    if user = [] ∨ domain = [] then none else some (user ++ '@' :: domain)
  | _ => none

/-- The matches of `looseAddrRe`, after `skip` characters that belong to the
    match before. -/
def looseMatches : ℕ → List Char → List String
  | _, [] => []
  | skip + 1, _ :: cs => looseMatches skip cs
  | 0, c :: cs =>
    match looseMatch? (c :: cs) with
    | some m => String.ofList m :: looseMatches (m.length - 1) cs
    | none => looseMatches 0 cs

/-- `looseAddrRe.FindAllString` -/
def looseAddrs (s : String) : List String := looseMatches 0 s.toList

theorem looseMatch?_eq_some {cs m : List Char} (h : looseMatch? cs = some m) :
    ∃ user domain, m = user ++ '@' :: domain ∧ user ≠ [] ∧ domain ≠ [] ∧
      (∀ c ∈ user, isLooseChar c) ∧ ∀ c ∈ domain, isLooseChar c := by
  unfold looseMatch? at h
  split at h
  · next rest _ =>
    simp only at h
    split_ifs at h with hne
    rw [not_or] at hne
    cases h
    exact ⟨_, _, rfl, hne.1, hne.2, fun c hc => List.mem_takeWhile_imp hc,
      fun c hc => List.mem_takeWhile_imp hc⟩
  · cases h

theorem mem_looseMatches {addr : String} {skip : ℕ} {cs : List Char}
    (h : addr ∈ looseMatches skip cs) : ∃ cs' m, looseMatch? cs' = some m ∧ addr = String.ofList m := by
  induction cs generalizing skip with
  | nil => cases skip <;> cases h
  | cons c cs ih =>
    cases skip with
    | succ skip => exact ih h
    | zero =>
      rw [looseMatches] at h
      split at h
      · next m hm =>
        rcases List.mem_cons.1 h with rfl | h
        · exact ⟨_, m, hm, rfl⟩
        · exact ih h
      · exact ih h

/-- Every loose address has a domain. -/
theorem domainOf_looseAddrs (u : Unicode) {addr s : String} (h : addr ∈ looseAddrs s) :
    ∃ domain ≠ "", domainOf u addr = some domain := by
  obtain ⟨cs, m, hm, rfl⟩ := mem_looseMatches h
  obtain ⟨user, domain, rfl, -, hd, hu, -⟩ := looseMatch?_eq_some hm
  have hat : '@' ∉ user := fun hat => by
    have := hu _ hat
    revert this
    decide
  refine ⟨u.lower (String.ofList domain), ?_, ?_⟩
  · simpa [Unicode.lower] using hd
  · simp [domainOf, cut, cutChars_append_cons hat]

/-- The text after the last `sep` (`strings.LastIndex`). -/
def afterLast? (sep : Char) (s : String) : Option String :=
  if sep ∈ s.toList then some (String.ofList (s.toList.reverse.takeWhile (· ≠ sep)).reverse) else none

/-- The first loose address after the last `<` of each segment that ends at a `>`. -/
def bracketedAddrs (v : String) : List String :=
  (split '>' v).filterMap fun seg => (afterLast? '<' seg).bind fun rest => (looseAddrs rest).head?

section
variable (ml : MailLib)

def parseAddressList (v : String) : List String :=
  if trimSpace v = "" then []
  else
    match ml.decoding v with
    | some addrs => addrs
    | none => if bracketedAddrs v ≠ [] then bracketedAddrs v else looseAddrs v

/-- What the strict parser reads is what the lenient one reads. -/
theorem parseAddressList_of_plain {v : String} {addrs : List String} (h : ml.plain v = some addrs)
    (hv : trimSpace v ≠ "") : parseAddressList ml v = addrs := by
  rw [parseAddressList, if_neg hv, ml.decoding_of_plain v addrs h]

/-! ## ParseEmail -/

def decodeHeader (v : String) : String := (ml.decodeWords v).getD v

structure MailBody where
  textBody : String
  htmlBody : String
  attachments : List Attachment

/-- `msg.Header` -/
def mailHeader (fs : List (String × String)) : MailHeader :=
  (fs.map Prod.fst).dedup.map fun key => (key, values key fs)

/-- The lines after the blank line that ends the header. -/
def bodyLines (raw : List String) : List String := (raw.dropWhile (· ≠ "")).tail

/-- `ParseEmail`; `none` stands for its errors, whose texts only reach the log. -/
def parseEmail (readBody : List (String × String) → List String → Option MailBody)
    (raw : List String) : Option ParsedEmail :=
  match readMessage raw with
  | none => none
  | some fs =>
    match readBody fs (bodyLines raw) with
    | none => none
    | some body => some {
        from_ := (parseAddressList ml (get "From" fs)).headD ""
        to_ := parseAddressList ml (get "To" fs)
        cc := parseAddressList ml (get "Cc" fs)
        subject := decodeHeader ml (get "Subject" fs)
        textBody := body.textBody
        htmlBody := body.htmlBody
        headers := mailHeader fs
        attachments := body.attachments
        authResult := none
        envelopeFrom := ""
        envelopeTo := [] }

theorem parseEmail_from {readBody} {raw : List String} {email : ParsedEmail}
    (h : parseEmail ml readBody raw = some email) :
    email.from_ = (parseAddressList ml (get "From" (fields raw))).headD "" := by
  unfold parseEmail at h
  split at h
  · cases h
  · next fs hfs =>
    split at h
    · cases h
    · cases h
      simp only [fields, hfs, Option.getD_some]

end

end Mailrelay
