/-
  The domain of an address, for all who read it: the domains of an email
  (`internal/models`), the From header and the sender for SPF
  (`internal/smtp/auth.go`), and logins by email (`internal/httpauth`).

  `emailAllowed` splits at the last `@`, after trimming the address; all others
  split at the first one.

  * `domainOf_address`: what they find when the user part may have an `@`;
  * `emailDomain?_address`: what `emailAllowed` finds;
  * `addresses_iff`: the main result.
-/
import Mathlib.Data.List.Dedup
import Mailrelay.Httpauth.Session
import Mailrelay.Lib.Case
import Mailrelay.Smtp.Auth

namespace Mailrelay

open Lib

def address (user domain : String) : String := user ++ "@" ++ domain

/-- The domain that `emailAllowed` compares with the allowed ones. -/
def emailDomain? (u : Unicode) (email : String) : Option String :=
  match cutChars '@' (u.lower (trimSpace email)).toList.reverse with
  | none => none
  | some (domain, before) =>
    if before = [] ∨ domain = [] then none else some (String.ofList domain.reverse)

theorem emailAllowed_eq (lib : AuthLib) (email : String) (allowedDomains : List String) :
    emailAllowed lib email allowedDomains =
      (emailDomain? lib.unicode email).any fun domain =>
        allowedDomains.any fun d => lib.unicode.equalFold (trimSpace d) domain := by
  simp only [emailAllowed, emailDomain?]
  rcases cutChars '@' (lib.unicode.lower (trimSpace email)).toList.reverse with _ | ⟨domain, before⟩
  · rfl
  · rcases before with _ | ⟨c, before⟩
    · simp
    · rcases domain with _ | ⟨d, domain⟩
      · simp
      · simp

/-- Every reader of the address finds its domain. -/
structure Reads (ml : MailLib) (user domain : String) : Prop where
  fromDomain : ∀ e : ParsedEmail, e.envelopeFrom = address user domain →
    e.fromDomain ml.unicode = ml.unicode.lower domain
  headerFromDomain : ∀ e : ParsedEmail, e.from_ = address user domain →
    e.headerFromDomain ml.unicode = ml.unicode.lower domain
  toDomains : ∀ e : ParsedEmail, address user domain ∈ e.envelopeTo →
    ml.unicode.lower domain ∈ e.toDomains ml.unicode
  toDomains_only : ∀ e : ParsedEmail, e.envelopeTo = [address user domain] →
    e.toDomains ml.unicode = [ml.unicode.lower domain]
  headerToDomains : ∀ e : ParsedEmail, address user domain ∈ e.to_ →
    ml.unicode.lower domain ∈ e.headerToDomains ml.unicode
  headerToDomains_only : ∀ e : ParsedEmail, e.to_ = [address user domain] →
    e.headerToDomains ml.unicode = [ml.unicode.lower domain]
  parseHeaderFromDomain : ∀ (raw rest : List String), get "From" (fields raw) ≠ "" →
    ml.plain (get "From" (fields raw)) = some (address user domain :: rest) →
    parseHeaderFromDomain ml raw = ml.unicode.lower domain
  /-- the domain that the SPF check of `VerifyAuth` asks for -/
  liveSpf : ∀ (IP : Type) (cfg : AuthConfig) (lk : Lookups IP) (ip : IP), cfg.spf.enabled →
    liveSpf cfg lk (some ip) (address user domain) = spfCheck (lk.spf ip domain (address user domain))
  emailAllowed : emailDomain? ml.unicode (address user domain) = some (ml.unicode.lower domain)

/-! ## The first `@` -/

section
variable {user domain : String}

@[simp] theorem toList_address : (address user domain).toList = user.toList ++ '@' :: domain.toList := by
  simp [address]

theorem cut_address (h : '@' ∉ user.toList) : cut '@' (address user domain) = some (user, domain) := by
  simp [cut, cutChars_append_cons h]

/-- An earlier `@` makes the domain longer. -/
theorem cut_address_of_mem (domain : String) (h : '@' ∈ user.toList) : ∃ user' domain',
    cut '@' (address user domain) = some (user', domain') ∧
      domain.toList.length < domain'.toList.length := by
  obtain ⟨l, r, hlr, hl⟩ := List.eq_append_cons_of_mem h
  refine ⟨String.ofList l, String.ofList (r ++ '@' :: domain.toList), ?_, ?_⟩
  · simp [cut, hlr, cutChars_append_cons hl]
  · simp
    omega

/-- **Who splits at the first `@` finds the domain exactly if the user part has none.** -/
theorem domainOf_address (u : Unicode) :
    domainOf u (address user domain) = some (u.lower domain) ↔ '@' ∉ user.toList := by
  constructor
  · intro h hat
    obtain ⟨user', domain', hcut, hlen⟩ := cut_address_of_mem domain hat
    rw [domainOf, hcut, Option.map_some, Option.some.injEq] at h
    have := congrArg (fun s => s.toList.length) h
    simp only [Unicode.length_lower] at this
    omega
  · intro h
    rw [domainOf, cut_address h, Option.map_some]

theorem envelopeFromDomain_address (h : '@' ∉ user.toList) :
    envelopeFromDomain (address user domain) = domain := by
  simp [envelopeFromDomain, cut_address h]

/-! ## The last `@` -/

theorem toList_trimSpace_address : (trimSpace (address user domain)).toList =
    user.toList.dropWhile isSpace ++ '@' :: domain.toList.rdropWhile isSpace := by
  have hat : isSpace '@' = false := by decide
  have hdrop : (address user domain).toList.dropWhile isSpace =
      user.toList.dropWhile isSpace ++ '@' :: domain.toList := by
    rw [toList_address, List.dropWhile_append]
    split_ifs with hnil
    · rw [List.isEmpty_iff.1 hnil]
      simp [hat]
    · rfl
  rw [toList_trimSpace, hdrop, rdropWhile_append_cons hat]

/-- **What `emailAllowed` finds.** -/
theorem emailDomain?_address {u : Unicode} (hu : u.Regular) (hat : '@' ∉ domain.toList) :
    emailDomain? u (address user domain) =
      if trimSpace user = "" ∨ domain.toList.rdropWhile isSpace = [] then none
      else some (u.lower (String.ofList (domain.toList.rdropWhile isSpace))) := by
  have hself : u.toLower '@' = '@' := (hu.toLower_eq_iff (by decide) (by decide) '@').2 rfl
  have hrev : (u.lower (trimSpace (address user domain))).toList.reverse =
      ((domain.toList.rdropWhile isSpace).map u.toLower).reverse ++
        '@' :: ((user.toList.dropWhile isSpace).map u.toLower).reverse := by
    rw [Unicode.toList_lower, toList_trimSpace_address]
    simp [hself]
  have hnotMem : '@' ∉ ((domain.toList.rdropWhile isSpace).map u.toLower).reverse := by
    intro h
    rw [List.mem_reverse, List.mem_map] at h
    obtain ⟨c, hc, he⟩ := h
    rw [hu.toLower_eq_iff (by decide) (by decide)] at he
    exact hat (he ▸ (List.rdropWhile_prefix isSpace _).subset hc)
  have huser : user.toList.dropWhile isSpace = [] ↔ trimSpace user = "" := by
    rw [List.dropWhile_eq_nil_iff, trimSpace_eq_empty]
  rw [emailDomain?, hrev, cutChars_append_cons hnotMem]
  simp only [List.reverse_eq_nil_iff, List.map_eq_nil_iff, huser, List.reverse_reverse]
  split_ifs
  · rfl
  · simp [Unicode.lower]

theorem emailDomain?_address_iff {u : Unicode} (hu : u.Regular) (hdomain : domain ≠ "")
    (hat : '@' ∉ domain.toList) :
    emailDomain? u (address user domain) = some (u.lower domain) ↔
      trimSpace user ≠ "" ∧ ∀ c ∈ domain.toList.getLast?, isSpace c = false := by
  have hlast : domain.toList.rdropWhile isSpace = domain.toList ↔
      ∀ c ∈ domain.toList.getLast?, isSpace c = false := by
    rw [List.rdropWhile_eq_self_iff]
    constructor
    · intro h c hc
      obtain ⟨hne, rfl⟩ := List.mem_getLast?_eq_getLast hc
      simpa using h hne
    · intro h hne
      simpa using h _ (List.getLast?_eq_some_getLast hne)
  rw [emailDomain?_address hu hat, ← hlast]
  constructor
  · intro h
    split_ifs at h with hnone
    rw [not_or] at hnone
    refine ⟨hnone.1, (List.rdropWhile_prefix isSpace _).eq_of_length ?_⟩
    have := congrArg (fun s => s.toList.length) (Option.some.inj h)
    simpa [Unicode.length_lower] using this
  · rintro ⟨huser, hd⟩
    have : domain.toList ≠ [] := mt String.toList_eq_nil_iff.1 hdomain
    rw [hd, if_neg (not_or.2 ⟨huser, this⟩), String.ofList_toList]

end

/-! ## All readers -/

section
variable {ml : MailLib} {user domain : String}

theorem mem_dedup_domains {u : Unicode} {addrs : List String} {addr d : String} (h : addr ∈ addrs)
    (hd : domainOf u addr = some d) : d ∈ (addrs.filterMap (domainOf u)).reverse.dedup.reverse := by
  rw [List.mem_reverse, List.mem_dedup, List.mem_reverse, List.mem_filterMap]
  exact ⟨addr, h, hd⟩

/-- **Every reader finds the domain** exactly if the user part has no `@` and
    trimming takes nothing away that matters. -/
theorem addresses_iff (hu : ml.unicode.Regular) (hdomain : domain ≠ "") (hat : '@' ∉ domain.toList) :
    Reads ml user domain ↔
      '@' ∉ user.toList ∧ trimSpace user ≠ "" ∧ ∀ c ∈ domain.toList.getLast?, isSpace c = false := by
  constructor
  · intro h
    refine ⟨?_, (emailDomain?_address_iff hu hdomain hat).1 h.emailAllowed⟩
    intro hmem
    have hfrom := h.fromDomain ⟨"", [], [], "", "", "", [], [], none, address user domain, []⟩ rfl
    obtain ⟨user', domain', hcut, -⟩ := cut_address_of_mem domain hmem
    simp only [ParsedEmail.fromDomain, domainOf, hcut, Option.map_some, Option.getD_some] at hfrom
    have hdom : domainOf ml.unicode (address user domain) = some (ml.unicode.lower domain) := by
      rw [domainOf, hcut, Option.map_some, hfrom]
    exact (domainOf_address ml.unicode).1 hdom hmem
  · rintro ⟨huser, hspace⟩
    have hdom : domainOf ml.unicode (address user domain) = some (ml.unicode.lower domain) :=
      (domainOf_address ml.unicode).2 huser
    have henv : envelopeFromDomain (address user domain) = domain := envelopeFromDomain_address huser
    exact {
      fromDomain := fun e he => by rw [ParsedEmail.fromDomain, he, hdom]; rfl
      headerFromDomain := fun e he => by rw [ParsedEmail.headerFromDomain, he, hdom]; rfl
      toDomains := fun e he => mem_dedup_domains he hdom
      toDomains_only := fun e he => by simp [ParsedEmail.toDomains, he, hdom]
      headerToDomains := fun e he => mem_dedup_domains he hdom
      headerToDomains_only := fun e he => by simp [ParsedEmail.headerToDomains, he, hdom]
      parseHeaderFromDomain := fun raw rest hne hplain => by
        simp [parseHeaderFromDomain_eq, hne, hplain, hdom]
      liveSpf := fun IP cfg lk ip hcfg => by
        simp [Mailrelay.liveSpf, spfInput, henv, hcfg, hdomain]
      emailAllowed := (emailDomain?_address_iff hu hdomain hat).2 hspace }

end

/-! ## Two addresses -/

def addressLib : MailLib where
  unicode := .ascii
  plain v := some [v]
  decoding v := some [v]
  decoding_of_plain _ _ h := h
  decodeWords _ := none

theorem addresses_iff_plain : Reads addressLib "a.b" "Example.com" :=
  (addresses_iff ascii_regular (by decide) (by decide)).2 ⟨by decide, by decide, by simp [isSpace]⟩

/-- `"a@b.com"@evil.example` -/
theorem quoted_user_misread : ¬∀ user domain : String, user ≠ "" → domain ≠ "" → '@' ∉ domain.toList →
    Reads addressLib user domain := by
  intro h
  have hread := h "\"a@b.com\"" "evil.example" (by decide) (by decide) (by decide)
  have hfrom := hread.fromDomain
    ⟨"", [], [], "", "", "", [], [], none, address "\"a@b.com\"" "evil.example", []⟩ rfl
  revert hfrom
  decide +kernel

end Mailrelay
