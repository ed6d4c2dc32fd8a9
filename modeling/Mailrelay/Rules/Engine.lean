/-
  The rule engine (`internal/rules/engine.go`) and the domains of an email
  (`internal/models`).

  Regular expressions and globs come from Go's libraries: `Patterns` collects
  `regexp.Compile` with `MatchString` and `path.Match`, both of which may
  report a bad pattern.
-/
import Mailrelay.Lib.Mail
import Mailrelay.Models

namespace Mailrelay

open Lib

structure Patterns where
  unicode : Unicode
  /-- `regexp.Compile` and `MatchString` -/
  regexp : String → Option (String → Bool)
  /-- `path.Match` -/
  pathMatch : String → String → Option Bool

/-! ## Domains -/

/-- The text after the first `@`, in lower case. -/
def domainOf (u : Unicode) (addr : String) : Option String :=
  (cut '@' addr).map fun parts => u.lower parts.2

namespace ParsedEmail

def fromDomain (u : Unicode) (e : ParsedEmail) : String := (domainOf u e.envelopeFrom).getD ""

def headerFromDomain (u : Unicode) (e : ParsedEmail) : String := (domainOf u e.from_).getD ""

def toDomains (u : Unicode) (e : ParsedEmail) : List String :=
  (e.envelopeTo.filterMap (domainOf u)).reverse.dedup.reverse

def headerToDomains (u : Unicode) (e : ParsedEmail) : List String :=
  (e.to_.filterMap (domainOf u)).reverse.dedup.reverse

end ParsedEmail

/-! ## Matching -/

def MatcherConfig.effectiveMode (m : MatcherConfig) : String :=
  if m.mode = "any" then "any" else "all"

/-- A pattern in slashes is a regular expression, any other one a glob that
    ignores case. -/
def matchPattern (ps : Patterns) (pattern value : String) : Bool :=
  let pattern := trimSpace pattern
  let value := trimSpace value
  let cs := pattern.toList
  if 2 ≤ cs.length ∧ cs.head? = some '/' ∧ cs.getLast? = some '/' then
    match ps.regexp (String.ofList (cs.tail.dropLast)) with
    | none => false
    | some re => re value
  else (ps.pathMatch (ps.unicode.lower pattern) (ps.unicode.lower value)).getD false

def matchAny (ps : Patterns) (pattern : String) (values : List String) : Bool :=
  values.any (matchPattern ps pattern)

def matchCondition (ps : Patterns) (c : MatchCondition) (email : ParsedEmail) : Bool :=
  match c.field with
  | "from" => matchPattern ps c.pattern email.from_
  | "to" => matchAny ps c.pattern email.to_
  | "cc" => matchAny ps c.pattern email.cc
  | "mail_from" => matchPattern ps c.pattern email.envelopeFrom
  | "rcpt_to" => matchAny ps c.pattern email.envelopeTo
  | "subject" => matchPattern ps c.pattern email.subject
  | "from_domain" => matchPattern ps c.pattern (email.headerFromDomain ps.unicode)
  | "to_domain" => matchAny ps c.pattern (email.headerToDomains ps.unicode)
  | "mail_from_domain" => matchPattern ps c.pattern (email.fromDomain ps.unicode)
  | "rcpt_to_domain" => matchAny ps c.pattern (email.toDomains ps.unicode)
  | "header" =>
    if c.header = "" then false
    else matchAny ps c.pattern ((email.headers.lookup (canonicalKey c.header)).getD [])
  | "body" => matchPattern ps c.pattern email.textBody || matchPattern ps c.pattern email.htmlBody
  | _ => false

/-- The loop over the conditions. -/
def matchConditions (ps : Patterns) (mode : String) (email : ParsedEmail) :
    List MatchCondition → Bool
  | [] => decide (mode = "all")
  | cond :: conds =>
    let hit := matchCondition ps cond email
    if mode = "any" ∧ hit then true
    else if mode = "all" ∧ !hit then false
    else matchConditions ps mode email conds

/-- Without conditions a rule is a catch-all. -/
def matchRule (ps : Patterns) (m : MatcherConfig) (email : ParsedEmail) : Bool :=
  if m.conditions.length = 0 then true
  else matchConditions ps m.effectiveMode email m.conditions

/-- `Engine.Match`, on the rules that the engine holds. -/
def engineMatch (ps : Patterns) (rules : List Rule) (email : ParsedEmail) : List Rule :=
  rules.filter fun rule => matchRule ps rule.«match» email

end Mailrelay
