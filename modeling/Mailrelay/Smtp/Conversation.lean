/-
  SMTP conversations (`internal/smtp/server.go`).

  The SMTP library calls `NewSession` for every connection, again after
  STARTTLS, and then `Mail`, `Rcpt`, `Data` and `Reset` on the session; the
  sessions of several connections interleave, and `SetAuthConfig` may replace
  the authentication modes at any time.

  * `talks_concat`: the sessions agree with the history of the calls;
  * `data_as_told`: every call of `Data` goes by the history of its connection;
  * `handed_over_checked`: what the handler is given, when the library calls
    the session in the order of the protocol.
-/
import Mathlib.Data.List.Induction
import Mailrelay.Lib.Glob
import Mailrelay.Lib.History
import Mailrelay.Smtp.Modes

namespace Mailrelay

open Lib

/-! ## Sessions -/

/-- `SMTPConfig`, as far as the server reads it itself. -/
structure SmtpConfig where
  tlsCert : String
  tlsKey : String
  requireTLS : Bool
  allowedRecipients : List String
  deriving DecidableEq, Repr

/-- The `session` of a connection, with the address that its peer has. -/
structure SmtpSession (IP : Type) where
  tls : Bool
  remoteAddr : Option IP
  sender : String
  recipients : List String
  deriving DecidableEq

namespace SmtpSession

variable {IP : Type}

/-- `NewSession` -/
def new (tls : Bool) (remoteAddr : Option IP) : SmtpSession IP := ⟨tls, remoteAddr, "", []⟩

def reset (s : SmtpSession IP) : SmtpSession IP := { s with sender := "", recipients := [] }

end SmtpSession

section
variable (u : Unicode) (cfg : SmtpConfig)

def matchRecipient (recipient : String) (patterns : List String) : Bool :=
  patterns.any fun pattern => pathMatch (u.lower pattern) (u.lower recipient) == some true

/-- `Mail` accepts the sender. -/
def acceptsMail (tls : Bool) : Bool := !(cfg.requireTLS && !tls)

/-- `Rcpt` accepts the recipient. -/
def acceptsRcpt (recipient : String) : Bool :=
  !(decide (cfg.allowedRecipients.length > 0) && !matchRecipient u recipient cfg.allowedRecipients)

/-- `Mail`: the session after it, and the reply. -/
def SmtpSession.mail {IP : Type} (s : SmtpSession IP) (sender : String) :
    SmtpSession IP × Except DataError Unit :=
  if acceptsMail cfg s.tls then ({ s with sender := sender }, .ok ())
  else (s, .error (.smtp 530 (5, 7, 0) "Must issue STARTTLS first"))

/-- `Rcpt`: the session after it, and the reply. -/
def SmtpSession.rcpt {IP : Type} (s : SmtpSession IP) (recipient : String) :
    SmtpSession IP × Except DataError Unit :=
  if acceptsRcpt u cfg recipient then ({ s with recipients := s.recipients ++ [recipient] }, .ok ())
  else (s, .error (.smtp 550 (5, 7, 1) "Recipient not allowed"))

end

/-! ## Data -/

/-- A message, as `Data` reads it, and what the lookups give for it. -/
structure SmtpMessage (IP : Type) where
  /-- the lines, or the error of `io.ReadAll` -/
  raw : Except String (List String)
  lookups : Lookups IP

/-- A call of the rejection handler. -/
structure Rejection where
  sender : String
  recipients : List String
  authResult : AuthResult
  raw : List String
  reason : String

/-- What a call of `Data` does: the handler or the rejection handler may be
    called, and the library gets a reply. -/
structure DataCall where
  conn : ℕ
  handed : Option (ParsedEmail × List String)
  rejected : Option Rejection
  reply : Except DataError Unit

/-- The fixed parts of a server. -/
structure SmtpServer where
  ml : MailLib
  readBody : List (String × String) → List String → Option MailBody
  cfg : SmtpConfig
  /-- whether a rejection handler is set -/
  rejects : Bool

section
variable {IP : Type} (srv : SmtpServer)

/-- `Data` of the session `s`, with the authentication modes that it reads and
    the result of the handler if that is called. -/
def SmtpServer.data (auth : AuthConfig) (conn : ℕ) (s : SmtpSession IP) (m : SmtpMessage IP)
    (result : Except HandlerError Unit) : DataCall :=
  match m.raw with
  | .error e => ⟨conn, none, none, .error (.reading ("reading email data: " ++ e))⟩
  | .ok raw =>
    let verified := verifyAuth srv.ml auth m.lookups s.remoteAddr s.sender raw
    let authResult := { verified.1 with tls := s.tls }
    match verified.2 with
    | .error e =>
      ⟨conn, none, if srv.rejects then some ⟨s.sender, s.recipients, authResult, raw, e⟩ else none,
        .error (.smtp 550 (5, 7, 1) e)⟩
    | .ok () =>
      match parseEmail srv.ml srv.readBody raw with
      | none => ⟨conn, none, none, .error (.smtp 550 (5, 6, 0) "Failed to parse email")⟩
      | some email =>
        let email := { email with
          envelopeFrom := s.sender, envelopeTo := s.recipients, authResult := some authResult }
        ⟨conn, some (email, raw), none, replyTo result⟩

/-- What `Data` computes before the handler. -/
def SmtpServer.incoming (auth : AuthConfig) (s : SmtpSession IP) (m : SmtpMessage IP) : Incoming where
  raw := m.raw.map fun _ => ()
  auth := verifyAuth srv.ml auth m.lookups s.remoteAddr s.sender (m.raw.toOption.getD [])
  parsed := match parseEmail srv.ml srv.readBody (m.raw.toOption.getD []) with
    | none => .error ""
    | some email => .ok email

@[simp] theorem SmtpServer.data_conn (auth : AuthConfig) (conn : ℕ) (s : SmtpSession IP)
    (m : SmtpMessage IP) (result : Except HandlerError Unit) :
    (srv.data auth conn s m result).conn = conn := by
  unfold SmtpServer.data
  cases m.raw with
  | error e => rfl
  | ok raw =>
    cases hv : (verifyAuth srv.ml auth m.lookups s.remoteAddr s.sender raw).2 with
    | error e => simp [hv]
    | ok => cases hp : parseEmail srv.ml srv.readBody raw <;> simp [hv, hp]

/-- The handler is given what `receive` returns, and its errors are the reply. -/
theorem SmtpServer.data_receive (auth : AuthConfig) (conn : ℕ) (s : SmtpSession IP)
    (m : SmtpMessage IP) (result : Except HandlerError Unit) :
    match receive s.sender s.recipients s.tls (srv.incoming auth s m) with
    | .error e => (srv.data auth conn s m result).handed = none ∧
        (srv.data auth conn s m result).reply = .error e
    | .ok email => (∃ raw, m.raw = .ok raw ∧ (srv.data auth conn s m result).handed = some (email, raw)) ∧
        (srv.data auth conn s m result).reply = replyTo result := by
  unfold receive SmtpServer.incoming SmtpServer.data
  cases hraw : m.raw with
  | error e => exact ⟨rfl, rfl⟩
  | ok raw =>
    simp only [Except.map, Except.toOption, Option.getD_some]
    cases hv : (verifyAuth srv.ml auth m.lookups s.remoteAddr s.sender raw).2 with
    | error e => exact ⟨rfl, rfl⟩
    | ok =>
      cases hp : parseEmail srv.ml srv.readBody raw with
      | none => exact ⟨rfl, rfl⟩
      | some email => exact ⟨⟨raw, rfl, rfl⟩, rfl⟩

/-! ## Conversations -/

inductive SmtpEvent (IP : Type) where
  /-- with the state of TLS and the address of the connection -/
  | newSession (conn : ℕ) (tls : Bool) (remoteAddr : Option IP)
  | reset (conn : ℕ)
  | mail (conn : ℕ) (sender : String)
  | rcpt (conn : ℕ) (recipient : String)
  /-- with the result of the handler, if it is called -/
  | data (conn : ℕ) (message : SmtpMessage IP) (result : Except HandlerError Unit)
  | setAuthConfig (auth : AuthConfig)

structure SmtpWorld (IP : Type) where
  auth : AuthConfig
  sessions : ℕ → Option (SmtpSession IP)
  /-- the calls of `Data`, in order -/
  calls : List DataCall

namespace SmtpWorld

def start (auth : AuthConfig) : SmtpWorld IP := ⟨auth, fun _ => none, []⟩

def set (w : SmtpWorld IP) (conn : ℕ) (s : SmtpSession IP) : SmtpWorld IP :=
  { w with sessions := Function.update w.sessions conn (some s) }

def step (w : SmtpWorld IP) : SmtpEvent IP → Option (SmtpWorld IP)
  | .newSession conn tls remoteAddr => some (w.set conn (.new tls remoteAddr))
  | .reset conn => (w.sessions conn).map fun s => w.set conn s.reset
  | .mail conn sender => (w.sessions conn).map fun s => w.set conn (s.mail srv.cfg sender).1
  | .rcpt conn recipient =>
    (w.sessions conn).map fun s => w.set conn (s.rcpt srv.ml.unicode srv.cfg recipient).1
  | .data conn message result =>
    (w.sessions conn).map fun s =>
      { w with calls := w.calls ++ [srv.data w.auth conn s message result] }
  | .setAuthConfig auth => some { w with auth := auth }

end SmtpWorld

/-! ## What the history says -/

namespace SmtpEvent

/-- The event is a call for the connection that ends what was said before. -/
def ends (conn : ℕ) : SmtpEvent IP → Bool
  | newSession c _ _ => c == conn
  | reset c => c == conn
  | _ => false

def opens? (conn : ℕ) : SmtpEvent IP → Option (Bool × Option IP)
  | newSession c tls remoteAddr => if c = conn then some (tls, remoteAddr) else none
  | _ => none

def sender? (conn : ℕ) : SmtpEvent IP → Option String
  | mail c sender => if c = conn then some sender else none
  | _ => none

def recipient? (conn : ℕ) : SmtpEvent IP → Option String
  | rcpt c recipient => if c = conn then some recipient else none
  | _ => none

def auth? : SmtpEvent IP → Option AuthConfig
  | setAuthConfig auth => some auth
  | _ => none

end SmtpEvent

section
variable (conn : ℕ) (past : List (SmtpEvent IP))

/-- The senders of the current mail transaction: those that `Mail` accepts. -/
def saidSenders (tls : Bool) : List String :=
  if acceptsMail srv.cfg tls then (since (SmtpEvent.ends conn) past).filterMap (SmtpEvent.sender? conn)
  else []

/-- The recipients of the current mail transaction: those that `Rcpt` accepts. -/
def saidRecipients : List String :=
  ((since (SmtpEvent.ends conn) past).filterMap (SmtpEvent.recipient? conn)).filter
    (acceptsRcpt srv.ml.unicode srv.cfg)

/-- The session as the history has it. -/
def saidSession : Option (SmtpSession IP) :=
  (latest (SmtpEvent.opens? conn) past).map fun (tls, remoteAddr) =>
    ⟨tls, remoteAddr, (saidSenders srv conn past tls).getLast?.getD "", saidRecipients srv conn past⟩

/-- The authentication modes as the history has them. -/
def saidAuth (auth : AuthConfig) : AuthConfig := (latest SmtpEvent.auth? past).getD auth

/-- The call of `Data` as the history has it. -/
def saidCall (auth : AuthConfig) : List (SmtpEvent IP) × SmtpEvent IP → Option DataCall
  | (past, .data conn message result) =>
    (saidSession srv conn past).map fun s => srv.data (saidAuth past auth) conn s message result
  | _ => none

end

/-! ## One more event -/

section
variable {conn : ℕ} {past : List (SmtpEvent IP)} {e : SmtpEvent IP}

/-- An event that ends no mail transaction adds the sender that it says. -/
theorem saidSenders_concat (he : e.ends conn = false) (tls : Bool) :
    saidSenders srv conn (past ++ [e]) tls =
      saidSenders srv conn past tls ++ if acceptsMail srv.cfg tls then (e.sender? conn).toList else [] := by
  have hsince : since (SmtpEvent.ends conn) (past ++ [e]) = since (SmtpEvent.ends conn) past ++ [e] := by
    simp [since_concat, he]
  cases hs : e.sender? conn <;> simp only [saidSenders, hsince] <;> split_ifs <;> simp [hs]

theorem saidRecipients_concat (he : e.ends conn = false) :
    saidRecipients srv conn (past ++ [e]) = saidRecipients srv conn past ++
      (e.recipient? conn).toList.filter (acceptsRcpt srv.ml.unicode srv.cfg) := by
  have hsince : since (SmtpEvent.ends conn) (past ++ [e]) = since (SmtpEvent.ends conn) past ++ [e] := by
    simp [since_concat, he]
  cases hr : e.recipient? conn <;> simp [saidRecipients, hsince, hr]

/-- After the end of a transaction nothing has been said. -/
theorem said_of_ends (he : e.ends conn = true) (tls : Bool) :
    saidSenders srv conn (past ++ [e]) tls = [] ∧ saidRecipients srv conn (past ++ [e]) = [] := by
  simp [saidSenders, saidRecipients, since_concat, he]

theorem saidSession_concat (ho : e.opens? conn = none) (he : e.ends conn = false) :
    saidSession srv conn (past ++ [e]) =
      (latest (SmtpEvent.opens? conn) past).map fun (tls, remoteAddr) =>
        ⟨tls, remoteAddr,
          ((saidSenders srv conn past tls ++
            if acceptsMail srv.cfg tls then (e.sender? conn).toList else []).getLast?).getD "",
          saidRecipients srv conn past ++
            (e.recipient? conn).toList.filter (acceptsRcpt srv.ml.unicode srv.cfg)⟩ := by
  simp only [saidSession, latest_concat, ho, Option.none_or, saidSenders_concat srv he,
    saidRecipients_concat srv he]

theorem saidSession_newSession (c : ℕ) (tls : Bool) (remoteAddr : Option IP) :
    saidSession srv conn (past ++ [.newSession c tls remoteAddr]) =
      if c = conn then some (.new tls remoteAddr) else saidSession srv conn past := by
  split_ifs with h
  · simp [saidSession, saidSenders, saidRecipients, latest_concat, since_concat,
      SmtpEvent.opens?, SmtpEvent.ends, SmtpSession.new, h]
  · rw [saidSession_concat srv (by simp [SmtpEvent.opens?, h]) (by simp [SmtpEvent.ends, h])]
    simp [saidSession, SmtpEvent.sender?, SmtpEvent.recipient?]

theorem saidSession_reset (c : ℕ) :
    saidSession srv conn (past ++ [.reset c]) =
      if c = conn then (saidSession srv conn past).map SmtpSession.reset
      else saidSession srv conn past := by
  split_ifs with h
  · simp [saidSession, saidSenders, saidRecipients, latest_concat, since_concat,
      SmtpEvent.opens?, SmtpEvent.ends, SmtpSession.reset, Function.comp_def, h]
  · rw [saidSession_concat srv rfl (by simp [SmtpEvent.ends, h])]
    simp [saidSession, SmtpEvent.sender?, SmtpEvent.recipient?]

theorem saidSession_mail (c : ℕ) (sender : String) :
    saidSession srv conn (past ++ [.mail c sender]) =
      if c = conn then (saidSession srv conn past).map fun s => (s.mail srv.cfg sender).1
      else saidSession srv conn past := by
  rw [saidSession_concat srv rfl rfl]
  split_ifs with h
  · rw [saidSession, Option.map_map]
    congr 1
    funext p
    simp only [SmtpEvent.sender?, SmtpEvent.recipient?, if_pos h, Function.comp, SmtpSession.mail]
    split_ifs <;> simp
  · simp [saidSession, SmtpEvent.sender?, SmtpEvent.recipient?, h]

theorem saidSession_rcpt (c : ℕ) (recipient : String) :
    saidSession srv conn (past ++ [.rcpt c recipient]) =
      if c = conn then
        (saidSession srv conn past).map fun s => (s.rcpt srv.ml.unicode srv.cfg recipient).1
      else saidSession srv conn past := by
  rw [saidSession_concat srv rfl rfl]
  split_ifs with h
  · rw [saidSession, Option.map_map]
    congr 1
    funext p
    simp only [SmtpEvent.sender?, SmtpEvent.recipient?, if_pos h, Function.comp, SmtpSession.rcpt]
    cases ha : acceptsRcpt srv.ml.unicode srv.cfg recipient <;> simp [ha]
  · simp [saidSession, SmtpEvent.sender?, SmtpEvent.recipient?, h]

theorem saidSession_data (c : ℕ) (m : SmtpMessage IP) (result : Except HandlerError Unit) :
    saidSession srv conn (past ++ [.data c m result]) = saidSession srv conn past := by
  rw [saidSession_concat srv rfl rfl]
  simp [saidSession, SmtpEvent.sender?, SmtpEvent.recipient?]

theorem saidSession_setAuthConfig (auth : AuthConfig) :
    saidSession srv conn (past ++ [.setAuthConfig auth]) = saidSession srv conn past := by
  rw [saidSession_concat srv rfl rfl]
  simp [saidSession, SmtpEvent.sender?, SmtpEvent.recipient?]

end

/-- What the server keeps is what the history says. -/
structure SmtpWorld.Told (auth : AuthConfig) (past : List (SmtpEvent IP)) (w : SmtpWorld IP) : Prop where
  modes : w.auth = saidAuth past auth
  sessions : ∀ conn, w.sessions conn = saidSession srv conn past
  calls : w.calls = (pasts past).filterMap (saidCall srv auth)

section
variable {srv} {auth : AuthConfig} {past : List (SmtpEvent IP)} {w w' : SmtpWorld IP}

/-- One connection is given a new session. -/
theorem SmtpWorld.Told.set (h : w.Told srv auth past) {e : SmtpEvent IP} {conn : ℕ}
    {s : SmtpSession IP} (ha : e.auth? = none) (hd : saidCall srv auth (past, e) = none)
    (hs : ∀ c, saidSession srv c (past ++ [e]) =
      if conn = c then some s else saidSession srv c past) :
    (w.set conn s).Told srv auth (past ++ [e]) := by
  constructor
  · simpa [SmtpWorld.set, saidAuth, latest_concat, ha] using h.modes
  · intro c
    rw [hs]
    by_cases hc : conn = c
    · subst hc
      simp [SmtpWorld.set]
    · simp [SmtpWorld.set, hc, Function.update_of_ne (Ne.symm hc), h.sessions]
  · simp [SmtpWorld.set, pasts_concat, List.filterMap_append, hd, h.calls]

/-- **The sessions agree with the history**, after each event. -/
theorem told_step {e : SmtpEvent IP} (h : w.Told srv auth past) (hs : w.step srv e = some w') :
    w'.Told srv auth (past ++ [e]) := by
  cases e with
  | newSession conn tls remoteAddr =>
    cases hs
    exact h.set rfl rfl fun c => saidSession_newSession srv conn tls remoteAddr
  | reset conn =>
    obtain ⟨s, hc, rfl⟩ := Option.map_eq_some_iff.1 hs
    refine h.set rfl rfl fun c => ?_
    rw [saidSession_reset]
    split_ifs with hcc
    · rw [← hcc, ← h.sessions, hc, Option.map_some]
    · rfl
  | mail conn sender =>
    obtain ⟨s, hc, rfl⟩ := Option.map_eq_some_iff.1 hs
    refine h.set rfl rfl fun c => ?_
    rw [saidSession_mail]
    split_ifs with hcc
    · rw [← hcc, ← h.sessions, hc, Option.map_some]
    · rfl
  | rcpt conn recipient =>
    obtain ⟨s, hc, rfl⟩ := Option.map_eq_some_iff.1 hs
    refine h.set rfl rfl fun c => ?_
    rw [saidSession_rcpt]
    split_ifs with hcc
    · rw [← hcc, ← h.sessions, hc, Option.map_some]
    · rfl
  | data conn m result =>
    obtain ⟨s, hc, rfl⟩ := Option.map_eq_some_iff.1 hs
    constructor
    · simpa [saidAuth, latest_concat, SmtpEvent.auth?] using h.modes
    · intro c
      rw [saidSession_data]
      exact h.sessions c
    · rw [h.sessions] at hc
      simp [pasts_concat, List.filterMap_append, saidCall, hc, h.calls, h.modes]
  | setAuthConfig auth' =>
    cases hs
    constructor
    · simp [saidAuth, latest_concat, SmtpEvent.auth?]
    · intro c
      rw [saidSession_setAuthConfig]
      exact h.sessions c
    · simp [pasts_concat, List.filterMap_append, saidCall, h.calls]

theorem told {es : List (SmtpEvent IP)}
    (h : Run (SmtpWorld.step srv) (fun _ _ => True) (.start auth) es w) : w.Told srv auth es :=
  h.history (J := fun past w => SmtpWorld.Told srv auth past w)
    (fun _ _ _ _ hj _ hs => told_step hj hs) ⟨rfl, fun _ => rfl, rfl⟩

end

/-- **`Data` goes by the history**: in every run of any number of connections,
    the calls of `Data` are, one for one and in order, what the history of their
    connection since its last session or reset makes them. -/
theorem data_as_told (auth : AuthConfig) {es : List (SmtpEvent IP)} {w : SmtpWorld IP}
    (h : Run (SmtpWorld.step srv) (fun _ _ => True) (.start auth) es w) :
    w.calls = (pasts es).filterMap (saidCall srv auth) :=
  (told h).calls

/-! ## The order of the protocol -/

/-- The SMTP library calls `Rcpt` after a sender was accepted, and `Data` after
    a recipient was accepted. -/
def InOrder (es : List (SmtpEvent IP)) : Prop :=
  ∀ p ∈ pasts es, match p.2 with
    | .rcpt conn _ => ∀ s, saidSession srv conn p.1 = some s → saidSenders srv conn p.1 s.tls ≠ []
    | .data conn _ _ => saidRecipients srv conn p.1 ≠ []
    | _ => True

section
variable {srv} {auth : AuthConfig} {es : List (SmtpEvent IP)} {conn : ℕ} {s : SmtpSession IP}

theorem InOrder.past (h : InOrder srv es) {past : List (SmtpEvent IP)} {e : SmtpEvent IP}
    (hp : (past, e) ∈ pasts es) : InOrder srv past := by
  obtain ⟨rest, rfl⟩ := eq_append_of_mem_pasts hp
  rw [List.append_assoc] at h
  exact fun p hm => h p (pasts_append_subset hm)

theorem saidSession_eq_some (h : saidSession srv conn es = some s) :
    ∃ remoteAddr, latest (SmtpEvent.opens? conn) es = some (s.tls, remoteAddr) ∧
      s.sender = (saidSenders srv conn es s.tls).getLast?.getD "" ∧
      s.recipients = saidRecipients srv conn es := by
  obtain ⟨⟨tls, remoteAddr⟩, hl, rfl⟩ := Option.map_eq_some_iff.1 h
  exact ⟨remoteAddr, hl, rfl, rfl⟩

/-- Recipients are only there after a sender, of the same session. -/
theorem sender_said (h : InOrder srv es) (hs : saidSession srv conn es = some s)
    (hr : saidRecipients srv conn es ≠ []) : saidSenders srv conn es s.tls ≠ [] := by
  induction es using List.reverseRecOn generalizing s with
  | nil => exact absurd rfl hr
  | append_singleton past e ih =>
    have hlast : (past, e) ∈ pasts (past ++ [e]) := by simp [pasts_concat]
    have hpast : InOrder srv past := h.past hlast
    have he := h _ hlast
    cases hends : e.ends conn with
    | true => exact absurd (said_of_ends srv hends s.tls).2 hr
    | false =>
      rw [saidSenders_concat srv hends]
      refine fun hnil => ?_
      have hbefore := (List.append_eq_nil_iff.1 hnil).1
      -- the session is the one before the event
      have hopen : e.opens? conn = none := by
        cases e with
        | newSession c => simpa [SmtpEvent.opens?, SmtpEvent.ends] using hends
        | _ => rfl
      obtain ⟨remoteAddr, hl, -⟩ := saidSession_eq_some hs
      rw [latest_concat, hopen, Option.none_or] at hl
      have hsession : ∃ t, saidSession srv conn past = some t ∧ t.tls = s.tls := by
        simp [saidSession, hl]
      obtain ⟨t, ht, htls⟩ := hsession
      rw [← htls] at hbefore
      by_cases hempty : saidRecipients srv conn past = []
      · rw [saidRecipients_concat srv hends, hempty] at hr
        cases e with
        | rcpt c recipient =>
          by_cases hc : c = conn
          · subst hc
            exact he t ht hbefore
          · simp [SmtpEvent.recipient?, hc] at hr
        | _ => simp [SmtpEvent.recipient?] at hr
      · exact ih hpast ht hempty hbefore

/-- An accepted message is refused by none of the checks. -/
theorem authenticate_ok {ml : MailLib} {cfg : AuthConfig} {lk : Lookups IP} {ip : Option IP}
    {sender hdrFrom : String} {arc : ArcChainResult}
    (h : (authenticate ml cfg lk ip sender hdrFrom arc).2 = .ok ()) :
    cfg.spf.refuses (authenticate ml cfg lk ip sender hdrFrom arc).1.spf = false ∧
      cfg.dkim.refuses (authenticate ml cfg lk ip sender hdrFrom arc).1.dkim = false ∧
      cfg.dmarc.refuses (authenticate ml cfg lk ip sender hdrFrom arc).1.dmarc = false := by
  obtain ⟨h₁, h₂, h₃⟩ := (accepted_iff ml cfg lk ip sender hdrFrom arc).1 (by rw [h]; rfl)
  simp [authenticate, h₁, h₂, h₃]

end

/-- What an email that the handler is given has gone through, with the events
    `past` before its `Data`. -/
structure CheckedMail (auth : AuthConfig) (past : List (SmtpEvent IP)) (conn : ℕ) (raw : List String)
    (email : ParsedEmail) : Prop where
  /-- the sender is the one that was told last in the mail transaction -/
  sender : ((since (SmtpEvent.ends conn) past).filterMap (SmtpEvent.sender? conn)).getLast? =
    some email.envelopeFrom
  /-- the recipients are those that were told in it and accepted, in order -/
  recipients : email.envelopeTo = saidRecipients srv conn past
  nonempty : email.envelopeTo ≠ []
  allowed : ∀ r ∈ email.envelopeTo, srv.cfg.allowedRecipients = [] ∨
    ∃ p ∈ srv.cfg.allowedRecipients, pathMatch (srv.ml.unicode.lower p) (srv.ml.unicode.lower r) = some true
  /-- the rest is what the message says -/
  content : ∃ parsed, parseEmail srv.ml srv.readBody raw = some parsed ∧
    email = { parsed with
      envelopeFrom := email.envelopeFrom, envelopeTo := email.envelopeTo, authResult := email.authResult }
  result : ∃ a, email.authResult = some a ∧ (srv.cfg.requireTLS = true → a.tls = true) ∧
    (saidAuth past auth).spf.refuses a.spf = false ∧ (saidAuth past auth).dkim.refuses a.dkim = false ∧
    (saidAuth past auth).dmarc.refuses a.dmarc = false

section
variable {srv} {auth : AuthConfig} {past : List (SmtpEvent IP)} {conn : ℕ}

/-- Where a sender was told and accepted, all that were told are. -/
theorem saidSenders_eq {tls : Bool} (h : saidSenders srv conn past tls ≠ []) :
    acceptsMail srv.cfg tls = true ∧ saidSenders srv conn past tls =
      (since (SmtpEvent.ends conn) past).filterMap (SmtpEvent.sender? conn) := by
  by_cases ha : acceptsMail srv.cfg tls = true
  · exact ⟨ha, by rw [saidSenders, if_pos ha]⟩
  · rw [saidSenders, if_neg ha] at h
    exact absurd rfl h

theorem acceptsRcpt_iff {u : Unicode} {cfg : SmtpConfig} {r : String} :
    acceptsRcpt u cfg r = true ↔ cfg.allowedRecipients = [] ∨
      ∃ p ∈ cfg.allowedRecipients, pathMatch (u.lower p) (u.lower r) = some true := by
  cases hl : cfg.allowedRecipients <;> simp [acceptsRcpt, matchRecipient, hl]

/-- What `Data` hands over carries the session, and the results of checks that
    do not refuse it. -/
theorem SmtpServer.data_handed {modes : AuthConfig} {s : SmtpSession IP} {m : SmtpMessage IP}
    {result : Except HandlerError Unit} {email : ParsedEmail} {raw : List String}
    (h : (srv.data modes conn s m result).handed = some (email, raw)) :
    m.raw = .ok raw ∧ email.envelopeFrom = s.sender ∧ email.envelopeTo = s.recipients ∧
      (∃ parsed, parseEmail srv.ml srv.readBody raw = some parsed ∧ email = { parsed with
        envelopeFrom := email.envelopeFrom, envelopeTo := email.envelopeTo,
        authResult := email.authResult }) ∧
      ∃ a, email.authResult = some a ∧ a.tls = s.tls ∧ modes.spf.refuses a.spf = false ∧
        modes.dkim.refuses a.dkim = false ∧ modes.dmarc.refuses a.dmarc = false := by
  unfold SmtpServer.data at h
  cases hraw : m.raw with
  | error e => simp [hraw] at h
  | ok lines =>
    simp only [hraw] at h
    cases hv : (verifyAuth srv.ml modes m.lookups s.remoteAddr s.sender lines).2 with
    | error e => simp [hv] at h
    | ok =>
      simp only [hv] at h
      cases hp : parseEmail srv.ml srv.readBody lines with
      | none => simp [hp] at h
      | some parsed =>
        simp only [hp, Option.some.injEq, Prod.mk.injEq] at h
        obtain ⟨rfl, rfl⟩ := h
        exact ⟨rfl, rfl, rfl, ⟨parsed, hp, rfl⟩, _, rfl, rfl, authenticate_ok hv⟩

end

/-- **What the handler is given has passed every check**: in every run in which
    the library calls the sessions in the order of the protocol, an email that
    is handed over has the sender and the recipients of its mail transaction,
    only recipients that are allowed, what its message says, TLS if it is
    required, and no result that the modes at that time refuse. -/
theorem handed_over_checked (auth : AuthConfig) {es : List (SmtpEvent IP)} {w : SmtpWorld IP}
    (h : Run (SmtpWorld.step srv) (fun _ _ => True) (.start auth) es w) (ho : InOrder srv es) :
    ∀ call ∈ w.calls, ∀ email raw, call.handed = some (email, raw) →
      ∃ past m result, (past, SmtpEvent.data call.conn m result) ∈ pasts es ∧ m.raw = .ok raw ∧
        CheckedMail srv auth past call.conn raw email := by
  intro call hcall email raw hh
  rw [(told h).calls] at hcall
  obtain ⟨⟨past, e⟩, hmem, hsaid⟩ := List.mem_filterMap.1 hcall
  cases e with
  | data conn m result =>
    obtain ⟨s, hs, rfl⟩ := Option.map_eq_some_iff.1 hsaid
    have hrecipients : saidRecipients srv conn past ≠ [] := ho _ hmem
    obtain ⟨hraw, hfrom, hto, hcontent, a, ha, htls, hmodes⟩ := SmtpServer.data_handed hh
    rw [SmtpServer.data_conn]
    obtain ⟨remoteAddr, -, hsender, hlist⟩ := saidSession_eq_some hs
    have hbefore : InOrder srv past := ho.past hmem
    have hsenders := sender_said hbefore hs hrecipients
    obtain ⟨haccepts, hall⟩ := saidSenders_eq hsenders
    have hrcpts : email.envelopeTo = saidRecipients srv conn past := hto.trans hlist
    refine ⟨past, m, result, hmem, hraw, ?_, hrcpts, ?_, fun r hr => ?_, hcontent, a, ha,
      fun hreq => ?_, hmodes⟩
    · rw [← hall, hfrom, hsender, List.getLast?_eq_some_getLast hsenders, Option.getD_some]
    · rwa [hrcpts]
    · rw [hrcpts] at hr
      exact acceptsRcpt_iff.1 (List.mem_filter.1 hr).2
    · rw [htls]
      simpa [acceptsMail, hreq] using haccepts
  | _ => cases hsaid

end

/-- Mail for one recipient only, over TLS. -/
def sampleServer : SmtpServer :=
  ⟨sampleMailLib, plainBody, ⟨"cert.pem", "key.pem", true, ["*@Example.org"]⟩, true⟩

def sampleMessage : SmtpMessage Unit :=
  ⟨.ok ["From: a@b.com", "", "hello"], ⟨fun _ _ _ => .pass, [], fun _ => none⟩⟩

/-- A client that talks before STARTTLS, and one recipient that is not allowed. -/
def sampleTalk : List (SmtpEvent Unit) :=
  [.newSession 1 false (some ()), .mail 1 "x@b.com", .newSession 1 true (some ()), .mail 1 "a@b.com",
    .rcpt 1 "me@example.ORG", .newSession 2 false none, .rcpt 1 "you@example.com",
    .setAuthConfig ⟨.enforce, .off, .off⟩, .data 1 sampleMessage (.ok ()), .reset 1]

theorem sampleTalk_exec : ∃ w,
    exec (SmtpWorld.step sampleServer) (.start ⟨.off, .off, .off⟩) sampleTalk = some w ∧
      w.calls.map (fun call => (call.conn, call.handed.map fun p => p.1.envelopeTo)) =
        [(1, some ["me@example.ORG"])] := by
  have h : (exec (SmtpWorld.step sampleServer) (.start ⟨.off, .off, .off⟩) sampleTalk).map
      (fun w => w.calls.map fun call => (call.conn, call.handed.map fun p => p.1.envelopeTo)) =
        some [(1, some ["me@example.ORG"])] := by decide +kernel
  exact Option.map_eq_some_iff.1 h

theorem data_as_told_sample : ∃ w : SmtpWorld Unit, w.calls.length = 1 ∧
    w.calls = (pasts sampleTalk).filterMap (saidCall sampleServer ⟨.off, .off, .off⟩) := by
  obtain ⟨w, hw, hcalls⟩ := sampleTalk_exec
  refine ⟨w, ?_, data_as_told sampleServer _ (Run.of_exec (fun _ _ _ => trivial) hw)⟩
  have := congrArg List.length hcalls
  simpa using this

theorem sampleTalk_inOrder : InOrder sampleServer sampleTalk := by
  unfold InOrder
  simp only [sampleTalk, pasts, pastsFrom, List.forall_mem_cons, List.nil_append, List.cons_append]
  refine ⟨trivial, trivial, trivial, trivial, fun s hs => ?_, trivial, fun s hs => ?_, trivial,
    ?_, trivial, fun _ hnil => absurd hnil List.not_mem_nil⟩
  · rw [← Option.some.inj ((by decide +kernel : saidSession sampleServer 1 _ =
      some ⟨true, some (), "a@b.com", []⟩).symm.trans hs)]
    decide +kernel
  · rw [← Option.some.inj ((by decide +kernel : saidSession sampleServer 1 _ =
      some ⟨true, some (), "a@b.com", ["me@example.ORG"]⟩).symm.trans hs)]
    decide +kernel
  · decide +kernel

theorem handed_over_checked_sample :
    ∃ (past : List (SmtpEvent Unit)) (raw : List String) (email : ParsedEmail),
    email.envelopeTo = ["me@example.ORG"] ∧
      CheckedMail sampleServer ⟨.off, .off, .off⟩ past 1 raw email := by
  obtain ⟨w, hw, hcalls⟩ := sampleTalk_exec
  obtain ⟨call, hcall, heq⟩ := List.mem_map.1 (hcalls ▸ List.mem_singleton_self _)
  rw [Prod.mk.injEq, Option.map_eq_some_iff] at heq
  obtain ⟨hconn, ⟨email, raw⟩, hhanded, hto⟩ := heq
  obtain ⟨past, -, -, -, -, hchecked⟩ := handed_over_checked sampleServer _
    (Run.of_exec (fun _ _ _ => trivial) hw) sampleTalk_inOrder call hcall email raw hhanded
  exact ⟨past, raw, email, hto, hconn ▸ hchecked⟩

end Mailrelay
