/-
  The guard against internal addresses (`internal/webhook/netguard.go`).

  `control` runs on the address of every connection, after the name was resolved
  and before it is opened.  A connection that is open can be used again for
  other requests, and many are opened at the same time.

  * `isInternalIP_iff`: which addresses are internal, as a list of blocks;
  * `control_ok_iff`: which addresses the guard lets pass;
  * `no_internal_request`: over any run of the transport, no request reaches an
    internal address.
-/
import Mailrelay.Lib.IpNet
import Mailrelay.Lib.Run
import Mailrelay.Webhook.Dispatcher

namespace Mailrelay

open Lib

/-! ## Internal addresses -/

/-- The text of `ErrPrivateAddress`. -/
def errPrivateAddress : String :=
  "webhook address is private or internal; set webhook.allow_private_networks to true to allow it"

/-- `none` where the source panics. -/
def mustParseCIDRs (cidrs : List String) : Option (List IPNet) := cidrs.mapM fun c => parseCIDR c.toList

/-- Ranges not covered by the kinds of `net.IP`. -/
def extraInternalNets : Option (List IPNet) := mustParseCIDRs ["0.0.0.0/8", "100.64.0.0/10"]

def isInternalIP (ip : IP) : Bool :=
  if ip.isLoopback || ip.isPrivate || ip.isLinkLocalUnicast || ip.isLinkLocalMulticast ||
      ip.isInterfaceLocalMulticast || ip.isMulticast || ip.isUnspecified then true
  else (extraInternalNets.getD []).any fun n => n.contains ip

/-- The blocks of internal addresses. -/
def internalNets : List String :=
  ["0.0.0.0/8", "10.0.0.0/8", "100.64.0.0/10", "127.0.0.0/8", "169.254.0.0/16", "172.16.0.0/12",
    "192.168.0.0/16", "224.0.0.0/4", "::/128", "::1/128", "fc00::/7", "fe80::/10", "ff00::/8"]

/-- The address is in one of the blocks. -/
def Internal (ip : IP) : Prop := ∃ c ∈ internalNets, ∃ n, parseCIDR c.toList = some n ∧ n.contains ip

theorem extraInternalNets_eq :
    extraInternalNets = some [⟨[0, 0, 0, 0], [255, 0, 0, 0]⟩, ⟨[100, 64, 0, 0], [255, 192, 0, 0]⟩] := by
  decide +kernel

theorem internal_iff {ip : IP} : Internal ip ↔
    ∃ n ∈ internalNets.filterMap fun c => parseCIDR c.toList, n.contains ip := by
  simp only [Internal, List.mem_filterMap]
  constructor
  · rintro ⟨c, hc, n, hn, h⟩
    exact ⟨n, ⟨c, hc, hn⟩, h⟩
  · rintro ⟨n, ⟨c, hc, hn⟩, h⟩
    exact ⟨c, hc, n, hn, h⟩

theorem internalNets_eq : (internalNets.filterMap fun c => parseCIDR c.toList) =
    [⟨[0, 0, 0, 0], [255, 0, 0, 0]⟩, ⟨[10, 0, 0, 0], [255, 0, 0, 0]⟩,
      ⟨[100, 64, 0, 0], [255, 192, 0, 0]⟩, ⟨[127, 0, 0, 0], [255, 0, 0, 0]⟩,
      ⟨[169, 254, 0, 0], [255, 255, 0, 0]⟩, ⟨[172, 16, 0, 0], [255, 240, 0, 0]⟩,
      ⟨[192, 168, 0, 0], [255, 255, 0, 0]⟩, ⟨[224, 0, 0, 0], [240, 0, 0, 0]⟩,
      ⟨List.replicate 16 0, List.replicate 16 255⟩,
      ⟨List.replicate 15 0 ++ [1], List.replicate 16 255⟩,
      ⟨252 :: 0 :: List.replicate 14 0, 254 :: 0 :: List.replicate 14 0⟩,
      ⟨254 :: 128 :: List.replicate 14 0, 255 :: 192 :: List.replicate 14 0⟩,
      ⟨255 :: 0 :: List.replicate 14 0, 255 :: 0 :: List.replicate 14 0⟩] := by
  decide +kernel

section
variable {ip : IP} {a b c d : UInt8}

/-- Internal IPv4 addresses. -/
theorem internal_four (h : ip.to4 = some [a, b, c, d]) : Internal ip ↔
    a = 0 ∨ a = 10 ∨ a = 100 ∧ b &&& 192 = 64 ∨ a = 127 ∨ a = 169 ∧ b = 254 ∨
      a = 172 ∧ b &&& 240 = 16 ∨ a = 192 ∧ b = 168 ∨ a &&& 240 = 224 := by
  have hsix {n : IPNet} (hn : n.ip.to4 = none) (hlen : n.ip.length = 16) : n.contains ip ↔ False :=
    iff_false_intro (not_contains_four h hn hlen)
  rw [internal_iff, internalNets_eq]
  simp only [List.mem_cons, List.not_mem_nil, or_false, exists_eq_or_imp, exists_eq_left, contains_four h]
  rw [hsix (by decide) rfl, hsix (by decide) rfl, hsix (by decide) rfl, hsix (by decide) rfl,
    hsix (by decide) rfl]
  have h₁ : (64 : UInt8) &&& 192 = 64 := rfl
  have h₂ : (16 : UInt8) &&& 240 = 16 := rfl
  have h₃ : (224 : UInt8) &&& 240 = 224 := rfl
  simp only [and_255, UInt8.and_zero, h₁, h₂, h₃, and_true, or_false, eq_comm (b := a), eq_comm (b := b),
    eq_comm (b := a &&& 240), eq_comm (b := b &&& 192), eq_comm (b := b &&& 240)]

/-- Internal IPv6 addresses. -/
theorem internal_six (h : ip.to4 = none) (hlen : ip.length = 16) : Internal ip ↔
    ip = IP.v6unspecified ∨ ip = IP.v6loopback ∨ ip.byte 0 &&& 254 = 252 ∨
      ip.byte 0 = 254 ∧ ip.byte 1 &&& 192 = 128 ∨ ip.byte 0 = 255 := by
  have hfour (p q r s : UInt8) (m : IP) : (IPNet.mk [p, q, r, s] m).contains ip ↔ False :=
    iff_false_intro (not_contains_six h hlen p q r s m)
  have hsix {n : IPNet} (hn : n.ip.to4 = none) (hnlen : n.ip.length = 16) := contains_six h hlen hn hnlen
  have hones : List.zipWith (· &&& ·) ip (List.replicate 16 255) = ip := by
    rw [← hlen]
    exact zipWith_and_ones ip
  rw [internal_iff, internalNets_eq]
  simp only [List.mem_cons, List.not_mem_nil, or_false, exists_eq_or_imp, exists_eq_left, hfour, false_or]
  rw [hsix (by decide) rfl, hsix (by decide) rfl, hsix (by decide) rfl, hsix (by decide) rfl,
    hsix (by decide) rfl]
  have hzero : List.zipWith (· &&& ·) (List.replicate 16 (0 : UInt8)) (List.replicate 16 255) =
      IP.v6unspecified := zipWith_and_ones IP.v6unspecified
  have hloop : List.zipWith (· &&& ·) (List.replicate 15 (0 : UInt8) ++ [1]) (List.replicate 16 255) =
      IP.v6loopback := zipWith_and_ones IP.v6loopback
  dsimp only
  rw [hones, hzero, hloop]
  obtain ⟨x, y, t, rfl⟩ : ∃ x y t, ip = x :: y :: t := by
    match ip, hlen with
    | x :: y :: t, _ => exact ⟨x, y, t, rfl⟩
  have ht : t.length = 14 := by simpa using hlen
  have hzeros : List.zipWith (· &&& ·) t (List.replicate 14 0) = List.replicate 14 0 := by
    rw [← ht]
    exact zipWith_and_zeros t
  have hzeros' : List.zipWith (· &&& ·) (List.replicate 14 (0 : UInt8)) (List.replicate 14 0) =
      List.replicate 14 0 := zipWith_and_zeros (List.replicate 14 0)
  have h₁ : (252 : UInt8) &&& 254 = 252 := rfl
  have h₂ : (128 : UInt8) &&& 192 = 128 := rfl
  simp only [List.zipWith_cons_cons, hzeros, hzeros', List.cons.injEq, and_255, UInt8.and_zero, h₁, h₂,
    and_true]
  show _ ↔ _ ∨ _ ∨ x &&& 254 = 252 ∨ x = 254 ∧ y &&& 192 = 128 ∨ x = 255
  rw [eq_comm, eq_comm (a := IP.v6loopback), eq_comm (a := 252), eq_comm (a := 254), eq_comm (a := 128),
    eq_comm (a := 255)]

/-- **Which addresses are internal**: those of the listed blocks. -/
theorem isInternalIP_iff (h : ip.Valid) : isInternalIP ip ↔ Internal ip := by
  rcases IP.string_cases h with ⟨a, b, c, d, h4, -, -⟩ | ⟨hlen, h4, -, -⟩
  · have hmulticast : (224 : UInt8) &&& 240 = 224 := rfl
    have hshared : (64 : UInt8) &&& 192 = 64 := rfl
    have hzero := zero_of_isUnspecified h4
    rw [internal_four h4, isInternalIP, extraInternalNets_eq]
    simp only [IP.isLoopback, IP.isPrivate, IP.isLinkLocalUnicast, IP.isLinkLocalMulticast, IP.isMulticast,
      h4, not_isInterfaceLocalMulticast h4, IP.byte]
    simp only [Option.getD_some, List.any_cons, List.any_nil, Bool.if_true_left, Bool.or_eq_true,
      decide_eq_true_eq, contains_four h4, and_255, UInt8.and_zero, hshared]
    simp only [List.getD_cons_zero, List.getD_cons_succ, beq_iff_eq, Bool.and_eq_true]
    grind
  · have hun := isUnspecified_six h4 hlen
    have hloop : ip.equal IP.v6loopback ↔ ip = IP.v6loopback := equal_six hlen rfl
    have hno (p q r s : UInt8) (m : IP) : (IPNet.mk [p, q, r, s] m).contains ip = false :=
      Bool.eq_false_iff.2 (not_contains_six h4 hlen p q r s m)
    rw [internal_six h4 hlen, isInternalIP, extraInternalNets_eq]
    simp only [IP.isLoopback, IP.isPrivate, IP.isLinkLocalUnicast, IP.isLinkLocalMulticast, IP.isMulticast,
      h4, IP.isInterfaceLocalMulticast, hlen]
    simp only [Option.getD_some, List.any_cons, List.any_nil, Bool.if_true_left, Bool.or_eq_true,
      decide_eq_true_eq, hno, hun, hloop, beq_iff_eq, Bool.and_eq_true]
    grind

end

/-- The bytes of an address and of its 16-byte form are in the same blocks. -/
theorem internal_to16 {ip x : IP} (h : ip.to16 = some x) (hv : ip.Valid) : Internal x ↔ Internal ip := by
  have hsame : x.to4.getD x = ip.to4.getD ip := by
    rcases IP.string_cases hv with ⟨a, b, c, d, h4, h16, -⟩ | ⟨-, -, h16, -⟩
    · rw [h] at h16
      cases h16
      rw [h4]
      rfl
    · rw [h] at h16
      cases h16
      rfl
  unfold Internal IPNet.contains
  rw [hsame]

/-! ## The guard -/

/-- `net.TCPAddr`, as a name is resolved to it; an empty host gives an address
    without bytes. -/
structure TcpAddr where
  ip : IP
  zone : List Char
  port : ℕ
  resolved : ip = [] ∨ ip.Valid
  deriving DecidableEq

/-- `TCPAddr.String` -/
def TcpAddr.string (a : TcpAddr) : List Char :=
  joinHostPort (a.ip.string ++ if a.zone = [] then [] else '%' :: a.zone) (Nat.toDigits 10 a.port)

/-- `net.Dialer.Control` of `newTransport`, on the text of an address. -/
def control (allowPrivate : Bool) (address : List Char) : Except SendError Unit :=
  if allowPrivate then .ok ()
  else
    match splitHostPort address with
    | .error err => .error (.other err)
    | .ok (host, _) =>
      let refused : Except SendError Unit :=
        .error (.privateAddress (errPrivateAddress ++ " (" ++ String.ofList host ++ ")"))
      match IP.parseIP host with
      | none => refused
      | some ip => if isInternalIP ip then refused else .ok ()

/-- An address outside the internal blocks. -/
structure External (a : TcpAddr) : Prop where
  valid : a.ip.Valid
  zone : a.zone = []
  ip : ¬ Internal a.ip

theorem digits_port {n : ℕ} : ∀ c ∈ Nat.toDigits 10 n, c ≠ ':' ∧ c ≠ '[' ∧ c ≠ ']' := by
  intro c hc
  have hd : c.isDigit := Nat.isDigit_of_mem_toDigits (by omega) (by omega) hc
  refine ⟨?_, ?_, ?_⟩
  · rintro rfl
    exact absurd hd (by decide)
  · rintro rfl
    exact absurd hd (by decide)
  · rintro rfl
    exact absurd hd (by decide)

/-- The host of an address, as the guard finds it. -/
theorem host_of_string {a : TcpAddr} {r : List Char × List Char} (h : splitHostPort a.string = .ok r) :
    r.1 = a.ip.string ++ if a.zone = [] then [] else '%' :: a.zone := by
  refine splitHostPort_join_ok (fun hc => (digits_port _ hc).1 rfl) ?_ h
  rcases a.resolved with hip | hip
  · rw [hip]
    show List.head? (if a.zone = [] then [] else '%' :: a.zone) ≠ some '['
    split_ifs
    · exact nofun
    · intro heq
      cases heq
  · intro hhead
    rw [List.head?_append, Option.or_eq_some_iff] at hhead
    rcases hhead with hhead | ⟨-, hhead⟩
    · exact (IP.no_bracket hip).1 (List.mem_of_mem_head? hhead)
    · split_ifs at hhead
      · cases hhead
      · exact absurd (Option.some.inj hhead) (by decide)

/-- **What the guard lets pass.** -/
theorem control_ok_iff (a : TcpAddr) : control false a.string = .ok () ↔ External a := by
  constructor
  · intro h
    unfold control at h
    rw [if_neg Bool.false_ne_true] at h
    split at h
    next => cases h
    next host port hsplit =>
      have hhost := host_of_string hsplit
      dsimp only at h hhost
      split at h
      next => cases h
      next x hparse =>
        have hzone : a.zone = [] := by
          by_contra hzone
          rw [hhost, if_neg hzone, IP.parseIP_percent (by simp)] at hparse
          cases hparse
        rw [hhost, if_pos hzone, List.append_nil] at hparse
        rcases a.resolved with hip | hip
        · rw [hip] at hparse
          cases hparse
        · rw [IP.parseIP_string hip] at hparse
          obtain ⟨y, hy, hyv⟩ := IP.to16_valid hip
          obtain rfl : y = x := Option.some.inj (hy.symm.trans hparse)
          split_ifs at h with hint
          exact ⟨hip, hzone, fun hin => hint ((isInternalIP_iff hyv).2 ((internal_to16 hy hip).2 hin))⟩
  · rintro ⟨hip, hzone, hint⟩
    obtain ⟨y, hy, hyv⟩ := IP.to16_valid hip
    have hsplit : splitHostPort a.string = .ok (a.ip.string, Nat.toDigits 10 a.port) := by
      rw [TcpAddr.string, if_pos hzone, List.append_nil]
      exact splitHostPort_join digits_port (IP.no_bracket hip)
    have hno : ¬ isInternalIP y := fun h => hint ((internal_to16 hy hip).1 ((isInternalIP_iff hyv).1 h))
    rw [control, if_neg Bool.false_ne_true, hsplit]
    simp only [IP.parseIP_string hip, hy, if_neg hno]

/-- The error of an address that the guard refuses names it. -/
theorem control_refused {a : TcpAddr} (hzone : a.zone = []) (h : ¬ External a) :
    control false a.string =
      .error (.privateAddress (errPrivateAddress ++ " (" ++ String.ofList a.ip.string ++ ")")) := by
  have hno : '[' ∉ a.ip.string ∧ ']' ∉ a.ip.string := by
    rcases a.resolved with hip | hip
    · rw [hip]
      exact ⟨nofun, nofun⟩
    · exact IP.no_bracket hip
  have hsplit : splitHostPort a.string = .ok (a.ip.string, Nat.toDigits 10 a.port) := by
    rw [TcpAddr.string, if_pos hzone, List.append_nil]
    exact splitHostPort_join digits_port hno
  have hctl : control false a.string ≠ .ok () := fun hok => h ((control_ok_iff a).1 hok)
  rw [control, if_neg Bool.false_ne_true, hsplit] at hctl ⊢
  dsimp only at hctl ⊢
  split at hctl
  · rfl
  · next x hparse =>
    split_ifs at hctl ⊢ with hint
    · rfl
    · exact absurd rfl hctl

/-! ## The transport -/

/-- The transport: attempts to connect, and connections, of which the idle ones
    are used again. -/
structure NetWorld where
  allowPrivate : Bool
  /-- attempts whose address has passed the guard -/
  dialing : ℕ → Option TcpAddr
  conns : ℕ → Option TcpAddr
  /-- where requests were written to -/
  written : List TcpAddr
  /-- the errors of attempts -/
  errors : List SendError

inductive NetEvent where
  /-- `SetAllowPrivateNetworks` -/
  | setAllowPrivate (allow : Bool)
  /-- an attempt to connect to an address that a name was resolved to -/
  | dial (n : ℕ) (a : TcpAddr)
  | connect (n : ℕ)
  /-- a request, also one of a redirect, is written to an open connection -/
  | write (n : ℕ)
  | close (n : ℕ)

namespace NetWorld

/-- `NewDispatcher` -/
def new : NetWorld := ⟨true, fun _ => none, fun _ => none, [], []⟩

def step (w : NetWorld) : NetEvent → Option NetWorld
  | .setAllowPrivate allow => some { w with allowPrivate := allow }
  | .dial n a =>
    if w.dialing n = none ∧ w.conns n = none then
      match control w.allowPrivate a.string with
      | .ok () => some { w with dialing := Function.update w.dialing n (some a) }
      | .error err => some { w with errors := err :: w.errors }
    else none
  | .connect n =>
    (w.dialing n).map fun a => { w with
      dialing := Function.update w.dialing n none, conns := Function.update w.conns n (some a) }
  | .write n => (w.conns n).map fun a => { w with written := a :: w.written }
  | .close n => some { w with
      dialing := Function.update w.dialing n none, conns := Function.update w.conns n none }

end NetWorld

/-- With private networks off, only external addresses are dialed or connected. -/
structure Guarded (w : NetWorld) : Prop where
  off : w.allowPrivate = false
  dialing : ∀ n a, w.dialing n = some a → External a
  conns : ∀ n a, w.conns n = some a → External a
  written : ∀ a ∈ w.written, External a

theorem forall_update {α : Type} {P : α → Prop} {f : ℕ → Option α} {n : ℕ} {x : Option α}
    (hf : ∀ m a, f m = some a → P a) (hx : ∀ a, x = some a → P a) :
    ∀ m a, Function.update f n x m = some a → P a := by
  intro m a hm
  by_cases hmn : m = n
  · subst hmn
    rw [Function.update_self] at hm
    exact hx a hm
  · rw [Function.update_of_ne hmn] at hm
    exact hf m a hm

theorem net_guarded_step {w w' : NetWorld} {e : NetEvent} (h : Guarded w) (he : e ≠ .setAllowPrivate true)
    (hs : w.step e = some w') : Guarded w' := by
  cases e with
  | setAllowPrivate allow =>
    cases hs
    refine ⟨?_, h.dialing, h.conns, h.written⟩
    cases allow with
    | false => rfl
    | true => exact absurd rfl he
  | dial n a =>
    simp only [NetWorld.step, h.off] at hs
    split_ifs at hs
    split at hs
    next hctl =>
      cases hs
      refine ⟨rfl, forall_update h.dialing fun b hb => ?_, h.conns, h.written⟩
      cases hb
      exact (control_ok_iff a).1 hctl
    next =>
      cases hs
      exact ⟨rfl, h.dialing, h.conns, h.written⟩
  | connect n =>
    obtain ⟨a, ha, rfl⟩ := Option.map_eq_some_iff.1 hs
    refine ⟨h.off, forall_update h.dialing nofun, forall_update h.conns fun b hb => ?_, h.written⟩
    cases hb
    exact h.dialing n a ha
  | write n =>
    obtain ⟨a, ha, rfl⟩ := Option.map_eq_some_iff.1 hs
    refine ⟨h.off, h.dialing, h.conns, fun b hb => ?_⟩
    rcases List.mem_cons.1 hb with rfl | hb
    · exact h.conns n b ha
    · exact h.written b hb
  | close n =>
    cases hs
    exact ⟨h.off, forall_update h.dialing nofun, forall_update h.conns nofun, h.written⟩

/-- **Webhooks never reach internal addresses.**  Once private networks are
    turned off, before the first request, every request is written to an
    external address; each of these can be dialed, and the error of any other
    address, if it has no zone, names it. -/
theorem no_internal_request {es : List NetEvent} {w : NetWorld}
    (hrun : Run NetWorld.step (fun _ e => e ≠ .setAllowPrivate true) .new
      (.setAllowPrivate false :: es) w) :
    (∀ a ∈ w.written, External a) ∧
    ∀ n a, w.dialing n = none → w.conns n = none →
      (External a → w.step (.dial n a) = some { w with dialing := Function.update w.dialing n (some a) }) ∧
      (¬ External a → a.zone = [] → w.step (.dial n a) = some { w with
        errors :=
          .privateAddress (errPrivateAddress ++ " (" ++ String.ofList a.ip.string ++ ")") :: w.errors }) := by
  have hguard : Guarded w := by
    cases hrun with
    | cons _ hs hrun =>
      cases hs
      exact hrun.inv (fun _ _ _ hi he hs => net_guarded_step hi he hs) ⟨rfl, nofun, nofun, nofun⟩
  refine ⟨hguard.written, fun n a hd hc => ⟨fun hext => ?_, fun hext hzone => ?_⟩⟩
  · rw [NetWorld.step, if_pos ⟨hd, hc⟩, hguard.off, (control_ok_iff a).2 hext]
  · rw [NetWorld.step, if_pos ⟨hd, hc⟩, hguard.off, control_refused hzone hext]

/-- `93.184.216.34:443` -/
def sampleExternal : TcpAddr := ⟨[93, 184, 216, 34], [], 443, .inr (.inl rfl)⟩

/-- `[::ffff:169.254.169.254]:80` -/
def sampleMetadata : TcpAddr :=
  ⟨[0, 0, 0, 0, 0, 0, 0, 0, 0, 0, 255, 255, 169, 254, 169, 254], [], 80, .inr (.inr rfl)⟩

theorem no_internal_request_sample : ∃ w : NetWorld, sampleExternal ∈ w.written ∧
    (∀ a ∈ w.written, External a) ∧ sampleMetadata ∉ w.written ∧ w.errors.length = 1 := by
  have h : (exec NetWorld.step .new [.setAllowPrivate false, .dial 0 sampleExternal, .connect 0,
      .dial 1 sampleMetadata, .write 0]).map (fun w => (w.written, w.errors.length)) =
        some ([sampleExternal], 1) := by decide +kernel
  obtain ⟨w, hw, heq⟩ := Option.map_eq_some_iff.1 h
  rw [Prod.mk.injEq] at heq
  have hrun := Run.of_exec (P := fun _ e => e ≠ .setAllowPrivate true) (fun e he _ => by
    rintro rfl
    simp at he) hw
  refine ⟨w, ?_, (no_internal_request hrun).1, ?_, heq.2⟩
  · rw [heq.1]
    exact List.mem_singleton_self _
  · rw [heq.1]
    decide

end Mailrelay
