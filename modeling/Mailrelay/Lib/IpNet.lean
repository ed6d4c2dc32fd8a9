/-
  Kinds and blocks of IP addresses (Go's `net`).

  The predicates look at the bytes of an address; a block is given by its text,
  such as `10.0.0.0/8`, and contains the addresses with the same first bits.  In
  both, a mapped IPv4 address counts as the IPv4 address.

  * `contains_four`, `contains_six`: membership in a block, byte by byte.
-/
import Mailrelay.Lib.Ip

namespace Lib

namespace IP

/-! ## Kinds -/

/-- `IP.Equal` -/
def equal (ip x : IP) : Bool :=
  if ip.length = x.length then ip == x
  else if ip.length = 4 ∧ x.length = 16 then x.take 12 == v4InV6Prefix && ip == x.drop 12
  else if ip.length = 16 ∧ x.length = 4 then ip.take 12 == v4InV6Prefix && ip.drop 12 == x
  else false

/-- `net.IPv4zero` -/
def v4zero : IP := v4InV6Prefix ++ [0, 0, 0, 0]

/-- `net.IPv6unspecified` -/
def v6unspecified : IP := List.replicate 16 0

/-- `net.IPv6loopback` -/
def v6loopback : IP := List.replicate 15 0 ++ [1]

/-- Byte `i` of an address. -/
def byte (ip : IP) (i : ℕ) : UInt8 := ip.getD i 0

def isUnspecified (ip : IP) : Bool := ip.equal v4zero || ip.equal v6unspecified

def isLoopback (ip : IP) : Bool :=
  match ip.to4 with
  | some ip4 => ip4.byte 0 == 127
  | none => ip.equal v6loopback

def isPrivate (ip : IP) : Bool :=
  match ip.to4 with
  | some ip4 =>
    ip4.byte 0 == 10 || (ip4.byte 0 == 172 && ip4.byte 1 &&& 0xf0 == 16) ||
      (ip4.byte 0 == 192 && ip4.byte 1 == 168)
  | none => decide (ip.length = 16) && ip.byte 0 &&& 0xfe == 0xfc

def isMulticast (ip : IP) : Bool :=
  match ip.to4 with
  | some ip4 => ip4.byte 0 &&& 0xf0 == 0xe0
  | none => decide (ip.length = 16) && ip.byte 0 == 0xff

def isInterfaceLocalMulticast (ip : IP) : Bool :=
  decide (ip.length = 16) && ip.byte 0 == 0xff && ip.byte 1 &&& 0x0f == 0x01

def isLinkLocalMulticast (ip : IP) : Bool :=
  match ip.to4 with
  | some ip4 => ip4.byte 0 == 224 && ip4.byte 1 == 0 && ip4.byte 2 == 0
  | none => decide (ip.length = 16) && ip.byte 0 == 0xff && ip.byte 1 &&& 0x0f == 0x02

def isLinkLocalUnicast (ip : IP) : Bool :=
  match ip.to4 with
  | some ip4 => ip4.byte 0 == 169 && ip4.byte 1 == 254
  | none => decide (ip.length = 16) && ip.byte 0 == 0xfe && ip.byte 1 &&& 0xc0 == 0x80

end IP

/-! ## Blocks -/

/-- `net.IPNet` -/
structure IPNet where
  ip : IP
  mask : IP
  deriving DecidableEq, Repr

/-- `net.CIDRMask`: a mask of `len` bytes with `ones` bits set. -/
def cidrMask (ones : ℕ) : ℕ → IP
  | 0 => []
  | len + 1 =>
    if 8 ≤ ones then 255 :: cidrMask (ones - 8) len
    else (~~~(255 >>> UInt8.ofNat ones)) :: cidrMask 0 len

/-- `net.ParseCIDR`, the block of it. -/
def parseCIDR (s : List Char) : Option IPNet :=
  (cutChars '/' s).bind fun (addr, ones) =>
    (IP.parseAddr addr).bind fun ip =>
      if ones ≠ [] ∧ ones.all Char.isDigit ∧ Nat.ofDigitChars 10 ones 0 ≤ 8 * ip.length then
        let mask := cidrMask (Nat.ofDigitChars 10 ones 0) ip.length
        some ⟨List.zipWith (· &&& ·) ip mask, mask⟩
      else none

/-- `IPNet.Contains` -/
def IPNet.contains (n : IPNet) (ip : IP) : Bool :=
  let nn := n.ip.to4.getD n.ip
  let mask := if n.mask.length = 16 ∧ nn.length = 4 then n.mask.drop 12 else n.mask
  let x := ip.to4.getD ip
  decide (x.length = nn.length) && List.zipWith (· &&& ·) nn mask == List.zipWith (· &&& ·) x mask

/-! ## Membership -/

theorem and_255 (a : UInt8) : a &&& 255 = a := by
  apply UInt8.toBitVec_inj.1
  show a.toBitVec &&& 255#8 = a.toBitVec
  exact BitVec.and_allOnes

theorem zipWith_and_ones (ip : IP) : List.zipWith (· &&& ·) ip (List.replicate ip.length 255) = ip := by
  induction ip with
  | nil => rfl
  | cons a ip ih => rw [List.length_cons, List.replicate_succ, List.zipWith_cons_cons, ih, and_255]

theorem zipWith_and_zeros (ip : IP) :
    List.zipWith (· &&& ·) ip (List.replicate ip.length 0) = List.replicate ip.length 0 := by
  induction ip with
  | nil => rfl
  | cons a ip ih =>
    rw [List.length_cons, List.replicate_succ, List.zipWith_cons_cons, ih, UInt8.and_zero]

section
variable {ip : IP} {a b c d : UInt8}

/-- An IPv4 address in a block of IPv4 addresses. -/
theorem contains_four (h : ip.to4 = some [a, b, c, d]) (p q r s k l m o : UInt8) :
    (IPNet.mk [p, q, r, s] [k, l, m, o]).contains ip ↔
      p &&& k = a &&& k ∧ q &&& l = b &&& l ∧ r &&& m = c &&& m ∧ s &&& o = d &&& o := by
  have hblock : IP.to4 [p, q, r, s] = some [p, q, r, s] := rfl
  simp [IPNet.contains, h, hblock]

/-- An IPv4 address in another block. -/
theorem not_contains_four (h : ip.to4 = some [a, b, c, d]) {n : IPNet} (hn : n.ip.to4 = none)
    (hlen : n.ip.length = 16) : ¬ n.contains ip := by
  simp [IPNet.contains, h, hn, hlen]

/-- An IPv6 address in a block of IPv4 addresses. -/
theorem not_contains_six (h : ip.to4 = none) (hlen : ip.length = 16) (p q r s : UInt8) (m : IP) :
    ¬ (IPNet.mk [p, q, r, s] m).contains ip := by
  have hblock : IP.to4 [p, q, r, s] = some [p, q, r, s] := rfl
  simp [IPNet.contains, h, hblock, hlen]

/-- An IPv6 address in another block. -/
theorem contains_six (h : ip.to4 = none) (hlen : ip.length = 16) {n : IPNet} (hn : n.ip.to4 = none)
    (hnlen : n.ip.length = 16) : n.contains ip ↔
      List.zipWith (· &&& ·) n.ip n.mask = List.zipWith (· &&& ·) ip n.mask := by
  simp [IPNet.contains, h, hn, hlen, hnlen]

end

/-! ## Bytes of the kinds -/

section
variable {ip : IP} {a b c d : UInt8}

theorem equal_six {x : IP} (hlen : ip.length = 16) (hx : x.length = 16) : ip.equal x ↔ ip = x := by
  rw [IP.equal, if_pos (hlen.trans hx.symm), beq_iff_eq]

theorem isUnspecified_six (h : ip.to4 = none) (hlen : ip.length = 16) :
    ip.isUnspecified ↔ ip = IP.v6unspecified := by
  have hzero : ip ≠ IP.v4zero := by
    rintro rfl
    cases h
  rw [IP.isUnspecified, Bool.or_eq_true, equal_six hlen rfl, equal_six hlen rfl]
  exact or_iff_right hzero

/-- What is known of the bytes of a mapped address. -/
theorem bytes_of_to4 (h : ip.to4 = some [a, b, c, d]) :
    ip = [a, b, c, d] ∨ ip = IP.v4InV6Prefix ++ [a, b, c, d] := by
  unfold IP.to4 at h
  split_ifs at h with h₁ h₂
  · exact .inl (Option.some.inj h)
  · rw [← h₂.2, ← Option.some.inj h, List.take_append_drop]
    exact .inr rfl

theorem zero_of_isUnspecified (h : ip.to4 = some [a, b, c, d]) (hu : ip.isUnspecified) : a = 0 := by
  rcases bytes_of_to4 h with rfl | rfl
  · simp only [IP.isUnspecified, IP.equal, IP.v4zero, IP.v6unspecified, IP.v4InV6Prefix] at hu
    simp at hu
    exact hu.1
  · simp only [IP.isUnspecified, IP.equal, IP.v4zero, IP.v6unspecified, IP.v4InV6Prefix] at hu
    simp at hu
    exact hu.1

theorem not_isInterfaceLocalMulticast (h : ip.to4 = some [a, b, c, d]) :
    ip.isInterfaceLocalMulticast = false := by
  rcases bytes_of_to4 h with rfl | rfl <;> rfl

end

end Lib
