/-
  IP addresses as text (Go's `net` and `net/netip`).

  An address is a list of 4 or 16 bytes.  It is written with dotted decimals, or
  with groups of hexadecimal digits of which the first longest run of zeros is
  left out; a mapped IPv4 address is written as the IPv4 address.

  * `parseIP_string`: the text of an address is read back;
  * `splitHostPort_join`: so is the host in an address with a port.
-/
import Mathlib.Data.List.Basic
import Mailrelay.Lib.Bytes
import Mailrelay.Lib.Text
import Mailrelay.Lib.Url

namespace Lib

/-- `net.IP` -/
abbrev IP := List UInt8

namespace IP

/-- The first 12 bytes of a mapped IPv4 address. -/
def v4InV6Prefix : IP := [0, 0, 0, 0, 0, 0, 0, 0, 0, 0, 255, 255]

/-- `IP.To4` -/
def to4 (ip : IP) : Option IP :=
  if ip.length = 4 then some ip
  else if ip.length = 16 ∧ ip.take 12 = v4InV6Prefix then some (ip.drop 12)
  else none

/-- `IP.To16` -/
def to16 (ip : IP) : Option IP :=
  if ip.length = 4 then some (v4InV6Prefix ++ ip)
  else if ip.length = 16 then some ip
  else none

/-! ## Text -/

/-- `appendDecimal` of `net/netip` -/
def appendDecimal (x : ℕ) : List Char :=
  (if 100 ≤ x then [(x / 100).digitChar] else []) ++
    (if 10 ≤ x then [(x / 10 % 10).digitChar] else []) ++ [(x % 10).digitChar]

/-- The dotted text of four octets. -/
def text4 (a b c d : UInt8) : List Char :=
  appendDecimal a.toNat ++ '.' :: (appendDecimal b.toNat ++ '.' ::
    (appendDecimal c.toNat ++ '.' :: appendDecimal d.toNat))

/-- `appendHex` of `net/netip` -/
def appendHex (x : ℕ) : List Char :=
  (if 0x1000 ≤ x then [(x / 0x1000).digitChar] else []) ++
    (if 0x100 ≤ x then [(x / 0x100 % 16).digitChar] else []) ++
    (if 0x10 ≤ x then [(x / 0x10 % 16).digitChar] else []) ++ [(x % 16).digitChar]

/-- The 16-bit groups of an address. -/
def groups : IP → List ℕ
  | a :: b :: ip => (256 * a.toNat + b.toNat) :: groups ip
  | _ => []

/-- The bytes of 16-bit groups. -/
def ofGroups (gs : List ℕ) : IP := gs.flatMap fun x => [UInt8.ofNat (x / 256), UInt8.ofNat (x % 256)]

/-- The groups with a colon between them. -/
def hexGroups : List ℕ → List Char
  | [] => []
  | [x] => appendHex x
  | x :: gs => appendHex x ++ ':' :: hexGroups gs

/-- The length of the run of zeros that begins at place `i`. -/
def zeroRun (gs : List ℕ) (i : ℕ) : ℕ := ((gs.drop i).takeWhile (· == 0)).length

/-- The first longest run of two or more zeros: its place and length. -/
def longestRun (gs : List ℕ) : Option (ℕ × ℕ) :=
  (List.range gs.length).foldl (fun best i =>
    if 2 ≤ zeroRun gs i ∧ ∀ r ∈ best, r.2 < zeroRun gs i then some (i, zeroRun gs i) else best) none

/-- `appendTo6` of `net/netip` -/
def text6 (gs : List ℕ) : List Char :=
  match longestRun gs with
  | none => hexGroups gs
  | some (i, l) => hexGroups (gs.take i) ++ ':' :: ':' :: hexGroups (gs.drop (i + l))

/-- `IP.String`, but empty for an address without bytes (`ipEmptyString`). -/
def string (ip : IP) : List Char :=
  match ip.to4 with
  | some [a, b, c, d] => text4 a b c d
  | _ =>
    if ip.length = 16 then text6 ip.groups
    else if ip = [] then []
    else '?' :: hex ip

/-! ## Reading -/

/-- `parseIPv4Fields` of `net/netip`: the octets read so far, and the value and
    the digits of the next one. -/
def readOctets (done : IP) (val digLen : ℕ) : List Char → Option IP
  | [] => if digLen = 0 ∨ done.length < 3 then none else some (done ++ [UInt8.ofNat val])
  | c :: cs =>
    if '0' ≤ c ∧ c ≤ '9' then
      if digLen = 1 ∧ val = 0 then none
      else if 255 < 10 * val + (c.toNat - 48) then none
      else readOctets done (10 * val + (c.toNat - 48)) (digLen + 1) cs
    else if c = '.' then
      if digLen = 0 ∨ done.length = 3 then none
      else readOctets (done ++ [UInt8.ofNat val]) 0 0 cs
    else none

/-- A group of at most four hexadecimal digits, and the text after it. -/
def readGroup (off acc : ℕ) : List Char → Option (ℕ × List Char)
  | [] => if off = 0 then none else some (acc, [])
  | c :: cs =>
    match hexValue? c with
    | none => if off = 0 then none else some (acc, c :: cs)
    | some d => if 3 < off then none else readGroup (off + 1) (16 * acc + d) cs

/-- The loop of `parseIPv6`: the groups that there is room for, those read so
    far, and the place of the ellipsis; with the text that is left. -/
def readGroups : ℕ → List ℕ → Option ℕ → List Char → Option (List ℕ × Option ℕ × List Char)
  | 0, done, ellipsis, s => some (done, ellipsis, s)
  | n + 1, done, ellipsis, s =>
    match readGroup 0 0 s with
    | none => none
    | some (x, rest) =>
      match rest with
      | [] => some (done ++ [x], ellipsis, [])
      | '.' :: _ =>
        -- an IPv4 address at the end
        if ellipsis = none ∧ done.length ≠ 6 ∨ 6 < done.length then none
        else (readOctets [] 0 0 s).map fun ip => (done ++ groups ip, ellipsis, [])
      | [':'] => none
      | ':' :: ':' :: rest =>
        if ellipsis.isSome then none
        else if rest = [] then some (done ++ [x], some (done.length + 1), [])
        else readGroups n (done ++ [x]) (some (done.length + 1)) rest
      | ':' :: rest => readGroups n (done ++ [x]) ellipsis rest
      | _ => none

/-- What `parseIPv6` makes of the groups. -/
def expand : List ℕ × Option ℕ × List Char → Option (List ℕ)
  | (gs, ellipsis, s) =>
    if s ≠ [] then none
    else if gs.length < 8 then
      ellipsis.map fun e => gs.take e ++ List.replicate (8 - gs.length) 0 ++ gs.drop e
    else if ellipsis.isSome then none
    else some gs

/-- `parseIPv6` of `net/netip`, of a text without a zone. -/
def parseIPv6 : List Char → Option IP
  | [':', ':'] => some (List.replicate 16 0)
  | ':' :: ':' :: s => ((readGroups 8 [] (some 0) s).bind expand).map ofGroups
  | s => ((readGroups 8 [] none s).bind expand).map ofGroups

/-- The characters that `netip.ParseAddr` looks for. -/
def isMark (c : Char) : Bool := c == '.' || c == ':' || c == '%'

/-- `netip.ParseAddr`, of addresses without a zone: the first dot, colon or
    percent sign tells which kind of address it is. -/
def parseAddr (s : List Char) : Option IP :=
  match s.find? isMark with
  | some '.' => readOctets [] 0 0 s
  | some ':' => if '%' ∈ s then none else parseIPv6 s
  | _ => none

/-- `net.ParseIP` -/
def parseIP (s : List Char) : Option IP := (parseAddr s).bind to16

/-! ## Reading what is written -/

section
variable {n x val k : ℕ} {done : IP} {cs : List Char}

theorem readOctets_digit (h : n < 10) : readOctets done val k (n.digitChar :: cs) =
    if k = 1 ∧ val = 0 then none
    else if 255 < 10 * val + n then none
    else readOctets done (10 * val + n) (k + 1) cs := by
  have hval : n.digitChar.toNat = 48 + n := Nat.toNat_digitChar_of_lt_ten h
  have hle : '0' ≤ n.digitChar ∧ n.digitChar ≤ '9' := by
    have hall : ∀ n < 10, '0' ≤ Nat.digitChar n ∧ Nat.digitChar n ≤ '9' := by decide
    exact hall n h
  rw [readOctets, if_pos hle, hval, Nat.add_sub_cancel_left]

theorem readOctets_dot (hk : k ≠ 0) (hd : done.length < 3) :
    readOctets done val k ('.' :: cs) = readOctets (done ++ [UInt8.ofNat val]) 0 0 cs := by
  have hdot : ¬('0' ≤ '.' ∧ '.' ≤ '9') := by decide
  rw [readOctets, if_neg hdot, if_pos rfl, if_neg (by omega)]

/-- A written octet is read. -/
theorem readOctets_decimal (done : List UInt8) (hx : x < 256) (cs : List Char) :
    ∃ k ≠ 0, readOctets done 0 0 (appendDecimal x ++ cs) = readOctets done x k cs := by
  unfold appendDecimal
  by_cases h₁ : 100 ≤ x
  · refine ⟨3, by omega, ?_⟩
    rw [if_pos h₁, if_pos (by omega)]
    simp only [List.cons_append, List.nil_append]
    rw [readOctets_digit (by omega), if_neg (by omega), if_neg (by omega),
      readOctets_digit (by omega), if_neg (by omega), if_neg (by omega),
      readOctets_digit (by omega), if_neg (by omega), if_neg (by omega)]
    congr 1
    omega
  · by_cases h₂ : 10 ≤ x
    · refine ⟨2, by omega, ?_⟩
      rw [if_neg h₁, if_pos h₂]
      simp only [List.cons_append, List.nil_append]
      rw [readOctets_digit (by omega), if_neg (by omega), if_neg (by omega),
        readOctets_digit (by omega), if_neg (by omega), if_neg (by omega)]
      congr 1
      omega
    · refine ⟨1, by omega, ?_⟩
      rw [if_neg h₁, if_neg h₂]
      simp only [List.cons_append, List.nil_append]
      rw [readOctets_digit (by omega), if_neg (by omega), if_neg (by omega)]
      congr 1
      omega

theorem readOctets_text4 (a b c d : UInt8) : readOctets [] 0 0 (text4 a b c d) = some [a, b, c, d] := by
  obtain ⟨k₁, hk₁, h₁⟩ := readOctets_decimal [] a.toNat_lt
    ('.' :: (appendDecimal b.toNat ++ '.' :: (appendDecimal c.toNat ++ '.' :: appendDecimal d.toNat)))
  rw [text4, h₁, readOctets_dot hk₁ (by simp)]
  obtain ⟨k₂, hk₂, h₂⟩ := readOctets_decimal ([] ++ [UInt8.ofNat a.toNat]) b.toNat_lt
    ('.' :: (appendDecimal c.toNat ++ '.' :: appendDecimal d.toNat))
  rw [h₂, readOctets_dot hk₂ (by simp)]
  obtain ⟨k₃, hk₃, h₃⟩ := readOctets_decimal
    ([] ++ [UInt8.ofNat a.toNat] ++ [UInt8.ofNat b.toNat]) c.toNat_lt
    ('.' :: appendDecimal d.toNat)
  rw [h₃, readOctets_dot hk₃ (by simp)]
  obtain ⟨k₄, hk₄, h₄⟩ := readOctets_decimal
    ([] ++ [UInt8.ofNat a.toNat] ++ [UInt8.ofNat b.toNat] ++ [UInt8.ofNat c.toNat]) d.toNat_lt []
  rw [List.append_nil] at h₄
  rw [h₄, readOctets, if_neg (by simp [hk₄])]
  simp

theorem readGroup_digit {off acc : ℕ} (h : n < 16) : readGroup off acc (n.digitChar :: cs) =
    if 3 < off then none else readGroup (off + 1) (16 * acc + n) cs := by
  rw [readGroup, hexValue?_digitChar h]

theorem readGroup_stop {off acc : ℕ} (ho : off ≠ 0) (h : ∀ c ∈ cs.head?, hexValue? c = none) :
    readGroup off acc cs = some (acc, cs) := by
  cases cs with
  | nil => rw [readGroup, if_neg ho]
  | cons c cs => rw [readGroup, h c rfl, if_neg ho]

/-- A written group is read. -/
theorem readGroup_hex (hx : x < 65536) (cs : List Char) (h : ∀ c ∈ cs.head?, hexValue? c = none) :
    readGroup 0 0 (appendHex x ++ cs) = some (x, cs) := by
  have last {off acc : ℕ} (ho : off ≤ 3) (hacc : 16 * acc + x % 16 = x) :
      readGroup off acc ((x % 16).digitChar :: cs) = some (x, cs) := by
    rw [readGroup_digit (by omega), if_neg (by omega), hacc]
    exact readGroup_stop (by omega) h
  unfold appendHex
  by_cases h₁ : 0x1000 ≤ x
  · rw [if_pos h₁, if_pos (by omega), if_pos (by omega)]
    simp only [List.cons_append, List.nil_append]
    rw [readGroup_digit (by omega), if_neg (by omega), readGroup_digit (by omega), if_neg (by omega),
      readGroup_digit (by omega), if_neg (by omega)]
    exact last (by omega) (by omega)
  · by_cases h₂ : 0x100 ≤ x
    · rw [if_neg h₁, if_pos h₂, if_pos (by omega)]
      simp only [List.cons_append, List.nil_append]
      rw [readGroup_digit (by omega), if_neg (by omega), readGroup_digit (by omega), if_neg (by omega)]
      exact last (by omega) (by omega)
    · by_cases h₃ : 0x10 ≤ x
      · rw [if_neg h₁, if_neg h₂, if_pos h₃]
        simp only [List.cons_append, List.nil_append]
        rw [readGroup_digit (by omega), if_neg (by omega)]
        exact last (by omega) (by omega)
      · rw [if_neg h₁, if_neg h₂, if_neg h₃]
        simp only [List.cons_append, List.nil_append]
        exact last (by omega) (by omega)

end

/-- What is written for a group begins with a digit. -/
theorem appendHex_head {x : ℕ} (hx : x < 65536) :
    ∃ c cs, appendHex x = c :: cs ∧ c ≠ ':' := by
  have hdigit : ∀ n < 16, Nat.digitChar n ≠ ':' := by decide
  unfold appendHex
  by_cases h₁ : 0x1000 ≤ x
  · rw [if_pos h₁]
    exact ⟨_, _, rfl, hdigit _ (by omega)⟩
  · by_cases h₂ : 0x100 ≤ x
    · rw [if_neg h₁, if_pos h₂]
      exact ⟨_, _, rfl, hdigit _ (by omega)⟩
    · by_cases h₃ : 0x10 ≤ x
      · rw [if_neg h₁, if_neg h₂, if_pos h₃]
        exact ⟨_, _, rfl, hdigit _ (by omega)⟩
      · rw [if_neg h₁, if_neg h₂, if_neg h₃]
        exact ⟨_, _, rfl, hdigit _ (by omega)⟩

theorem hexGroups_cons {x : ℕ} {gs : List ℕ} (hne : gs ≠ []) :
    hexGroups (x :: gs) = appendHex x ++ ':' :: hexGroups gs := by
  cases gs with
  | nil => exact absurd rfl hne
  | cons y gs => rfl

theorem hexGroups_head {gs : List ℕ} (hne : gs ≠ []) (hlt : ∀ x ∈ gs, x < 65536) :
    ∃ c cs, hexGroups gs = c :: cs ∧ c ≠ ':' := by
  cases gs with
  | nil => exact absurd rfl hne
  | cons x gs =>
    obtain ⟨c, cs, hcs, hc⟩ := appendHex_head (hlt x List.mem_cons_self)
    cases gs with
    | nil => exact ⟨c, cs, hcs, hc⟩
    | cons y gs =>
      refine ⟨c, cs ++ ':' :: hexGroups (y :: gs), ?_, hc⟩
      rw [hexGroups_cons (List.cons_ne_nil y gs), hcs, List.cons_append]

section
variable {n x : ℕ} {done gs hs : List ℕ} {ellipsis : Option ℕ}

theorem readGroups_last (hx : x < 65536) :
    readGroups (n + 1) done ellipsis (appendHex x) = some (done ++ [x], ellipsis, []) := by
  have hread := readGroup_hex hx [] (by simp)
  rw [List.append_nil] at hread
  rw [readGroups, hread]

theorem readGroups_colon (hx : x < 65536) {c : Char} (hc : c ≠ ':') (cs : List Char) :
    readGroups (n + 1) done ellipsis (appendHex x ++ ':' :: c :: cs) =
      readGroups n (done ++ [x]) ellipsis (c :: cs) := by
  have hread := readGroup_hex hx (':' :: c :: cs) (by simp [hexValue?])
  rw [readGroups, hread]
  simp [hc]

theorem readGroups_ellipsis (hx : x < 65536) (cs : List Char) :
    readGroups (n + 1) done none (appendHex x ++ ':' :: ':' :: cs) =
      if cs = [] then some (done ++ [x], some (done.length + 1), [])
      else readGroups n (done ++ [x]) (some (done.length + 1)) cs := by
  have hread := readGroup_hex hx (':' :: ':' :: cs) (by simp [hexValue?])
  rw [readGroups, hread]
  rfl

/-- Groups with colons between them are read. -/
theorem readGroups_hexGroups (hne : gs ≠ []) (hlt : ∀ x ∈ gs, x < 65536) (hn : gs.length ≤ n) :
    readGroups n done ellipsis (hexGroups gs) = some (done ++ gs, ellipsis, []) := by
  induction gs generalizing n done with
  | nil => exact absurd rfl hne
  | cons x gs ih =>
    obtain ⟨m, rfl⟩ : ∃ m, n = m + 1 := ⟨n - 1, by simp at hn; omega⟩
    have hx := hlt x List.mem_cons_self
    by_cases hgs : gs = []
    · subst hgs
      exact readGroups_last hx
    · have hlt' : ∀ y ∈ gs, y < 65536 := fun y hy => hlt y (List.mem_cons_of_mem _ hy)
      obtain ⟨c, cs, hcs, hc⟩ := hexGroups_head hgs hlt'
      rw [hexGroups_cons hgs, hcs, readGroups_colon hx hc, ← hcs,
        ih hgs hlt' (by simp at hn; omega), List.append_assoc, List.singleton_append]

/-- So are groups on both sides of an ellipsis. -/
theorem readGroups_both (hne : gs ≠ []) (hlt : ∀ x ∈ gs, x < 65536) (hlt' : ∀ x ∈ hs, x < 65536)
    (hn : gs.length + hs.length ≤ n) :
    readGroups n done none (hexGroups gs ++ ':' :: ':' :: hexGroups hs) =
      some (done ++ gs ++ hs, some (done.length + gs.length), []) := by
  induction gs generalizing n done with
  | nil => exact absurd rfl hne
  | cons x gs ih =>
    obtain ⟨m, rfl⟩ : ∃ m, n = m + 1 := ⟨n - 1, by simp at hn; omega⟩
    have hx := hlt x List.mem_cons_self
    by_cases hgs : gs = []
    · subst hgs
      rw [hexGroups, readGroups_ellipsis hx]
      by_cases hhs : hs = []
      · subst hhs
        simp [hexGroups]
      · obtain ⟨c, cs, hcs, -⟩ := hexGroups_head hhs hlt'
        rw [if_neg (by simp [hcs]), readGroups_hexGroups hhs hlt' (by simp at hn; omega)]
        simp
    · have hlt'' : ∀ y ∈ gs, y < 65536 := fun y hy => hlt y (List.mem_cons_of_mem _ hy)
      obtain ⟨c, cs, hcs, hc⟩ := hexGroups_head hgs hlt''
      rw [hexGroups_cons hgs, List.append_assoc, List.cons_append, hcs, List.cons_append,
        readGroups_colon hx hc, ← List.cons_append, ← hcs, ih hgs hlt'' (by simp at hn; omega)]
      simp [Nat.add_assoc, Nat.add_comm 1]

end

/-- The run of zeros that is left out. -/
theorem longestRun_eq {gs : List ℕ} {i l : ℕ} (h : longestRun gs = some (i, l)) :
    2 ≤ l ∧ gs = gs.take i ++ List.replicate l 0 ++ gs.drop (i + l) := by
  have hfold (is : List ℕ) (best : Option (ℕ × ℕ))
      (hbest : ∀ r ∈ best, 2 ≤ r.2 ∧ r.2 = zeroRun gs r.1) :
      ∀ r ∈ is.foldl (fun best i => if 2 ≤ zeroRun gs i ∧ ∀ r ∈ best, r.2 < zeroRun gs i then
        some (i, zeroRun gs i) else best) best, 2 ≤ r.2 ∧ r.2 = zeroRun gs r.1 := by
    induction is generalizing best with
    | nil => exact hbest
    | cons j is ih =>
      refine ih _ fun r hr => ?_
      dsimp only at hr
      split_ifs at hr with hj
      · cases hr
        exact ⟨hj.1, rfl⟩
      · exact hbest r hr
  obtain ⟨hl, hrun⟩ := hfold _ none nofun _ h
  refine ⟨hl, ?_⟩
  have hzeros : (gs.drop i).takeWhile (· == 0) = List.replicate l 0 := by
    refine List.eq_replicate_iff.2 ⟨hrun.symm, fun x hx => ?_⟩
    simpa using List.mem_takeWhile_imp hx
  have hrest : (gs.drop i).dropWhile (· == 0) = gs.drop (i + l) := by
    have hsplit := List.takeWhile_append_dropWhile (p := (· == 0)) (l := gs.drop i)
    rw [hzeros] at hsplit
    have := congrArg (List.drop l) hsplit
    rw [List.drop_left' (by simp), List.drop_drop] at this
    exact this
  rw [List.append_assoc, ← hzeros, ← hrest, List.takeWhile_append_dropWhile, List.take_append_drop]

/-- The groups are read back, whichever of them are left out. -/
theorem parseIPv6_text6 {gs : List ℕ} (hlen : gs.length = 8) (hlt : ∀ x ∈ gs, x < 65536) :
    parseIPv6 (text6 gs) = some (ofGroups gs) := by
  have hne : gs ≠ [] := by
    rintro rfl
    cases hlen
  have plain {hs : List ℕ} (hhs : hs ≠ []) (hlt : ∀ x ∈ hs, x < 65536) (cs : List Char) :
      parseIPv6 (hexGroups hs ++ cs) =
        ((readGroups 8 [] none (hexGroups hs ++ cs)).bind expand).map ofGroups := by
    obtain ⟨c, cs', hcs, hc⟩ := hexGroups_head hhs hlt
    rw [hcs, List.cons_append, parseIPv6]
    · intro h
      exact hc (List.cons.inj h).1
    · intro s h
      exact hc (List.cons.inj h).1
  unfold text6
  split
  next h =>
    have hplain := plain hne hlt []
    rw [List.append_nil] at hplain
    rw [hplain, readGroups_hexGroups hne hlt (by omega)]
    simp [expand, hlen]
  next i l h =>
    obtain ⟨hl, hgs⟩ := longestRun_eq h
    have hlen' : (gs.take i).length + l + (gs.drop (i + l)).length = 8 := by
      have := congrArg List.length hgs
      simp only [List.length_append, List.length_replicate] at this
      omega
    have hltd : ∀ x ∈ gs.drop (i + l), x < 65536 := fun x hx => hlt x (List.mem_of_mem_drop hx)
    have hltt : ∀ x ∈ gs.take i, x < 65536 := fun x hx => hlt x (List.mem_of_mem_take hx)
    have hexpand : expand (gs.take i ++ gs.drop (i + l), some (gs.take i).length, []) = some gs := by
      have hshort : (gs.take i ++ gs.drop (i + l)).length < 8 := by
        rw [List.length_append]
        omega
      have hzeros : 8 - (gs.take i ++ gs.drop (i + l)).length = l := by
        rw [List.length_append]
        omega
      rw [expand, if_neg (by simp), if_pos hshort, hzeros, Option.map_some, List.take_left, List.drop_left]
      exact congrArg some hgs.symm
    by_cases hi : gs.take i = []
    · -- the text begins with the ellipsis
      rw [hi] at hexpand ⊢
      by_cases hd : gs.drop (i + l) = []
      · have hgs' : gs = List.replicate 8 0 := by
          rw [hi, hd] at hgs hlen'
          simp only [List.length_nil] at hlen'
          rw [hgs, show l = 8 by omega]
          rfl
        rw [hd, hgs']
        rfl
      · obtain ⟨c, cs, hcs, -⟩ := hexGroups_head hd hltd
        have hread : readGroups 8 [] (some 0) (hexGroups (gs.drop (i + l))) =
            some ([] ++ gs.drop (i + l), some 0, []) := readGroups_hexGroups hd hltd (by omega)
        rw [hcs] at hread
        rw [hcs]
        show ((readGroups 8 [] (some 0) (c :: cs)).bind expand).map ofGroups = _
        rw [List.length_nil, List.nil_append] at hexpand
        rw [hread, Option.bind_some, List.nil_append, hexpand, Option.map_some]
    · rw [plain hi hltt, readGroups_both hi hltt hltd (by omega), Option.bind_some]
      simp only [List.nil_append, List.length_nil, Nat.zero_add, hexpand, Option.map_some]

theorem ofGroups_groups (ip : IP) (h : ip.length % 2 = 0) : ofGroups ip.groups = ip := by
  induction ip using groups.induct with
  | case1 a b ip ih =>
    have hb := b.toNat_lt
    have ha : (256 * a.toNat + b.toNat) / 256 = a.toNat := by omega
    have hb : (256 * a.toNat + b.toNat) % 256 = b.toNat := by omega
    rw [groups, ofGroups, List.flatMap_cons, ha, hb, UInt8.ofNat_toNat, UInt8.ofNat_toNat]
    show a :: b :: ofGroups (groups ip) = _
    rw [ih (by simp only [List.length_cons] at h; omega)]
  | case2 ip hno =>
    cases ip with
    | nil => rfl
    | cons a ip =>
      cases ip with
      | nil => cases h
      | cons b ip => exact absurd rfl (hno a b ip)

theorem groups_lt (ip : IP) : ∀ x ∈ ip.groups, x < 65536 := by
  induction ip using groups.induct with
  | case1 a b ip ih =>
    intro x hx
    rcases List.mem_cons.1 hx with rfl | hx
    · have := a.toNat_lt
      have := b.toNat_lt
      omega
    · exact ih x hx
  | case2 ip hno =>
    rw [groups]
    · exact nofun
    · exact hno

theorem length_groups (ip : IP) : ip.groups.length = ip.length / 2 := by
  induction ip using groups.induct with
  | case1 a b ip ih =>
    rw [groups, List.length_cons, ih, List.length_cons, List.length_cons]
    omega
  | case2 ip hno =>
    cases ip with
    | nil => rfl
    | cons a ip =>
      cases ip with
      | nil => simp [groups]
      | cons b ip => exact absurd rfl (hno a b ip)

/-! ## Characters of the text -/

/-- A digit of an address. -/
def IsDigit (c : Char) : Prop := ∃ n < 16, c = Nat.digitChar n

theorem IsDigit.not_isMark {c : Char} (h : IsDigit c) : isMark c = false := by
  obtain ⟨n, hn, rfl⟩ := h
  have hall : ∀ n < 16, isMark (Nat.digitChar n) = false := by decide
  exact hall n hn

theorem isDigit_decimal {x : ℕ} (hx : x < 256) : ∀ c ∈ appendDecimal x, IsDigit c := by
  intro c hc
  simp only [appendDecimal, List.mem_append, List.mem_singleton, List.mem_ite_nil_right] at hc
  rcases hc with (⟨-, rfl⟩ | ⟨-, rfl⟩) | rfl
  · exact ⟨_, by omega, rfl⟩
  · exact ⟨_, by omega, rfl⟩
  · exact ⟨_, by omega, rfl⟩

theorem isDigit_hex {x : ℕ} (hx : x < 65536) : ∀ c ∈ appendHex x, IsDigit c := by
  intro c hc
  simp only [appendHex, List.mem_append, List.mem_singleton, List.mem_ite_nil_right] at hc
  rcases hc with ((⟨-, rfl⟩ | ⟨-, rfl⟩) | ⟨-, rfl⟩) | rfl
  · exact ⟨_, by omega, rfl⟩
  · exact ⟨_, by omega, rfl⟩
  · exact ⟨_, by omega, rfl⟩
  · exact ⟨_, by omega, rfl⟩

theorem hexGroups_chars {gs : List ℕ} (hlt : ∀ x ∈ gs, x < 65536) :
    ∀ c ∈ hexGroups gs, c = ':' ∨ IsDigit c := by
  induction gs with
  | nil => exact nofun
  | cons x gs ih =>
    intro c hc
    have hx := isDigit_hex (hlt x List.mem_cons_self)
    by_cases hgs : gs = []
    · subst hgs
      exact .inr (hx c hc)
    · rw [hexGroups_cons hgs, List.mem_append, List.mem_cons] at hc
      rcases hc with hc | rfl | hc
      · exact .inr (hx c hc)
      · exact .inl rfl
      · exact ih (fun y hy => hlt y (List.mem_cons_of_mem _ hy)) c hc

theorem text6_chars {gs : List ℕ} (hlt : ∀ x ∈ gs, x < 65536) :
    ∀ c ∈ text6 gs, c = ':' ∨ IsDigit c := by
  intro c hc
  unfold text6 at hc
  split at hc
  · exact hexGroups_chars hlt c hc
  · simp only [List.mem_append, List.mem_cons] at hc
    rcases hc with hc | rfl | rfl | hc
    · exact hexGroups_chars (fun x hx => hlt x (List.mem_of_mem_take hx)) c hc
    · exact .inl rfl
    · exact .inl rfl
    · exact hexGroups_chars (fun x hx => hlt x (List.mem_of_mem_drop hx)) c hc

theorem text4_chars (a b c d : UInt8) : ∀ x ∈ text4 a b c d, x = '.' ∨ IsDigit x := by
  intro x hx
  simp only [text4, List.mem_append, List.mem_cons] at hx
  rcases hx with hx | rfl | hx | rfl | hx | rfl | hx
  · exact .inr (isDigit_decimal a.toNat_lt x hx)
  · exact .inl rfl
  · exact .inr (isDigit_decimal b.toNat_lt x hx)
  · exact .inl rfl
  · exact .inr (isDigit_decimal c.toNat_lt x hx)
  · exact .inl rfl
  · exact .inr (isDigit_decimal d.toNat_lt x hx)

theorem find?_isMark {cs ds : List Char} {c : Char} (hcs : ∀ x ∈ cs, IsDigit x) (hc : isMark c) :
    (cs ++ c :: ds).find? isMark = some c := by
  have hnone : cs.find? isMark = none :=
    List.find?_eq_none.2 fun x hx => by simp [(hcs x hx).not_isMark]
  rw [List.find?_append, hnone, Option.none_or, List.find?_cons_of_pos hc]

/-- The first mark of the text of an IPv6 address is a colon. -/
theorem find?_text6 {gs : List ℕ} (hlen : gs.length = 8) (hlt : ∀ x ∈ gs, x < 65536) :
    (text6 gs).find? isMark = some ':' := by
  have before {hs : List ℕ} (hlt : ∀ x ∈ hs, x < 65536) (cs : List Char) :
      (hexGroups hs ++ ':' :: cs).find? isMark = some ':' := by
    cases hs with
    | nil => rfl
    | cons x hs =>
      have hx := isDigit_hex (hlt x List.mem_cons_self)
      by_cases hhs : hs = []
      · subst hhs
        exact find?_isMark hx rfl
      · rw [hexGroups_cons hhs, List.append_assoc]
        exact find?_isMark hx rfl
  unfold text6
  split
  · cases gs with
    | nil => cases hlen
    | cons x gs =>
      have hgs : gs ≠ [] := by
        rintro rfl
        cases hlen
      rw [hexGroups_cons hgs]
      exact find?_isMark (isDigit_hex (hlt x List.mem_cons_self)) rfl
  · exact before (fun x hx => hlt x (List.mem_of_mem_take hx)) _

/-! ## Round trip -/

/-- The addresses that there are. -/
def Valid (ip : IP) : Prop := ip.length = 4 ∨ ip.length = 16

theorem exists_of_length_four {ip : IP} (h : ip.length = 4) : ∃ a b c d, ip = [a, b, c, d] := by
  match ip, h with
  | [a, b, c, d], _ => exact ⟨a, b, c, d, rfl⟩

/-- An address is an IPv4 address, mapped or not, or is written in groups. -/
theorem string_cases {ip : IP} (h : ip.Valid) :
    (∃ a b c d, ip.to4 = some [a, b, c, d] ∧ ip.to16 = some (v4InV6Prefix ++ [a, b, c, d]) ∧
      ip.string = text4 a b c d) ∨
    ip.length = 16 ∧ ip.to4 = none ∧ ip.to16 = some ip ∧ ip.string = text6 ip.groups := by
  rcases h with h | h
  · obtain ⟨a, b, c, d, rfl⟩ := exists_of_length_four h
    exact .inl ⟨a, b, c, d, rfl, rfl, rfl⟩
  · by_cases hp : ip.take 12 = v4InV6Prefix
    · have hd : (ip.drop 12).length = 4 := by
        rw [List.length_drop, h]
      obtain ⟨a, b, c, d, hip⟩ := exists_of_length_four hd
      have h4 : ip.to4 = some [a, b, c, d] := by
        rw [to4, if_neg (by omega), if_pos ⟨h, hp⟩, hip]
      refine .inl ⟨a, b, c, d, h4, ?_, by rw [string, h4]⟩
      rw [to16, if_neg (by omega), if_pos h, ← hip, ← hp, List.take_append_drop]
    · have h4 : ip.to4 = none := by
        rw [to4, if_neg (by omega), if_neg fun h => hp h.2]
      refine .inr ⟨h, h4, ?_, ?_⟩
      · rw [to16, if_neg (by omega), if_pos h]
      · rw [string, h4, if_pos h]

theorem string_chars {ip : IP} (h : ip.Valid) : ∀ c ∈ ip.string, isMark c ∨ IsDigit c := by
  intro c hc
  rcases string_cases h with ⟨x, y, z, w, -, -, hs⟩ | ⟨-, -, -, hs⟩
  · rw [hs] at hc
    rcases text4_chars x y z w c hc with rfl | hc
    · exact .inl rfl
    · exact .inr hc
  · rw [hs] at hc
    rcases text6_chars ip.groups_lt c hc with rfl | hc
    · exact .inl rfl
    · exact .inr hc

/-- No bracket is in the text of an address. -/
theorem no_bracket {ip : IP} (h : ip.Valid) : '[' ∉ ip.string ∧ ']' ∉ ip.string := by
  have hno : ¬ isMark '[' ∧ ¬ isMark ']' := by decide
  have hdigit : ∀ n < 16, '[' ≠ Nat.digitChar n ∧ ']' ≠ Nat.digitChar n := by decide
  constructor
  · intro hc
    rcases string_chars h _ hc with hm | ⟨n, hn, hd⟩
    · exact hno.1 hm
    · exact (hdigit n hn).1 hd
  · intro hc
    rcases string_chars h _ hc with hm | ⟨n, hn, hd⟩
    · exact hno.2 hm
    · exact (hdigit n hn).2 hd

theorem to16_valid {ip : IP} (h : ip.Valid) : ∃ x, ip.to16 = some x ∧ x.Valid := by
  rcases string_cases h with ⟨a, b, c, d, -, h16, -⟩ | ⟨hlen, -, h16, -⟩
  · exact ⟨_, h16, .inr rfl⟩
  · exact ⟨_, h16, .inr hlen⟩

/-- **The text of an address is read back.** -/
theorem parseIP_string {ip : IP} (h : ip.Valid) : parseIP ip.string = ip.to16 := by
  rcases string_cases h with ⟨a, b, c, d, -, h16, hs⟩ | ⟨hlen, -, h16, hs⟩
  · have hfind : (text4 a b c d).find? isMark = some '.' :=
      find?_isMark (isDigit_decimal a.toNat_lt) rfl
    rw [hs, parseIP, parseAddr, hfind, h16]
    simp only [readOctets_text4]
    rfl
  · have hlen' : ip.groups.length = 8 := by
      rw [length_groups, hlen]
    have hno : '%' ∉ text6 ip.groups := by
      intro hmem
      rcases text6_chars ip.groups_lt _ hmem with hc | hc
      · cases hc
      · exact absurd hc.not_isMark (by decide)
    rw [hs, parseIP, parseAddr, find?_text6 hlen' ip.groups_lt]
    simp only [if_neg hno]
    rw [parseIPv6_text6 hlen' ip.groups_lt, ofGroups_groups ip (by rw [hlen]), Option.bind_some]

/-- No address is read from a text with a percent sign. -/
theorem parseIP_percent {s : List Char} (h : '%' ∈ s) : parseIP s = none := by
  have hoct (cs : List Char) (done : IP) (val k : ℕ) (hcs : '%' ∈ cs) : readOctets done val k cs =
      none := by
    induction cs generalizing done val k with
    | nil => cases hcs
    | cons c cs ih =>
      rw [readOctets]
      rcases List.mem_cons.1 hcs with rfl | hcs
      · rw [if_neg (by decide), if_neg (by decide)]
      · split_ifs
        · rfl
        · rfl
        · exact ih _ _ _ hcs
        · rfl
        · exact ih _ _ _ hcs
        · rfl
  rw [parseIP, parseAddr]
  split
  · rw [hoct s [] 0 0 h]
    rfl
  · rw [if_pos h]
    rfl
  · rfl

end IP

/-! ## Addresses with a port -/

/-- `net.JoinHostPort` -/
def joinHostPort (host port : List Char) : List Char :=
  if ':' ∈ host then ('[' :: host ++ [']']) ++ ':' :: port else host ++ ':' :: port

/-- The text before and after the last `sep`. -/
def cutLast (sep : Char) (cs : List Char) : Option (List Char × List Char) :=
  (cutChars sep cs.reverse).map fun (after, before) => (before.reverse, after.reverse)

/-- `net.SplitHostPort` -/
def splitHostPort (hostport : List Char) : Except String (List Char × List Char) :=
  let addrErr (why : String) : Except String (List Char × List Char) :=
    .error ("address " ++ String.ofList hostport ++ ": " ++ why)
  match cutLast ':' hostport with
  | none => addrErr "missing port in address"
  | some (before, port) =>
    if hostport.head? = some '[' then
      match cutChars ']' hostport with
      | none => addrErr "missing ']' in address"
      | some (inner, after) =>
        if after = [] then addrErr "missing port in address"
        else if inner.length + 1 ≠ before.length then
          -- the bracket is not followed by the last colon
          if after.head? = some ':' then addrErr "too many colons in address"
          else addrErr "missing port in address"
        else if '[' ∈ hostport.drop 1 then addrErr "unexpected '[' in address"
        else if ']' ∈ after then addrErr "unexpected ']' in address"
        else .ok (inner.drop 1, port)
    else if ':' ∈ before then addrErr "too many colons in address"
    else if '[' ∈ hostport then addrErr "unexpected '[' in address"
    else if ']' ∈ hostport then addrErr "unexpected ']' in address"
    else .ok (before, port)

section
variable {host port : List Char}

theorem eq_of_cutChars {sep : Char} {cs before after : List Char}
    (h : cutChars sep cs = some (before, after)) : cs = before ++ sep :: after := by
  induction cs generalizing before with
  | nil => cases h
  | cons c cs ih =>
    rw [cutChars] at h
    split_ifs at h with hc
    · cases h
      rw [hc]
      rfl
    · obtain ⟨⟨b, a⟩, hcut, heq⟩ := Option.map_eq_some_iff.1 h
      cases heq
      rw [ih hcut]
      rfl

theorem cutLast_append {sep : Char} {cs ds : List Char} (h : sep ∉ ds) :
    cutLast sep (cs ++ sep :: ds) = some (cs, ds) := by
  have hrev : (cs ++ sep :: ds).reverse = ds.reverse ++ sep :: cs.reverse := by simp
  rw [cutLast, hrev, cutChars_append_cons (by simpa using h)]
  simp

/-- The host is read back, if it has no brackets. -/
theorem splitHostPort_join (hport : ∀ c ∈ port, c ≠ ':' ∧ c ≠ '[' ∧ c ≠ ']')
    (hhost : '[' ∉ host ∧ ']' ∉ host) : splitHostPort (joinHostPort host port) = .ok (host, port) := by
  have hcolon : ':' ∉ port := fun h => (hport _ h).1 rfl
  have hopen : '[' ∉ port := fun h => (hport _ h).2.1 rfl
  have hclose : ']' ∉ port := fun h => (hport _ h).2.2 rfl
  unfold joinHostPort
  by_cases h : ':' ∈ host
  · have hcut : cutChars ']' ('[' :: host ++ [']'] ++ ':' :: port) = some ('[' :: host, ':' :: port) := by
      have hne : ']' ∉ '[' :: host := by simpa using hhost.2
      have := cutChars_append_cons hne (':' :: port)
      simpa using this
    rw [if_pos h, splitHostPort, cutLast_append hcolon, hcut]
    simp [hhost.1, hopen, hclose]
  · have hhead : (host ++ ':' :: port).head? ≠ some '[' := by
      cases host with
      | nil => simp
      | cons c cs =>
        rintro hc
        cases hc
        exact hhost.1 List.mem_cons_self
    have hopen' : '[' ∉ host ++ ':' :: port := by simp [hhost.1, hopen]
    have hclose' : ']' ∉ host ++ ':' :: port := by simp [hhost.2, hclose]
    rw [if_neg h, splitHostPort, cutLast_append hcolon]
    simp only [if_neg hhead, if_neg h, if_neg hopen', if_neg hclose']

/-- No other host is read. -/
theorem splitHostPort_join_ok (hport : ':' ∉ port) (hhead : host.head? ≠ some '[')
    {r : List Char × List Char} (h : splitHostPort (joinHostPort host port) = .ok r) : r.1 = host := by
  unfold joinHostPort at h
  by_cases hc : ':' ∈ host
  · rw [if_pos hc, splitHostPort, cutLast_append hport] at h
    simp only [List.cons_append, List.head?_cons, if_true] at h
    split at h
    next => cases h
    next inner after hcut =>
      split_ifs at h with h₁ h₂ h₃ h₄ h₅
      cases h
      rw [not_not] at h₂
      have hsplit := eq_of_cutChars hcut
      have hlen : ('[' :: host).length = inner.length := by
        simp only [List.length_cons, List.length_append, List.length_nil] at h₂ ⊢
        omega
      have heq : '[' :: host ++ ']' :: ':' :: port = inner ++ ']' :: after := by
        rw [← hsplit]
        simp
      obtain ⟨hin, -⟩ := List.append_inj heq hlen
      rw [← hin]
      rfl
  · have hhead' : (host ++ ':' :: port).head? ≠ some '[' := by
      cases host with
      | nil => simp
      | cons c cs => exact hhead
    rw [if_neg hc, splitHostPort, cutLast_append hport] at h
    simp only [if_neg hhead', if_neg hc] at h
    split_ifs at h
    cases h
    rfl

end

end Lib
