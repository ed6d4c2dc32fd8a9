/-
  Signing and checking a payload (`setSigningHeaders` in
  `internal/webhook/dispatcher.go`, `verify` in `scripts/verify-webhook.py`).

  Payloads are bytes here, and secrets are bytes for the source and texts for
  the script.  A `Mac` stands for HMAC-SHA256.

  * `macInput_injective`: a signature covers the time and the payload;
  * `verify_iff`: what the script accepts;
  * `verify_signed`: what one side signs the other accepts;
  * `signed_request_verifies`: so do the requests of `send`.
-/
import Mathlib.Algebra.Order.Floor.Ring
import Mathlib.Data.Rat.Floor
import Mailrelay.Lib.Bytes
import Mailrelay.Webhook.Request

namespace Mailrelay

open Lib

/-- HMAC-SHA256 of a message under a key. -/
abbrev Mac := Bytes → Bytes → Vector UInt8 32

/-! ## The source -/

/-- What is written to the MAC. -/
def macInput (timestamp : String) (payload : Bytes) : Bytes := utf8 (timestamp ++ ".") ++ payload

/-- `"sha256="+hex.EncodeToString(sum)` -/
def signatureText (sum : Vector UInt8 32) : String := "sha256=" ++ String.ofList (hex sum.toList)

section
variable (mac : Mac)

/-- `setSigningHeaders` on bytes, at a time in Unix seconds. -/
def setSigningHeadersBytes (payload secret : Bytes) (deliveryId : String) (unix : Int64)
    (h : HttpHeader) : HttpHeader :=
  if secret = [] then h
  else
    let timestamp := toString unix.toInt
    let sum := mac secret (macInput timestamp payload)
    setHeader "X-Mailrelay-Delivery" deliveryId
      (setHeader "X-Mailrelay-Signature" (signatureText sum)
        (setHeader "X-Mailrelay-Timestamp" timestamp h))

/-! ## The script -/

/-- `re.fullmatch(r"[0-9]+", s)` -/
def matchesDigits (s : String) : Bool := decide (s ≠ "") && s.toList.all Char.isDigit

/-- `re.fullmatch(r"sha256=[0-9a-f]{64}", s)` -/
def matchesSignature (s : String) : Bool :=
  decide (s.toList.take 7 = "sha256=".toList) && decide ((s.toList.drop 7).length = 64) &&
    (s.toList.drop 7).all isLowerHex

/-- `int` of a text of digits; of more than 4300 it is a `ValueError`. -/
def intOfDigits (s : String) : Option ℕ :=
  if s.length ≤ 4300 then some (Nat.ofDigitChars 10 s.toList 0) else none

/-- `int` of a floating-point number: what is after the point is cut off. -/
def intOfFloat (x : ℚ) : ℤ := if 0 ≤ x then ⌊x⌋ else ⌈x⌉

/-- `verify`, when `time.time()` is `now`; `none` is an exception. -/
def verify (secret : String) (body : Bytes) (timestamp signature : String) (now : ℚ) : Option Bool := do
  if matchesDigits timestamp = false then
    return false
  let seconds ← intOfDigits timestamp
  if |intOfFloat now - seconds| > 300 then
    return false
  if matchesSignature signature = false then
    return false
  let message ← encodeAscii timestamp
  let expected := signatureText (mac (utf8 secret) (message ++ [46] ++ body))
  return expected == signature

end

/-! ## What the MAC covers -/

/-- A text of digits, with a sign or without. -/
def IsDecimal (s : String) : Prop :=
  ∃ ds : List Char, ds ≠ [] ∧ (∀ c ∈ ds, c.isDigit) ∧ (s.toList = ds ∨ s.toList = '-' :: ds)

theorem isDigit_bounds {c : Char} (h : c.isDigit) : 48 ≤ c.toNat ∧ c.toNat ≤ 57 := by
  simp only [Char.isDigit, Bool.and_eq_true, decide_eq_true_eq] at h
  exact ⟨h.1, h.2⟩

theorem IsDecimal.mem {s : String} (h : IsDecimal s) {c : Char} (hc : c ∈ s.toList) :
    c.toNat < 128 ∧ c.toNat ≠ 46 := by
  obtain ⟨ds, -, hds, hs | hs⟩ := h
  · have := isDigit_bounds (hds c (hs ▸ hc))
    omega
  · rw [hs] at hc
    rcases List.mem_cons.1 hc with rfl | hc
    · decide
    · have := isDigit_bounds (hds c hc)
      omega

theorem IsDecimal.ascii {s : String} (h : IsDecimal s) : IsAscii s := fun _ hc => (h.mem hc).1

/-- No byte of a decimal number is a full stop. -/
theorem IsDecimal.stop_notMem {s : String} (h : IsDecimal s) : 46 ∉ utf8 s := by
  intro hm
  obtain ⟨c, hc, he⟩ := mem_utf8_ascii h.ascii hm
  exact (h.mem hc).2 he

theorem isDecimal_natRepr (n : ℕ) : IsDecimal n.repr := by
  refine ⟨Nat.toDigits 10 n, Nat.toDigits_ne_nil, fun c hc => ?_, .inl Nat.toList_repr⟩
  exact Nat.isDigit_of_mem_toDigits (by decide) (by decide) hc

/-- What `strconv.FormatInt` writes. -/
theorem isDecimal_toString (n : ℤ) : IsDecimal (toString n) := by
  rcases n with n | n
  · exact isDecimal_natRepr n
  · have hsign : toString (Int.negSucc n) = "-" ++ (n + 1).repr := rfl
    refine ⟨(n + 1).repr.toList, by simp, fun c hc => ?_, .inr ?_⟩
    · rw [Nat.toList_repr] at hc
      exact Nat.isDigit_of_mem_toDigits (by decide) (by decide) hc
    · rw [hsign, String.toList_append]
      rfl

theorem isDecimal_of_matchesDigits {s : String} (h : matchesDigits s) : IsDecimal s := by
  simp only [matchesDigits, Bool.and_eq_true, decide_eq_true_eq, List.all_eq_true] at h
  exact ⟨s.toList, by simpa using h.1, h.2, .inl rfl⟩

theorem macInput_eq (timestamp : String) (payload : Bytes) :
    macInput timestamp payload = utf8 timestamp ++ 46 :: payload := by
  rw [macInput, utf8_append, List.append_assoc]
  rfl

/-- **Time and payload can be read off the input of the MAC.** -/
theorem macInput_injective {timestamp timestamp' : String} {payload payload' : Bytes}
    (ht : IsDecimal timestamp) (ht' : IsDecimal timestamp')
    (h : macInput timestamp payload = macInput timestamp' payload') :
    timestamp = timestamp' ∧ payload = payload' := by
  rw [macInput_eq, macInput_eq] at h
  obtain ⟨hbytes, hpayload⟩ := append_cons_injective ht.stop_notMem ht'.stop_notMem h
  exact ⟨utf8_injective hbytes, hpayload⟩

/-! ## What the script accepts -/

theorem matchesDigits_repr (n : ℕ) : matchesDigits n.repr := by
  simp only [matchesDigits, Bool.and_eq_true, decide_eq_true_eq, List.all_eq_true]
  refine ⟨Nat.repr_ne_empty, fun c hc => ?_⟩
  rw [Nat.toList_repr] at hc
  exact Nat.isDigit_of_mem_toDigits (by decide) (by decide) hc

/-- An int64 has at most 19 digits. -/
theorem intOfDigits_repr {n : ℕ} (h : n < 2 ^ 63) : intOfDigits n.repr = some n := by
  have hlen : (Nat.toDigits 10 n).length ≤ 4300 :=
    ((Nat.length_toDigits_le_iff (by decide) (by decide)).2 (show n < 10 ^ 19 by omega)).trans
      (by decide)
  rw [intOfDigits, ← String.length_toList, Nat.toList_repr, if_pos hlen, Nat.ofDigitChars_ten_toDigits]

/-- Cutting off does not leave an interval of whole seconds. -/
theorem abs_intOfFloat_le {x : ℚ} {t d : ℤ} (h : |x - t| ≤ d) : |intOfFloat x - t| ≤ d := by
  obtain ⟨hlow, hhigh⟩ := abs_le.1 h
  have hlow' : ((t - d : ℤ) : ℚ) ≤ x := by push_cast; linarith
  have hhigh' : x ≤ ((t + d : ℤ) : ℚ) := by push_cast; linarith
  have hbetween : t - d ≤ intOfFloat x ∧ intOfFloat x ≤ t + d := by
    unfold intOfFloat
    split_ifs with hx
    · refine ⟨Int.le_floor.2 hlow', ?_⟩
      exact_mod_cast (Int.floor_le x).trans hhigh'
    · refine ⟨?_, Int.ceil_le.2 hhigh'⟩
      exact_mod_cast hlow'.trans (Int.le_ceil x)
  rw [abs_le]
  omega

theorem matchesSignature_signatureText (sum : Vector UInt8 32) : matchesSignature (signatureText sum) := by
  have htext : (signatureText sum).toList = "sha256=".toList ++ hex sum.toList := by
    rw [signatureText, String.toList_append]
    exact congrArg _ String.toList_ofList
  have htake : (signatureText sum).toList.take 7 = "sha256=".toList := by
    rw [htext]
    exact List.take_left' rfl
  have hdrop : (signatureText sum).toList.drop 7 = hex sum.toList := by
    rw [htext]
    exact List.drop_left' rfl
  simp only [matchesSignature, htake, hdrop, length_hex, Vector.length_toList, Bool.and_eq_true,
    decide_eq_true_eq, List.all_eq_true]
  exact ⟨⟨trivial, trivial⟩, fun c hc => mem_hex hc⟩

/-- **What the script accepts**: a fresh time and the signature that the source
    would have written. -/
theorem verify_iff (mac : Mac) (secret : String) (body : Bytes) (timestamp signature : String) (now : ℚ) :
    verify mac secret body timestamp signature now = some true ↔
      matchesDigits timestamp ∧ (∃ n : ℕ, intOfDigits timestamp = some n ∧ |intOfFloat now - n| ≤ 300) ∧
        signature = signatureText (mac (utf8 secret) (macInput timestamp body)) := by
  unfold verify
  by_cases hdigits : matchesDigits timestamp
  · have hascii := encodeAscii_eq_some (isDecimal_of_matchesDigits hdigits).ascii
    rcases hn : intOfDigits timestamp with _ | n
    · simp [hdigits]
    · by_cases hfresh : |intOfFloat now - n| ≤ 300
      · by_cases hsign : matchesSignature signature
        · simp [hdigits, hfresh, not_lt.2 hfresh, hsign, hascii, macInput_eq]
          exact eq_comm
        · have hne : signature ≠ signatureText (mac (utf8 secret) (macInput timestamp body)) := by
            rintro rfl
            exact hsign (matchesSignature_signatureText _)
          simp [hdigits, hsign, hne]
      · simp [hdigits, hfresh, not_le.1 hfresh]
  · simp [hdigits]

/-- **The script accepts a signature** of the same payload, while it is fresh. -/
theorem verify_signed (mac : Mac) (secret : String) (payload : Bytes) {n : ℕ} (hn : n < 2 ^ 63)
    {now : ℚ} (hnow : |now - n| ≤ 300) :
    verify mac secret payload n.repr (signatureText (mac (utf8 secret) (macInput n.repr payload))) now =
      some true := by
  have hfresh : |intOfFloat now - n| ≤ 300 := abs_intOfFloat_le (by exact_mod_cast hnow)
  rw [verify_iff]
  exact ⟨matchesDigits_repr n, ⟨n, intOfDigits_repr hn, hfresh⟩, rfl⟩

/-! ## The two sides -/

/-- `Header.Get` -/
def getHeader (key : String) (h : HttpHeader) : String :=
  match h.find? fun f => f.1 = canonicalKey key with
  | some f => f.2
  | none => ""

theorem getHeader_setHeader (key key' value : String) (h : HttpHeader) :
    getHeader key (setHeader key' value h) =
      if canonicalKey key' = canonicalKey key then value else getHeader key h := by
  unfold getHeader setHeader
  rw [List.find?_append]
  split_ifs with hkey
  · have hnone : (h.filter fun f => f.1 ≠ canonicalKey key').find? (fun f => f.1 = canonicalKey key) =
        none := by
      rw [List.find?_eq_none]
      intro f hf
      have hne := (List.mem_filter.1 hf).2
      simpa [hkey] using hne
    rw [hnone]
    simp [hkey]
  · have hsame : (h.filter fun f => f.1 ≠ canonicalKey key').find? (fun f => f.1 = canonicalKey key) =
        h.find? fun f => f.1 = canonicalKey key := by
      rw [List.find?_filter]
      congr 1
      funext f
      by_cases hf : f.1 = canonicalKey key
      · simp [hf, Ne.symm hkey]
      · simp [hf]
    rw [hsame]
    simp [hkey]

/-- The two fields that the script is given. -/
theorem getHeader_signed (mac : Mac) (payload : Bytes) {secret : Bytes} (hs : secret ≠ [])
    (deliveryId : String) (unix : Int64) (h : HttpHeader) :
    getHeader "X-Mailrelay-Timestamp" (setSigningHeadersBytes mac payload secret deliveryId unix h) =
        toString unix.toInt ∧
      getHeader "X-Mailrelay-Signature" (setSigningHeadersBytes mac payload secret deliveryId unix h) =
        signatureText (mac secret (macInput (toString unix.toInt) payload)) := by
  obtain ⟨ht, hg, hd⟩ := canonicalKey_signing
  unfold setSigningHeadersBytes
  rw [if_neg hs]
  simp only [getHeader_setHeader, ht, hg, hd]
  exact ⟨by simp, by simp⟩

/-- The fields of one side are accepted by the other. -/
theorem verify_getHeader (mac : Mac) {secret : String} (hs : secret ≠ "") (payload : Bytes)
    (deliveryId : String) {t : Int64} (ht : 0 ≤ t) (h : HttpHeader) {now : ℚ}
    (hnow : |now - t.toInt| ≤ 300) :
    verify mac secret payload
      (getHeader "X-Mailrelay-Timestamp" (setSigningHeadersBytes mac payload (utf8 secret) deliveryId t h))
      (getHeader "X-Mailrelay-Signature" (setSigningHeadersBytes mac payload (utf8 secret) deliveryId t h))
      now = some true := by
  obtain ⟨htime, hsign⟩ := getHeader_signed mac payload (mt utf8_eq_nil.1 hs) deliveryId t h
  obtain ⟨n, hn⟩ := Int.eq_ofNat_of_zero_le (Int64.le_iff_toInt_le.1 ht)
  have hlt := t.toInt_lt
  have hrepr : toString t.toInt = n.repr := by rw [hn]; rfl
  rw [htime, hsign, hrepr]
  rw [hn] at hnow hlt
  exact verify_signed mac secret payload (by omega) (by exact_mod_cast hnow)

/-! ## The requests of `send` -/

/-- The library computes HMAC-SHA256 of texts. -/
def HttpLib.HasMac (lib : HttpLib) (mac : Mac) : Prop :=
  ∀ key message, lib.hmac key message = String.ofList (hex (mac (utf8 key) (utf8 message)).toList)

theorem setSigningHeaders_utf8 {lib : HttpLib} {mac : Mac} (hmac : lib.HasMac mac)
    (payload secret deliveryId : String) (unix : Int64) (h : HttpHeader) :
    setSigningHeaders lib payload secret deliveryId unix.toInt h =
      setSigningHeadersBytes mac (utf8 payload) (utf8 secret) deliveryId unix h := by
  unfold setSigningHeaders setSigningHeadersBytes
  by_cases hs : secret = ""
  · rw [if_pos hs, if_pos (utf8_eq_nil.2 hs)]
  · rw [if_neg hs, if_neg (mt utf8_eq_nil.1 hs)]
    have hsum := hmac secret (toString unix.toInt ++ "." ++ payload)
    simp only [hsum, signatureText, macInput, utf8_append]

/-- **What a signed rule sends is accepted.** -/
theorem signed_request_verifies {lib : HttpLib} {mac : Mac} (hmac : lib.HasMac mac) {rule : Rule}
    {payload : String} {deliveryId : Uuid} {unix : Int64} {replies : ℕ → Reply}
    (hs : rule.webhook.signingSecret ≠ "") (hunix : 0 ≤ unix) {req : HttpRequest}
    (hreq : req ∈ (send lib rule payload deliveryId unix.toInt replies).requests) {now : ℚ}
    (hnow : |now - unix.toInt| ≤ 300) :
    verify mac rule.webhook.signingSecret (utf8 req.body) (getHeader "X-Mailrelay-Timestamp" req.header)
      (getHeader "X-Mailrelay-Signature" req.header) now = some true := by
  obtain ⟨-, hbody, hheader⟩ := buildRequest_ok lib (buildRequest_of_signed hs hreq)
  rw [hbody, hheader, setSigningHeaders_utf8 hmac]
  exact verify_getHeader mac hs (utf8 payload) _ hunix _ hnow

/-! ## The result -/

/-- **Signatures verify, and bind the time and the payload.** -/
theorem signatures_verify (mac : Mac) :
    (∀ (secret : String) (payload : Bytes) (deliveryId : String) (t : Int64) (h : HttpHeader) (now : ℚ),
      secret ≠ "" → 0 ≤ t → |now - t.toInt| ≤ 300 →
        verify mac secret payload
          (getHeader "X-Mailrelay-Timestamp"
            (setSigningHeadersBytes mac payload (utf8 secret) deliveryId t h))
          (getHeader "X-Mailrelay-Signature"
            (setSigningHeadersBytes mac payload (utf8 secret) deliveryId t h))
          now = some true) ∧
    ∀ (timestamp timestamp' : String) (payload payload' : Bytes),
      IsDecimal timestamp → IsDecimal timestamp' →
        macInput timestamp payload = macInput timestamp' payload' →
          timestamp = timestamp' ∧ payload = payload' := by
  constructor
  · intro secret payload deliveryId t h now hs ht hnow
    exact verify_getHeader mac hs payload deliveryId ht h hnow
  · intro timestamp timestamp' payload payload' hdecimal hdecimal' heq
    exact macInput_injective hdecimal hdecimal' heq

/-- HMAC-SHA256 on the message of `sampleHttp`. -/
def sampleMac : Mac := fun _ _ =>
  #v[0x97, 0x92, 0x68, 0x16, 0xe9, 0x8f, 0xbb, 0x41, 0xcc, 0xb1, 0x67, 0x32, 0x25, 0xff, 0x29, 0xa2,
    0xf3, 0x53, 0x69, 0x09, 0x99, 0x90, 0xe1, 0xb1, 0x56, 0x16, 0x51, 0xe7, 0xbd, 0x09, 0x7e, 0xbf]

theorem signatures_verify_sample :
    verify sampleMac "s3cret" (utf8 "\x7b\x7d")
        (getHeader "X-Mailrelay-Timestamp"
          (setSigningHeadersBytes sampleMac (utf8 "\x7b\x7d") (utf8 "s3cret") "3" 1700000000 []))
        (getHeader "X-Mailrelay-Signature"
          (setSigningHeadersBytes sampleMac (utf8 "\x7b\x7d") (utf8 "s3cret") "3" 1700000000 []))
        (1700000299.5 : ℚ) = some true ∧
      "1700000000" = toString (1700000000 : ℤ) ∧ utf8 "\x7b\x7d" = [123, 125] := by
  have ht : (1700000000 : Int64).toInt = 1700000000 := by decide
  obtain ⟨hverify, hinjective⟩ := signatures_verify sampleMac
  refine ⟨hverify "s3cret" _ "3" 1700000000 [] _ (by decide) (by decide) ?_,
    hinjective "1700000000" (toString (1700000000 : ℤ)) _ [123, 125] (isDecimal_natRepr 1700000000)
      (isDecimal_toString 1700000000) (by decide)⟩
  rw [ht]
  norm_num [abs_le]

end Mailrelay
