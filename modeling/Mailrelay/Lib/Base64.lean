/-
  Base64 with padding, which `base64.StdEncoding` writes.

  Three bytes are four digits of six bits each; a last group of one or two
  bytes is filled up with `=`.  `decode_encode` is the round trip.
-/
import Mathlib.Tactic.Common

namespace Lib.Base64

def alphabet : List Char :=
  "ABCDEFGHIJKLMNOPQRSTUVWXYZabcdefghijklmnopqrstuvwxyz0123456789+/".toList

def digit (n : ℕ) : Char := alphabet.getD n 'A'

def value? (c : Char) : Option ℕ := alphabet.idxOf? c

theorem value?_digit {n : ℕ} (h : n < 64) : value? (digit n) = some n := by
  have hall : ∀ n < 64, value? (digit n) = some n := by decide +kernel
  exact hall n h

theorem digit_ne_pad {n : ℕ} (h : n < 64) : digit n ≠ '=' := by
  intro heq
  have := value?_digit h
  rw [heq] at this
  cases this

def encodeChars : List UInt8 → List Char
  | [] => []
  | [a] => [digit (a.toNat / 4), digit (a.toNat % 4 * 16), '=', '=']
  | [a, b] =>
    [digit (a.toNat / 4), digit (a.toNat % 4 * 16 + b.toNat / 16), digit (b.toNat % 16 * 4), '=']
  | a :: b :: c :: bytes =>
    digit (a.toNat / 4) :: digit (a.toNat % 4 * 16 + b.toNat / 16) ::
      digit (b.toNat % 16 * 4 + c.toNat / 64) :: digit (c.toNat % 64) :: encodeChars bytes

/-- `EncodeToString` -/
def encode (bytes : List UInt8) : String := String.ofList (encodeChars bytes)

/-- A digit of the URL alphabet. -/
def urlDigit (c : Char) : Char := if c = '+' then '-' else if c = '/' then '_' else c

/-- `base64.RawURLEncoding.EncodeToString`: without padding. -/
def encodeRawURL (bytes : List UInt8) : String :=
  String.ofList (((encodeChars bytes).filter (· ≠ '=')).map urlDigit)

theorem encodeRawURL_ne_empty {bytes : List UInt8} (h : bytes ≠ []) : encodeRawURL bytes ≠ "" := by
  obtain ⟨a, rest, rfl⟩ := List.exists_cons_of_ne_nil h
  have hd : digit (a.toNat / 4) ≠ '=' := digit_ne_pad (by have := a.toNat_lt; omega)
  have hfirst : ∃ cs, encodeChars (a :: rest) = digit (a.toNat / 4) :: cs := by
    match rest with
    | [] | [_] | _ :: _ :: _ => exact ⟨_, rfl⟩
  obtain ⟨cs, hcs⟩ := hfirst
  rw [encodeRawURL, hcs, List.filter_cons_of_pos (by simpa using hd), List.map_cons]
  simp [← String.toList_inj]

/-- The bytes of a group that ends with `=`. -/
def decodePadded (a b c : Char) : Option (List UInt8) := do
  let x ← value? a
  let y ← value? b
  if c = '=' then some [UInt8.ofNat (x * 4 + y / 16)]
  else
    let z ← value? c
    some [UInt8.ofNat (x * 4 + y / 16), UInt8.ofNat (y % 16 * 16 + z / 4)]

def decodeChars : List Char → Option (List UInt8)
  | [] => some []
  | a :: b :: c :: d :: cs =>
    if d = '=' then if cs = [] then decodePadded a b c else none
    else do
      let x ← value? a
      let y ← value? b
      let z ← value? c
      let w ← value? d
      let bytes ← decodeChars cs
      some (UInt8.ofNat (x * 4 + y / 16) :: UInt8.ofNat (y % 16 * 16 + z / 4) ::
        UInt8.ofNat (z % 4 * 64 + w) :: bytes)
  | _ => none

def decode (s : String) : Option (List UInt8) := decodeChars s.toList

theorem ofNat_eq {n : ℕ} {b : UInt8} (h : n = b.toNat) : UInt8.ofNat n = b := by
  rw [h, UInt8.ofNat_toNat]

theorem decodeChars_encodeChars (bytes : List UInt8) :
    decodeChars (encodeChars bytes) = some bytes := by
  fun_induction encodeChars bytes with
  | case1 => rfl
  | case2 a =>
    have ha : a.toNat < 256 := a.toNat_lt
    rw [decodeChars, if_pos rfl, if_pos rfl, decodePadded, value?_digit (by omega),
      value?_digit (by omega)]
    simp only [Option.bind_eq_bind, Option.bind_some, if_true]
    rw [ofNat_eq (b := a) (by omega)]
  | case3 a b =>
    have ha : a.toNat < 256 := a.toNat_lt
    have hb : b.toNat < 256 := b.toNat_lt
    have hlast : b.toNat % 16 * 4 < 64 := by omega
    rw [decodeChars, if_pos rfl, if_pos rfl, decodePadded, value?_digit (by omega),
      value?_digit (by omega)]
    simp only [Option.bind_eq_bind, Option.bind_some, if_neg (digit_ne_pad hlast),
      value?_digit hlast]
    rw [ofNat_eq (b := a) (by omega), ofNat_eq (b := b) (by omega)]
  | case4 a b c bytes ih =>
    have ha : a.toNat < 256 := a.toNat_lt
    have hb : b.toNat < 256 := b.toNat_lt
    have hc : c.toNat < 256 := c.toNat_lt
    rw [decodeChars, if_neg (digit_ne_pad (by omega)), value?_digit (by omega),
      value?_digit (by omega), value?_digit (by omega), value?_digit (by omega), ih]
    simp only [Option.bind_eq_bind, Option.bind_some]
    rw [ofNat_eq (b := a) (by omega), ofNat_eq (b := b) (by omega), ofNat_eq (b := c) (by omega)]

@[simp] theorem decode_encode (bytes : List UInt8) : decode (encode bytes) = some bytes := by
  rw [decode, encode, String.toList_ofList, decodeChars_encodeChars]

theorem digit_ascii (n : ℕ) : (digit n).toNat < 128 := by
  by_cases hn : n < 64
  · have hall : ∀ n < 64, (digit n).toNat < 128 := by decide +kernel
    exact hall n hn
  · have hlen : alphabet.length = 64 := by decide +kernel
    rw [digit, List.getD_eq_getElem?_getD, List.getElem?_eq_none (by omega)]
    decide

/-- The text is ASCII. -/
theorem encode_ascii (bytes : List UInt8) : ∀ c ∈ (encode bytes).toList, c.toNat < 128 := by
  rw [encode, String.toList_ofList]
  fun_induction encodeChars bytes with
  | case1 => simp
  | case2 a => simp [digit_ascii]
  | case3 a b => simp [digit_ascii]
  | case4 a b c bytes ih => simpa [digit_ascii] using ih

end Lib.Base64
