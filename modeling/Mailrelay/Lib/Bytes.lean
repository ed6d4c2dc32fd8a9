/-
  Texts as bytes: UTF-8, ASCII and lower-case hexadecimal digits.

  * `utf8_injective`: a text is determined by its bytes;
  * `encodeAscii_eq_some`: ASCII is UTF-8 where it is defined;
  * `mem_hex`, `length_hex`: what hexadecimal text looks like;
  * `append_cons_injective`: where a separator stands that the first part does
    not contain, both parts can be read off.
-/
import Mathlib.Data.List.Basic
import Mathlib.Tactic.Common

namespace Lib

abbrev Bytes := List UInt8

/-! ## UTF-8 -/

/-- The UTF-8 bytes of a text. -/
def utf8 (s : String) : Bytes := s.toList.flatMap String.utf8EncodeChar

@[simp] theorem utf8_append (s t : String) : utf8 (s ++ t) = utf8 s ++ utf8 t := by
  simp [utf8, String.toList_append]

theorem toByteArray_utf8 (s : String) : (utf8 s).toByteArray = s.toByteArray := by
  rw [← String.utf8Encode_toList]
  rfl

theorem utf8_injective : Function.Injective utf8 := by
  intro s t h
  rw [← String.toByteArray_inj, ← toByteArray_utf8, h, toByteArray_utf8]

@[simp] theorem utf8_eq_nil {s : String} : utf8 s = [] ↔ s = "" :=
  ⟨fun h => utf8_injective (h.trans rfl), fun h => h ▸ rfl⟩

/-! ## ASCII -/

def IsAscii (s : String) : Prop := ∀ c ∈ s.toList, c.toNat < 128

instance (s : String) : Decidable (IsAscii s) := inferInstanceAs (Decidable (∀ c ∈ s.toList, _))

/-- The ASCII bytes of a text that has only ASCII characters. -/
def encodeAscii (s : String) : Option Bytes :=
  if IsAscii s then some (s.toList.map fun c => UInt8.ofNat c.toNat) else none

theorem utf8EncodeChar_ascii {c : Char} (h : c.toNat < 128) :
    String.utf8EncodeChar c = [UInt8.ofNat c.toNat] := by
  rw [String.utf8EncodeChar]
  exact if_pos (Nat.le_of_lt_succ h)

theorem utf8_ascii {s : String} (h : IsAscii s) : utf8 s = s.toList.map fun c => UInt8.ofNat c.toNat := by
  rw [utf8, List.flatMap_congr fun c hc => utf8EncodeChar_ascii (h c hc)]
  exact List.flatMap_pure_eq_map _ _

theorem encodeAscii_eq_some {s : String} (h : IsAscii s) : encodeAscii s = some (utf8 s) := by
  rw [encodeAscii, if_pos h, utf8_ascii h]

/-- A byte of an ASCII text is one of its characters. -/
theorem mem_utf8_ascii {s : String} (h : IsAscii s) {b : UInt8} (hb : b ∈ utf8 s) :
    ∃ c ∈ s.toList, c.toNat = b.toNat := by
  rw [utf8_ascii h] at hb
  obtain ⟨c, hc, rfl⟩ := List.mem_map.1 hb
  have := h c hc
  exact ⟨c, hc, by rw [UInt8.toNat_ofNat']; omega⟩

/-! ## Separators -/

/-- **A separator cannot be shifted.** -/
theorem append_cons_injective {α : Type} {a : α} {xs xs' ys ys' : List α} (h : a ∉ xs) (h' : a ∉ xs')
    (heq : xs ++ a :: ys = xs' ++ a :: ys') : xs = xs' ∧ ys = ys' := by
  induction xs generalizing xs' with
  | nil =>
    rcases xs' with _ | ⟨x, xs'⟩
    · exact ⟨rfl, (List.cons.inj heq).2⟩
    · obtain rfl : a = x := (List.cons.inj heq).1
      exact absurd List.mem_cons_self h'
  | cons x xs ih =>
    rcases xs' with _ | ⟨x', xs'⟩
    · obtain rfl : x = a := (List.cons.inj heq).1
      exact absurd List.mem_cons_self h
    · obtain ⟨rfl, htail⟩ := List.cons.inj heq
      obtain ⟨rfl, hys⟩ :=
        ih (fun hm => h (List.mem_cons_of_mem _ hm)) (fun hm => h' (List.mem_cons_of_mem _ hm)) htail
      exact ⟨rfl, hys⟩

/-! ## Hexadecimal digits -/

/-- `[0-9a-f]` -/
def isLowerHex (c : Char) : Bool := c.isDigit || decide ('a' ≤ c ∧ c ≤ 'f')

theorem isLowerHex_digitChar {n : ℕ} (h : n < 16) : isLowerHex n.digitChar := by
  have hall : ∀ n < 16, isLowerHex (Nat.digitChar n) := by decide
  exact hall n h

/-- Two digits for each byte. -/
def hex (bs : Bytes) : List Char :=
  bs.flatMap fun b => [(b.toNat / 16).digitChar, (b.toNat % 16).digitChar]

theorem length_hex (bs : Bytes) : (hex bs).length = 2 * bs.length := by
  induction bs with
  | nil => rfl
  | cons b bs ih =>
    rw [hex, List.flatMap_cons, List.length_append, List.length_cons, ← hex, ih]
    simp
    omega

theorem mem_hex {bs : Bytes} {c : Char} (h : c ∈ hex bs) : isLowerHex c := by
  obtain ⟨b, -, hc⟩ := List.mem_flatMap.1 h
  have hb : b.toNat < 256 := b.toNat_lt
  simp only [List.mem_cons, List.not_mem_nil, or_false] at hc
  rcases hc with rfl | rfl
  · exact isLowerHex_digitChar (by omega)
  · exact isLowerHex_digitChar (by omega)

end Lib
