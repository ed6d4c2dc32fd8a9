/-
  Integers in a binary64.

  `float64 n` is the value of the natural number `n` as a float: `n` rounded to
  53 significant bits, ties to even.  `shortest x` is the float `x` in decimal,
  with as few digits as determine it and padded with zeros; of two decimals of
  that length it is the one next to `x`.  Both are right below `10 ^ 21`.

  `quotient a b` is the float quotient of two such integers, as a multiple of a
  negative power of two.  It is right below `2 ^ 53`.

  * `float64_of_lt`: integers below `2 ^ 53` are exact;
  * `shortest_of_lt`: they are written in full;
  * `ceilQuotient_of_lt`: their quotients are on the right side of an integer.
-/
import Mathlib.Algebra.Order.Ring.Nat
import Mathlib.Data.Nat.Log

namespace Lib

/-- The value of an integer as a float: the nearest multiple of `2 ^ e`. -/
def float64 (n : ℕ) : ℕ :=
  let e := n.log2 - 52
  let q := n / 2 ^ e
  let r := n % 2 ^ e
  if 2 * r < 2 ^ e ∨ (2 * r = 2 ^ e ∧ q % 2 = 0) then q * 2 ^ e else (q + 1) * 2 ^ e

/-- A multiple of `10 ^ k` that is read as the float `x`, the nearest if there
    are two. -/
def decimal (x k : ℕ) : Option ℕ :=
  let lo := x / 10 ^ k * 10 ^ k
  let hi := lo + 10 ^ k
  if float64 lo = x ∧ (float64 hi = x → x - lo ≤ hi - x) then some lo
  else if float64 hi = x then some hi
  else none

/-- The decimal of a float with the fewest digits. -/
def shortest (x : ℕ) : ℕ := ((List.range 21).reverse.findSome? (decimal x)).getD x

theorem float64_of_lt {n : ℕ} (h : n < 2 ^ 53) : float64 n = n := by
  have he : n.log2 - 52 = 0 := by
    rcases Nat.eq_zero_or_pos n with rfl | hn
    · simp
    · have := (Nat.log2_lt (by omega)).2 h
      omega
  unfold float64
  simp [he, Nat.mod_one]

theorem le_float64 {n : ℕ} (h : 2 ^ 53 ≤ n) : 2 ^ 53 ≤ float64 n := by
  have hlog : 53 ≤ n.log2 := (Nat.le_log2 (by omega)).2 h
  have hq : 2 ^ 52 ≤ n / 2 ^ (n.log2 - 52) := by
    rw [Nat.le_div_iff_mul_le (Nat.two_pow_pos _), ← Nat.pow_add,
      show 52 + (n.log2 - 52) = n.log2 by omega]
    exact Nat.log2_self_le (by omega)
  have he : 2 ^ 1 ≤ 2 ^ (n.log2 - 52) := Nat.pow_le_pow_right (by omega) (by omega)
  have hle : 2 ^ 52 * 2 ^ 1 ≤ n / 2 ^ (n.log2 - 52) * 2 ^ (n.log2 - 52) := Nat.mul_le_mul hq he
  unfold float64
  simp only
  split_ifs
  · omega
  · rw [Nat.add_mul]
    omega

theorem float64_pos {n : ℕ} (h : 0 < n) : 0 < float64 n := by
  by_cases hn : n < 2 ^ 53
  · rwa [float64_of_lt hn]
  · have := le_float64 (not_lt.1 hn)
    omega

theorem decimal_of_lt {x k m : ℕ} (hx : x < 2 ^ 53) (h : decimal x k = some m) : m = x := by
  have hlo : x / 10 ^ k * 10 ^ k ≤ x := Nat.div_mul_le_self _ _
  have hhi : x < x / 10 ^ k * 10 ^ k + 10 ^ k := by
    have := Nat.lt_div_mul_add (a := x) (b := 10 ^ k) (Nat.pow_pos (by omega))
    omega
  unfold decimal at h
  simp only at h
  split_ifs at h with h₁ h₂
  · cases h
    have heq := h₁.1
    rwa [float64_of_lt (by omega)] at heq
  · -- the upper candidate is greater than `x`, and so is its float
    exfalso
    by_cases hn : x / 10 ^ k * 10 ^ k + 10 ^ k < 2 ^ 53
    · rw [float64_of_lt hn] at h₂
      omega
    · have := le_float64 (not_lt.1 hn)
      omega

theorem shortest_of_lt {x : ℕ} (hx : x < 2 ^ 53) : shortest x = x := by
  unfold shortest
  cases h : (List.range 21).reverse.findSome? (decimal x) with
  | none => rfl
  | some m =>
    obtain ⟨k, -, hk⟩ := List.exists_of_findSome?_eq_some h
    exact decimal_of_lt hx hk

/-! ## Quotients -/

/-- The quotient as `m / 2 ^ k`, with 53 significant bits. -/
def quotient (a b : ℕ) : ℕ × ℕ :=
  let k := 53 + b.log2 - a.log2
  let k := if 2 ^ 53 * b ≤ a * 2 ^ k then k - 1 else k
  let q := a * 2 ^ k / b
  let r := a * 2 ^ k % b
  (if 2 * r < b ∨ (2 * r = b ∧ q % 2 = 0) then q else q + 1, k)

/-- The quotient, rounded up to an integer. -/
def ceilQuotient (a b : ℕ) : ℕ :=
  let p := quotient a b
  (p.1 + (2 ^ p.2 - 1)) / 2 ^ p.2

/-- Rounding a fraction with denominator `b` to a multiple of `2 ^ -k` does not
    take it past an integer, if the multiples are closer than the fractions. -/
theorem round_le_iff {a b k m : ℕ} (hb : 0 < b) (hk : b < 2 * 2 ^ k)
    (hm : m = a * 2 ^ k / b ∧ 2 * (a * 2 ^ k % b) ≤ b ∨
      m = a * 2 ^ k / b + 1 ∧ b ≤ 2 * (a * 2 ^ k % b)) (c : ℕ) : m ≤ 2 ^ k * c ↔ a ≤ b * c := by
  have hdiv := Nat.div_add_mod (a * 2 ^ k) b
  have hmod := Nat.mod_lt (a * 2 ^ k) hb
  generalize a * 2 ^ k / b = q at *
  generalize a * 2 ^ k % b = r at *
  generalize 2 ^ k = p at *
  constructor
  · intro h
    by_contra hn
    have hfar : b * (p * c) + p ≤ a * p := by
      have := Nat.mul_le_mul_right p (Nat.succ_le_of_lt (not_le.1 hn))
      rw [Nat.succ_mul] at this
      rwa [← Nat.mul_assoc, Nat.mul_comm b p, Nat.mul_assoc, Nat.mul_comm p]
    rcases hm with ⟨rfl, hr⟩ | ⟨rfl, hr⟩
    · have := Nat.mul_le_mul_left b h
      omega
    · have := Nat.mul_le_mul_left b h
      rw [Nat.mul_add] at this
      omega
  · intro h
    have hnear : a * p ≤ b * (p * c) := by
      have := Nat.mul_le_mul_right p h
      rwa [Nat.mul_assoc, Nat.mul_comm c p] at this
    rcases hm with ⟨rfl, -⟩ | ⟨rfl, hr⟩
    · exact Nat.le_of_mul_le_mul_left (by omega) hb
    · exact Nat.lt_of_mul_lt_mul_left (a := b) (by omega)

/-- **Rounding up the quotient of two integers gives the exact result.** -/
theorem ceilQuotient_of_lt {a b : ℕ} (hb : 0 < b) (ha : a < 2 ^ 53) :
    ceilQuotient a b = (a + (b - 1)) / b := by
  have hlog : a.log2 ≤ 52 := by
    rcases Nat.eq_zero_or_pos a with rfl | hpos
    · simp
    · have := (Nat.log2_lt hpos.ne').2 ha
      omega
  have hround : ∀ c, (quotient a b).1 ≤ 2 ^ (quotient a b).2 * c ↔ a ≤ b * c := by
    refine round_le_iff hb ?_ ?_
    · -- the integers below `2 ^ 53` leave enough bits
      have hpow : b < 2 ^ (b.log2 + 1) := Nat.lt_log2_self
      have hle : b.log2 ≤ (quotient a b).2 := by
        simp only [quotient]
        split_ifs <;> omega
      calc b < 2 ^ (b.log2 + 1) := hpow
        _ ≤ 2 ^ ((quotient a b).2 + 1) := Nat.pow_le_pow_right (by omega) (by omega)
        _ = 2 * 2 ^ (quotient a b).2 := by rw [Nat.pow_succ, Nat.mul_comm]
    · simp only [quotient]
      generalize (if 2 ^ 53 * b ≤ a * 2 ^ (53 + b.log2 - a.log2) then _ else _ : ℕ) = k
      split_ifs with h
      · exact .inl ⟨rfl, by omega⟩
      · exact .inr ⟨rfl, by omega⟩
  refine eq_of_forall_ge_iff fun c => ?_
  have hpow := Nat.two_pow_pos (quotient a b).2
  have hr := hround c
  rw [ceilQuotient, Nat.div_le_iff_le_mul_add_pred hpow, Nat.div_le_iff_le_mul_add_pred hb]
  omega

example : float64 (2 ^ 60 + 100) = 2 ^ 60 := by decide

example : shortest (2 ^ 60) = 1152921504606847000 := by decide

end Lib
