/-
  The delays between attempts (`internal/webhook/dispatcher.go`,
  `internal/webhook/queue.go`).

  `backoff` doubles the initial wait in a float64 and converts the product back
  to a `time.Duration`.  Below `2 ^ 53` the float is exact, but from `2 ^ 63` on
  the conversion is out of range, and on amd64 its result is the least int64,
  which is then the minimum.

  * `backoff_toInt`: the delay after every attempt;
  * `finish_retry`: the due time that `runQueued` stores for a retry;
  * `backoff_capped_iff`: the main result.
-/
import Mathlib.Algebra.Order.Ring.Int
import Mailrelay.Webhook.Queue

namespace Mailrelay

/-- The product over the integers. -/
def exactWait (retry : RetryConfig) (attempt : ℤ) : ℤ :=
  retry.initialWait.toInt * 2 ^ (attempt - 1).toNat

section
variable {rt : Runtime} {retry : RetryConfig}

/-- Integers below `2 ^ 53` are exact. -/
theorem float64_eq {n : ℤ} (h₀ : 0 < n) (h : n < 2 ^ 53) : float64 n = n := by
  have he : n.natAbs.log2 + 1 - 53 = 0 := by
    have := (Nat.log2_lt (n := n.natAbs) (k := 53) (by omega)).2 (by omega)
    omega
  simp only [float64, he, Nat.pow_zero, Nat.div_one, Nat.mod_one]
  rw [if_neg (by omega), Nat.mul_one, Int.sign_eq_one_of_pos h₀]
  omega

theorem le_exactWait (k : ℤ) (h : 0 < retry.initialWait.toInt) :
    retry.initialWait.toInt ≤ exactWait retry k :=
  le_mul_of_one_le_right h.le (one_le_pow₀ (by decide))

theorem exactWait_mono {j k : ℤ} (h : 0 < retry.initialWait.toInt) (hjk : j ≤ k) :
    exactWait retry j ≤ exactWait retry k :=
  mul_le_mul_of_nonneg_left (pow_le_pow_right₀ (by decide) (by omega)) h.le

/-- The cap of Go's `min`. -/
theorem backoff_eq (rt : Runtime) (retry : RetryConfig) (k : ℤ) : (backoff rt retry k).toInt =
    min (toDuration rt (mulPow2 retry.initialWait.toInt (k - 1))).toInt retry.maxWait.toInt := by
  dsimp only [backoff]
  split_ifs with h
  · rw [min_eq_left (Int64.lt_iff_toInt_lt.1 h).le]
  · rw [min_eq_right (not_lt.1 (mt Int64.lt_iff_toInt_lt.2 h))]

/-- **The delay after an attempt** is capped exponential backoff as long as the
    product is in range. -/
theorem backoff_toInt (hrt : ∀ x, rt.outOfRange x = Int64.minValue)
    (h₀ : 0 < retry.initialWait.toInt) (h : retry.initialWait.toInt < 2 ^ 53)
    (hm : 0 < retry.maxWait.toInt) {k : ℤ} (hk : 1 ≤ k) : (backoff rt retry k).toInt =
      if exactWait retry k < 2 ^ 63 then min (exactWait retry k) retry.maxWait.toInt
      else -2 ^ 63 := by
  have hpos := le_exactWait k h₀
  have hmin : min (Int64.minValue.toInt) retry.maxWait.toInt = -2 ^ 63 := by
    rw [Int64.toInt_minValue]
    exact min_eq_left (by omega)
  rw [backoff_eq]
  by_cases hbig : 1024 ≤ k - 1
  · -- `math.Pow` is infinite
    have hw : 2 ^ 63 ≤ exactWait retry k := by
      have : (2 : ℤ) ^ 63 ≤ 2 ^ (k - 1).toNat := pow_le_pow_right₀ (by decide) (by omega)
      exact this.trans (le_mul_of_one_le_left (pow_nonneg (by decide) _) (by omega))
    have hd : toDuration rt (mulPow2 retry.initialWait.toInt (k - 1)) = Int64.minValue := by
      rw [mulPow2, if_pos hbig, float64_eq h₀ h, if_neg (by omega)]
      exact hrt _
    rw [hd, hmin, if_neg (by omega)]
  · have hp : mulPow2 retry.initialWait.toInt (k - 1) = .finite (exactWait retry k) := by
      rw [mulPow2, if_neg hbig, if_pos (by omega), float64_eq h₀ h]
      rfl
    rw [hp]
    dsimp only [toDuration]
    by_cases hw : exactWait retry k < 2 ^ 63
    · rw [if_pos hw, if_pos (by unfold minInt64 maxInt64; omega),
        Int64.toInt_ofInt_of_le (by omega) hw]
    · rw [if_neg hw, if_neg (by unfold maxInt64; omega), hrt, hmin]

/-! ## Stored due times -/

theorem settle_retry {job : QueuedDelivery} {outcome : SendOutcome} {now : ℤ}
    (hr : retries retry (job.attempts + 1) outcome) :
    (settle rt job retry outcome false now).2 =
      now + (backoff rt retry (job.attempts + 1)).toInt := by
  rcases outcome with err | body
  · rw [retries, Bool.and_eq_true, decide_eq_true_eq] at hr
    simp [settle, hr.1, hr.2]
  · cases hr

/-- A retry is stored with the time of the failed attempt plus the delay. -/
theorem finish_retry (rt : Runtime) {job : QueuedDelivery} {outcome : SendOutcome} {db : Db}
    {d : DeliveryRow} {q : QueueRow} (now : Now) (later : ℤ) (hr : retries retry (job.attempts + 1) outcome)
    (hrow : db.delivery? job.id = some (d, q)) :
    ((db.finish job (settle rt job retry outcome false now.time).1
      (settle rt job retry outcome false now.time).2 later).delivery? job.id).map
        (fun r => r.2.nextAttemptAt) =
      some (unixNano (now.time + (backoff rt retry (job.attempts + 1)).toInt)) := by
  have hz := add_backoff_not_isZero now rt retry (job.attempts + 1)
  rw [delivery?_finish, hrow, settle_retry hr]
  simp [QueueRow.setNext, hz]

/-- A due time lies after `now` when the wait is positive and the sum fits. -/
theorem lt_unixNano_iff {now : Now} {wait : ℤ} (h₁ : -2 ^ 63 ≤ wait) (h₂ : wait < 2 ^ 63) :
    now.time < unixNano (now.time + wait) ↔ 0 < wait ∧ now.time + wait ≤ maxInt64 := by
  have he := now.epoch
  have hr := now.range
  by_cases hfit : now.time + wait ≤ maxInt64
  · rw [unixNano, wrap64_of_mem (by unfold minInt64; omega) hfit]
    constructor
    · intro h; exact ⟨by omega, hfit⟩
    · rintro ⟨h, -⟩; omega
  · -- `UnixNano` wraps around
    have hw : unixNano (now.time + wait) = now.time + wait - 2 ^ 64 := by
      unfold unixNano wrap64
      rw [← Int.sub_bmod_right (now.time + wait) (2 ^ 64)]
      unfold maxInt64 at *
      exact Int.bmod_eq_of_le (by omega) (by omega)
    rw [hw]
    constructor
    · intro h; omega
    · rintro ⟨-, h⟩; exact absurd h hfit

/-! ## The main result -/

/-- The delay after attempt `k` is capped exponential backoff. -/
structure Capped (rt : Runtime) (retry : RetryConfig) (k : ℤ) : Prop where
  exact : (backoff rt retry k).toInt = min (exactWait retry k) retry.maxWait.toInt
  pos : 0 < (backoff rt retry k).toInt
  mono : ∀ j, 1 ≤ j → j ≤ k → (backoff rt retry j).toInt ≤ (backoff rt retry k).toInt

theorem capped_iff (hrt : ∀ x, rt.outOfRange x = Int64.minValue)
    (h₀ : 0 < retry.initialWait.toInt) (h : retry.initialWait.toInt < 2 ^ 53)
    (hm : 0 < retry.maxWait.toInt) {k : ℤ} (hk : 1 ≤ k) :
    Capped rt retry k ↔ exactWait retry k < 2 ^ 63 := by
  have hpos := le_exactWait k h₀
  have hb := backoff_toInt hrt h₀ h hm hk
  constructor
  · intro hc
    by_contra hw
    have := hc.pos
    rw [hb, if_neg hw] at this
    omega
  · intro hw
    rw [if_pos hw] at hb
    refine ⟨hb, by rw [hb]; exact lt_min (by omega) hm, fun j hj hjk => ?_⟩
    have hle := exactWait_mono h₀ hjk
    rw [hb, backoff_toInt hrt h₀ h hm hj, if_pos (by omega)]
    exact min_le_min_right _ hle

/-- **Delays are capped exponential backoff exactly while the product fits** an
    int64, and a retry is stored with a due time after the failed attempt
    exactly when that time, too, fits. -/
theorem backoff_capped_iff (rt : Runtime) (retry : RetryConfig)
    (hrt : ∀ x, rt.outOfRange x = Int64.minValue) (h₀ : 0 < retry.initialWait.toInt)
    (h : retry.initialWait.toInt < 2 ^ 53) (hm : 0 < retry.maxWait.toInt) (k : ℤ) (hk : 1 ≤ k) :
    (Capped rt retry k ↔ exactWait retry k < 2 ^ 63) ∧
    ∀ (job : QueuedDelivery) (outcome : SendOutcome) (now : Now) (later : ℤ) (db : Db)
      (d : DeliveryRow) (q : QueueRow), job.attempts + 1 = k → retries retry k outcome →
      db.delivery? job.id = some (d, q) →
      ((∃ d' q', (db.finish job (settle rt job retry outcome false now.time).1
          (settle rt job retry outcome false now.time).2 later).delivery? job.id = some (d', q') ∧
          now.time < q'.nextAttemptAt) ↔
        exactWait retry k < 2 ^ 63 ∧
          now.time + min (exactWait retry k) retry.maxWait.toInt ≤ maxInt64) := by
  refine ⟨capped_iff hrt h₀ h hm hk, fun job outcome now later db d q hj hr hrow => ?_⟩
  subst hj
  have hpos := le_exactWait (job.attempts + 1) h₀
  have hb := backoff_toInt hrt h₀ h hm hk
  have hlt := (backoff rt retry (job.attempts + 1)).toInt_lt
  have hge := (backoff rt retry (job.attempts + 1)).le_toInt
  obtain ⟨⟨d', q'⟩, hrow', hq'⟩ := Option.map_eq_some_iff.1 (finish_retry rt now later hr hrow)
  have hiff : (∃ d' q', (db.finish job (settle rt job retry outcome false now.time).1
      (settle rt job retry outcome false now.time).2 later).delivery? job.id = some (d', q') ∧
      now.time < q'.nextAttemptAt) ↔
      now.time < unixNano (now.time + (backoff rt retry (job.attempts + 1)).toInt) := by
    rw [hrow']
    constructor
    · rintro ⟨_, _, he, hlt⟩
      cases he
      exact hq' ▸ hlt
    · intro hlt
      exact ⟨d', q', rfl, by rw [hq']; exact hlt⟩
  rw [hiff, lt_unixNano_iff hge hlt, hb]
  split_ifs with hw
  · constructor
    · rintro ⟨-, hfit⟩; exact ⟨hw, hfit⟩
    · rintro ⟨-, hfit⟩; exact ⟨lt_min (by omega) hm, hfit⟩
  · constructor
    · rintro ⟨hneg, -⟩; omega
    · rintro ⟨hw', -⟩; exact absurd hw' hw

end

/-- One second, doubled up to one minute. -/
def sampleBackoff (maxRetries : ℤ) : RetryConfig :=
  ⟨maxRetries, 1000000000, 60000000000, 30000000000, true⟩

theorem backoff_capped_third : Capped (sampleRuntime sampleText sampleSnapshot) (sampleBackoff 40) 3 ∧
    (backoff (sampleRuntime sampleText sampleSnapshot) (sampleBackoff 40) 3).toInt = 4 * second := by
  have hc : Capped (sampleRuntime sampleText sampleSnapshot) (sampleBackoff 40) 3 :=
    (backoff_capped_iff (sampleRuntime sampleText sampleSnapshot) (sampleBackoff 40) (fun _ => rfl)
      (by decide) (by decide) (by decide) 3 (by decide)).1.2 (by decide)
  exact ⟨hc, by decide⟩

/-- The 35th retry does not wait: its due time lies 292 years back. -/
theorem backoff_overflows :
    (backoff (sampleRuntime sampleText sampleSnapshot) (sampleBackoff 40) 35).toInt = minInt64 ∧
    min (exactWait (sampleBackoff 40) 35) (sampleBackoff 40).maxWait.toInt = 60 * second ∧
    ¬ Capped (sampleRuntime sampleText sampleSnapshot) (sampleBackoff 40) 35 := by
  refine ⟨by decide, by decide, fun hc => ?_⟩
  have := hc.pos
  revert this
  decide

end Mailrelay
