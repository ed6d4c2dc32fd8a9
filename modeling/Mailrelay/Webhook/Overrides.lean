/-
  The times of a webhook (`EffectiveTimeout`, `EffectiveInitialWait` and
  `EffectiveMaxWait` in `internal/models/models.go`).

  `Validate` compares seconds; the source multiplies them by 10⁹ in an int64,
  which wraps around from 9223372037 seconds on.

  * `toInt_effectiveSeconds`: what the product is;
  * `overrides_survive_iff`: when the times are the configured ones.
-/
import Mailrelay.Rules.Validate
import Mailrelay.Webhook.Dispatcher

namespace Mailrelay

open Lib

/-- The greatest number of seconds that is an int64 in nanoseconds. -/
def maxSeconds : ℤ := maxInt64 / 1000000000

/-- The deadline of a request: `send` sets one if the timeout is positive. -/
def sendDeadline (timeout : Int64) : Option Int64 := if 0 < timeout then some timeout else none

/-- A number of seconds in nanoseconds, or the global value. -/
def exactSeconds (n : Option Int64) (global : Int64) : ℤ :=
  match n with
  | some n => n.toInt * 1000000000
  | none => global.toInt

/-- The times of a webhook mean what they say. -/
structure Survive (global : RetryConfig) (wh : WebhookConfig) : Prop where
  timeout : (wh.effectiveTimeout global.timeout).toInt = exactSeconds wh.timeout global.timeout
  initialWait :
    (wh.effectiveInitialWait global.initialWait).toInt = exactSeconds wh.initialWait global.initialWait
  maxWait : (wh.effectiveMaxWait global.maxWait).toInt = exactSeconds wh.maxWait global.maxWait
  nonneg : 0 ≤ wh.effectiveTimeout global.timeout ∧ 0 ≤ wh.effectiveInitialWait global.initialWait ∧
    0 ≤ wh.effectiveMaxWait global.maxWait
  deadline : ∀ n, wh.timeout = some n → 0 < n →
    sendDeadline (wh.effectiveTimeout global.timeout) = some (wh.effectiveTimeout global.timeout)
  ordered : wh.initialWait.isSome → wh.maxWait.isSome →
    wh.effectiveInitialWait global.initialWait ≤ wh.effectiveMaxWait global.maxWait

/-- Every time that is set fits. -/
def TimesFit (wh : WebhookConfig) : Prop :=
  ∀ n, wh.timeout = some n ∨ wh.initialWait = some n ∨ wh.maxWait = some n → n.toInt ≤ maxSeconds

/-! ## One time -/

section
variable {n : Option Int64} {global : Int64}

/-- **The product** is exact unless it wraps around. -/
theorem toInt_effectiveSeconds (n global : Int64) :
    (WebhookConfig.effectiveSeconds (some n) global).toInt =
      wrap64 (n.toInt * 1000000000) := by
  rw [WebhookConfig.effectiveSeconds, Int64.toInt_mul]
  rfl

theorem effectiveSeconds_exact_iff (h : ∀ m, n = some m → 0 ≤ m) (global : Int64) :
    (WebhookConfig.effectiveSeconds n global).toInt = exactSeconds n global ↔
      ∀ m, n = some m → m.toInt ≤ maxSeconds := by
  rcases n with _ | m
  · refine iff_of_true rfl ?_
    rintro m ⟨⟩
  · have hm : 0 ≤ m.toInt := Int64.le_iff_toInt_le.1 (h m rfl)
    have hmax : maxSeconds = 9223372036 := by decide
    constructor
    · rintro hexact m' ⟨⟩
      have hlt := (WebhookConfig.effectiveSeconds (some m) global).toInt_lt
      rw [hexact, exactSeconds] at hlt
      omega
    · intro hle
      have := hle m rfl
      have hmin : minInt64 = -9223372036854775808 := rfl
      have hmax' : maxInt64 = 9223372036854775807 := rfl
      rw [toInt_effectiveSeconds, exactSeconds, wrap64_of_mem (by omega) (by omega)]

theorem exactSeconds_nonneg (h : ∀ m, n = some m → 0 ≤ m) (hglobal : 0 ≤ global) :
    0 ≤ exactSeconds n global := by
  rcases n with _ | m
  · exact Int64.le_iff_toInt_le.1 hglobal
  · have hm : 0 ≤ m.toInt := Int64.le_iff_toInt_le.1 (h m rfl)
    simp only [exactSeconds]
    omega

end

/-! ## All times -/

theorem validateOverrides_ok {wh : WebhookConfig} (h : validateOverrides wh = .ok ()) :
    (∀ n, wh.timeout = some n → 0 ≤ n) ∧ (∀ n, wh.initialWait = some n → 1 ≤ n) ∧
      (∀ n, wh.maxWait = some n → 1 ≤ n) ∧
      ∀ n m, wh.initialWait = some n → wh.maxWait = some m → n ≤ m := by
  unfold validateOverrides at h
  rw [check_bind_ok, check_bind_ok, check_ok] at h
  obtain ⟨hnonneg, hwaits, horder⟩ := h
  rw [not_or] at hnonneg hwaits
  refine ⟨fun n hn => ?_, fun n hn => ?_, fun n hn => ?_, fun n m hn hm => ?_⟩
  · simpa [hn] using hnonneg.1
  · simpa [hn] using hwaits.1
  · simpa [hn] using hwaits.2
  · simpa [hn, hm] using horder

theorem overrides_of_validate {lib : RuleLib} {r : RuleRecord} (h : validate lib r = .ok ()) :
    validateOverrides r.webhook = .ok () := by
  have hsettings := (validate_eq.1 h).2.2
  unfold validateSettings at hsettings
  simp only [bind_ok] at hsettings
  obtain ⟨_, -, _, -, _, -, _, hoverrides, -⟩ := hsettings
  exact hoverrides

/-- **The times of a valid webhook survive the conversion** exactly if each of
    those that are set is at most 9223372036 seconds. -/
theorem overrides_survive_iff {lib : RuleLib} {r : RuleRecord} (hvalid : validate lib r = .ok ())
    {global : RetryConfig} (hglobal : 0 ≤ global.timeout ∧ 0 ≤ global.initialWait ∧ 0 ≤ global.maxWait) :
    Survive global r.webhook ↔ TimesFit r.webhook := by
  obtain ⟨htimeout, hinitial, hmax, hordered⟩ := validateOverrides_ok (overrides_of_validate hvalid)
  have hinitial' : ∀ n, r.webhook.initialWait = some n → 0 ≤ n := fun n hn =>
    Int64.le_trans (by decide) (hinitial n hn)
  have hmax' : ∀ n, r.webhook.maxWait = some n → 0 ≤ n := fun n hn =>
    Int64.le_trans (by decide) (hmax n hn)
  have exactT := effectiveSeconds_exact_iff htimeout global.timeout
  have exactI := effectiveSeconds_exact_iff hinitial' global.initialWait
  have exactM := effectiveSeconds_exact_iff hmax' global.maxWait
  constructor
  · rintro h n (hn | hn | hn)
    · exact exactT.1 h.timeout n hn
    · exact exactI.1 h.initialWait n hn
    · exact exactM.1 h.maxWait n hn
  · intro hfit
    have eqT := exactT.2 fun n hn => hfit n (.inl hn)
    have eqI := exactI.2 fun n hn => hfit n (.inr (.inl hn))
    have eqM := exactM.2 fun n hn => hfit n (.inr (.inr hn))
    refine ⟨eqT, eqI, eqM, ⟨?_, ?_, ?_⟩, fun n hn hpos => ?_, fun hi hm => ?_⟩
    · exact Int64.le_iff_toInt_le.2 (eqT ▸ exactSeconds_nonneg htimeout hglobal.1)
    · exact Int64.le_iff_toInt_le.2 (eqI ▸ exactSeconds_nonneg hinitial' hglobal.2.1)
    · exact Int64.le_iff_toInt_le.2 (eqM ▸ exactSeconds_nonneg hmax' hglobal.2.2)
    · refine if_pos (Int64.lt_iff_toInt_lt.2 ?_)
      have hn' : 0 < n.toInt := Int64.lt_iff_toInt_lt.1 hpos
      have hexact : (r.webhook.effectiveTimeout global.timeout).toInt = n.toInt * 1000000000 := by
        rw [WebhookConfig.effectiveTimeout, eqT, hn, exactSeconds]
      rw [hexact]
      show 0 < n.toInt * 1000000000
      omega
    · obtain ⟨n, hn⟩ := Option.isSome_iff_exists.1 hi
      obtain ⟨m, hm⟩ := Option.isSome_iff_exists.1 hm
      have hnm : n.toInt ≤ m.toInt := Int64.le_iff_toInt_le.1 (hordered n m hn hm)
      refine Int64.le_iff_toInt_le.2 ?_
      rw [WebhookConfig.effectiveInitialWait, WebhookConfig.effectiveMaxWait, eqI, eqM, hn, hm]
      simp only [exactSeconds]
      omega

/-! ## Two webhooks -/

def timeoutRule (timeout : Int64) : RuleRecord :=
  ⟨1, "alerts", true, ⟨"", []⟩,
    ⟨"", "https://hooks.example/mail", "POST", [], "", some timeout, none, none, none, none⟩, 0, 0, 0⟩

def defaultRetry : RetryConfig := ⟨3, 1000000000, 60000000000, 30000000000, true⟩

theorem overrides_survive_iff_half_minute : Survive defaultRetry (timeoutRule 30).webhook :=
  (@overrides_survive_iff sampleRuleLib (timeoutRule 30) (by decide +kernel) defaultRetry
    (by decide +kernel)).2 (by
      rintro n (hn | hn | hn)
      · cases hn
        decide +kernel
      · cases hn
      · cases hn)

/-- A timeout of 9223372037 seconds is no timeout. -/
theorem long_timeout_is_none : ¬∀ (lib : RuleLib) (r : RuleRecord) (global : RetryConfig),
    validate lib r = .ok () →
      0 ≤ global.timeout ∧ 0 ≤ global.initialWait ∧ 0 ≤ global.maxWait → Survive global r.webhook := by
  intro h
  have hsurvive := h sampleRuleLib (timeoutRule 9223372037) defaultRetry (by decide +kernel)
    (by decide +kernel)
  have hdeadline := hsurvive.deadline 9223372037 rfl (by decide +kernel)
  revert hdeadline
  decide +kernel

end Mailrelay
