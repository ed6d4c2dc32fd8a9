/-
  Retention (`runCleanup` and `cleanupOnce` in `cmd/mailrelay/main.go`).

  The number of days comes from a form as a 64-bit int, is stored in a 32-bit
  atomic, and is multiplied into a `time.Duration` that is subtracted from the
  current time.  Both conversions wrap around: from 106752 days on, the product
  is no int64.

  * `save_retention`: what a saved form leaves in the atomic;
  * `get?_cleanupOnce`: which emails a tick deletes;
  * `retention_exact_iff`: the main result.
-/
import Mailrelay.System.Trans
import Mailrelay.Webui.Settings

namespace Mailrelay

open Lib

/-- 24 hours in nanoseconds. -/
def day : ℤ := 24 * (3600 * second)

/-- `cleanupOnce` with the value that the tick loads, up to the removal of raw
    files. -/
def cleanupOnce (retention : Int32) (now : ℤ) (fuse : Option ℕ) (db : Db) : Db :=
  if retention.toInt ≤ 0 then db
  else (Tx.transaction (cleanupExpired retention.toInt now) fuse db).2

/-- The cutoff of `CleanupExpired`. -/
def cutoff (days now : ℤ) : ℤ := now + wrap64 (-days * 24 * (3600 * second))

/-- From `db` to `db'`, exactly the finished emails received more than `n` days
    before `now` are deleted; none for `n = 0`. -/
def ExpiresExactly (n now : ℤ) (db db' : Db) : Prop :=
  ∀ id, db'.emails.get? id = (db.emails.get? id).filter fun e =>
    !(decide (0 < n) && decide (e.receivedAt < now - n * day) && !db.hasUnfinished id)

/-- No finished email is received in a range. -/
def NoneFinished (db : Db) (p : ℤ → Prop) : Prop :=
  ∀ e ∈ db.emails.rows, db.hasUnfinished e.id = false → ¬ p e.receivedAt

/-- The days fit, or the wrapped ones make no difference to the emails there
    are: a tick that does nothing misses no email, or a cutoff that is too late
    meets none. -/
def RetentionFits (n now : ℤ) (db : Db) : Prop :=
  n ≤ 106751 ∨
    ((Int32.ofInt n).toInt ≤ 0 ∧ NoneFinished db (· < now - n * day)) ∨
    (0 < (Int32.ofInt n).toInt ∧
      NoneFinished db fun t => now - n * day ≤ t ∧ t < cutoff (Int32.ofInt n).toInt now)

/-! ## Saving -/

theorem save_retention {w : SettingsWorld} {k : ℕ} {form : SettingsForm} {v : Settings}
    (hw : w.requests k = .done) (hv : parseSettings form = .ok v) :
    ∃ w', exec SettingsWorld.step w (.request k form :: callsOf k 6) = some w' ∧
      w'.retention = Int32.ofInt v.retentionDays := by
  simp only [callsOf, List.replicate, exec, SettingsWorld.step, hw, hv, Option.bind_some,
    SettingsWorld.setRequest_self, Place.next]
  exact ⟨_, rfl, rfl⟩

/-! ## A tick -/

section
variable {n now : ℤ} {db : Db}

/-- **The emails that a tick deletes.** -/
theorem get?_cleanupOnce (r : Int32) (id : Uuid) :
    (cleanupOnce r now none db).emails.get? id = (db.emails.get? id).filter fun e =>
      !(decide (0 < r.toInt) && decide (e.receivedAt < cutoff r.toInt now) &&
        !db.hasUnfinished id) := by
  unfold cleanupOnce
  split_ifs with h
  · rw [decide_eq_false (by omega)]
    cases db.emails.get? id <;> rfl
  · have hc : (Tx.transaction (cleanupExpired r.toInt now) none db).2 =
        db.deleteEmails fun e => decide (e.receivedAt < cutoff r.toInt now) &&
          !db.hasUnfinished e.id := by
      unfold cleanupExpired
      rw [if_neg h]
      rfl
    rw [hc, Db.get?_deleteEmails, decide_eq_true (by omega)]
    rcases he : db.emails.get? id with _ | e
    · rfl
    · have hk : e.id = id := Table.get?_key he
      simp [Option.filter_some, hk]

theorem filter_some_eq_iff {α : Type} {p q : α → Bool} {a : α} :
    (some a).filter p = (some a).filter q ↔ p a = q a := by
  rw [Option.filter_some, Option.filter_some]
  cases p a <;> cases q a <;> simp

/-- The emails that a tick deletes are the right ones when its cutoff tells the
    finished emails apart as the exact one does. -/
theorem expiresExactly_iff (r : Int32) : ExpiresExactly n now db (cleanupOnce r now none db) ↔
    ∀ e ∈ db.emails.rows, db.hasUnfinished e.id = false →
      ((0 < r.toInt ∧ e.receivedAt < cutoff r.toInt now) ↔
        (0 < n ∧ e.receivedAt < now - n * day)) := by
  have hrow (e : EmailRow) (id : Uuid) (hu : db.hasUnfinished id = false) :
      (some e).filter (fun e => !(decide (0 < r.toInt) &&
        decide (e.receivedAt < cutoff r.toInt now) && !db.hasUnfinished id)) =
      (some e).filter (fun e => !(decide (0 < n) && decide (e.receivedAt < now - n * day) &&
        !db.hasUnfinished id)) ↔
      ((0 < r.toInt ∧ e.receivedAt < cutoff r.toInt now) ↔
        (0 < n ∧ e.receivedAt < now - n * day)) := by
    rw [filter_some_eq_iff, hu, Bool.eq_iff_iff]
    simp only [Bool.not_false, Bool.and_true, Bool.not_eq_true', Bool.and_eq_false_iff,
      decide_eq_false_iff_not, ← not_and_or, not_iff_not]
  simp only [ExpiresExactly, get?_cleanupOnce]
  constructor
  · intro h e he hu
    have := h e.id
    rw [show db.emails.get? e.id = some e from Table.get?_of_mem he] at this
    exact (hrow e e.id hu).1 this
  · intro h id
    rcases he : db.emails.get? id with _ | e
    · rfl
    · obtain ⟨hm, hk⟩ := Table.get?_eq_some.1 he
      have hk' : e.id = id := hk
      rcases hu : db.hasUnfinished id with _ | _
      · rw [← hu]
        exact (hrow e id hu).2 (h e hm (by rw [hk', hu]))
      · simp

/-- The wrapped cutoff is not before the exact one. -/
theorem exact_le_cutoff (hn : 106751 < n) (now days : ℤ) : now - n * day ≤ cutoff days now := by
  have : minInt64 ≤ wrap64 (-days * 24 * (3600 * second)) := by
    have := Int.le_bmod (x := -days * 24 * (3600 * second)) (m := 2 ^ 64) (by decide)
    unfold wrap64 minInt64
    omega
  unfold cutoff minInt64 day second at *
  omega

theorem cutoff_of_le (h₀ : 0 ≤ n) (hn : n ≤ 106751) : cutoff n now = now - n * day := by
  unfold cutoff
  rw [wrap64_of_mem (by unfold minInt64 second; omega) (by unfold maxInt64 second; omega)]
  unfold day second
  omega

/-- **A tick deletes exactly the expired, finished emails** when the days fit. -/
theorem cleanupOnce_exact_iff (h₀ : 0 ≤ n) :
    ExpiresExactly n now db (cleanupOnce (Int32.ofInt n) now none db) ↔ RetentionFits n now db := by
  rw [expiresExactly_iff, RetentionFits]
  by_cases hn : n ≤ 106751
  · have hr : (Int32.ofInt n).toInt = n := Int32.toInt_ofInt_of_le (by omega) (by omega)
    simp [hn, hr, cutoff_of_le h₀ hn]
  · have hle := exact_le_cutoff (not_le.1 hn) now
    have hpos : 0 < n := by omega
    by_cases hr : 0 < (Int32.ofInt n).toInt
    · simp only [hn, hr, not_le.2 hr, false_and, false_or, true_and, hpos, NoneFinished]
      refine forall₃_congr fun e _ _ => ?_
      constructor
      · rintro h ⟨h₁, h₂⟩
        exact absurd (h.1 h₂) (not_lt.2 h₁)
      · intro h
        constructor
        · intro h₂
          by_contra h₁
          exact h ⟨not_lt.1 h₁, h₂⟩
        · intro h₁
          exact h₁.trans_le (hle _)
    · simp only [hn, hr, not_lt.1 hr, false_and, false_or, or_false, true_and, hpos, NoneFinished]
      refine forall₃_congr fun e _ _ => ?_
      simp

end

/-- **Retention after a saved form**: the next tick deletes exactly the finished
    emails received more than that many days ago, exactly when the days fit. -/
theorem retention_exact_iff (w : SettingsWorld) (k : ℕ) (form : SettingsForm) (v : Settings)
    (hw : w.requests k = .done) (hv : parseSettings form = .ok v) (now : ℤ) (db : Db) :
    ∃ w', exec SettingsWorld.step w (.request k form :: callsOf k 6) = some w' ∧
      (ExpiresExactly v.retentionDays now db (cleanupOnce w'.retention now none db) ↔
        RetentionFits v.retentionDays now db) := by
  obtain ⟨w', hw', hr⟩ := save_retention hw hv
  refine ⟨w', hw', ?_⟩
  rw [hr]
  exact cleanupOnce_exact_iff (parseSettings_range hv)

/-- In November 2023. -/
def sampleNow : ℤ := 1700000000 * second

/-- An email that was received so many days ago and dropped. -/
def droppedEmail (id : Uuid) (days : ℤ) : Tx Unit :=
  saveEmail ⟨id, sampleNow - days * day, "a@example.com", ["b@example.org"], "a@example.com",
    ["b@example.org"], "hello", .dropped, "", none, none⟩

/-- One email, of yesterday. -/
def dayOldEmail : Db := (Tx.transaction (droppedEmail 1 1) none .empty).2

/-- And one of last month. -/
def oldEmails : Db := (Tx.transaction (droppedEmail 2 40) none dayOldEmail).2

theorem retention_exact_month : ∃ w', exec SettingsWorld.step (.start sampleSettings)
    (.request 0 (sampleForm "info" "30") :: callsOf 0 6) = some w' ∧
    ExpiresExactly 30 sampleNow oldEmails (cleanupOnce w'.retention sampleNow none oldEmails) ∧
    (cleanupOnce w'.retention sampleNow none oldEmails).emails.rows.map (fun e => e.id) = [1] := by
  obtain ⟨w', hw', h⟩ := retention_exact_iff (.start sampleSettings) 0 (sampleForm "info" "30")
    ⟨"info", ⟨.log, .log, .enforce⟩, ⟨3, 1000000000, 60000000000, 30000000000, true⟩, 30⟩ rfl
    (by decide +kernel) sampleNow oldEmails
  have hs : ((exec SettingsWorld.step (.start sampleSettings)
      (.request 0 (sampleForm "info" "30") :: callsOf 0 6)).map fun w => w.retention) = some 30 := by
    decide +kernel
  rw [hw', Option.map_some, Option.some.injEq] at hs
  refine ⟨w', hw', h.2 (.inl (by decide)), ?_⟩
  rw [hs]
  decide +kernel

/-- A retention of 106752 days deletes every finished email. -/
theorem retention_deletes_all : ∃ w', exec SettingsWorld.step (.start sampleSettings)
    (.request 0 (sampleForm "info" "106752") :: callsOf 0 6) = some w' ∧
    (dayOldEmail.emails.get? 1).map (fun e => decide (sampleNow - 106752 * day < e.receivedAt)) =
      some true ∧
    (cleanupOnce w'.retention sampleNow none dayOldEmail).emails.get? 1 = none ∧
    ¬ ExpiresExactly 106752 sampleNow dayOldEmail
      (cleanupOnce w'.retention sampleNow none dayOldEmail) := by
  have hs : ((exec SettingsWorld.step (.start sampleSettings)
      (.request 0 (sampleForm "info" "106752") :: callsOf 0 6)).map fun w => w.retention) =
      some 106752 := by decide +kernel
  obtain ⟨w', hw', hr⟩ := Option.map_eq_some_iff.1 hs
  have hgone : (cleanupOnce w'.retention sampleNow none dayOldEmail).emails.get? 1 = none := by
    rw [hr]; decide +kernel
  refine ⟨w', hw', by decide +kernel, hgone, fun h => ?_⟩
  have := h 1
  rw [hgone] at this
  revert this
  decide +kernel

end Mailrelay
