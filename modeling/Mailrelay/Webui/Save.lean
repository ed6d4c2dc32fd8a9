/-
  A settings request as a whole (`handleSettingsSave` in
  `internal/webui/handler.go`), with the exits on which it fails.

  The form is checked before anything is written.  The configuration of the UI
  is written next, and only then the `settings` row, which may fail.

  * `exec_handleSettingsSave`, `exec_failedSave`: the requests of `Settings`
    that nobody interrupts;
  * `save_unchanged_iff`: when a failed save changes nothing;
  * `failedSave_disagrees`: what it leaves behind.
-/
import Mailrelay.Webui.Settings

namespace Mailrelay

open Lib

/-- The response of a settings request. -/
inductive SaveResult where
  | badRequest
  /-- `renderSettingsWithError` -/
  | error (message : String)
  /-- to `/settings?saved=1` -/
  | redirect
  deriving DecidableEq, Repr

namespace SettingsWorld

/-- The places, in the order of the writes. -/
def writeAll (w : SettingsWorld) (v : Settings) : SettingsWorld :=
  [Place.row, .level, .auth, .retry, .retention].foldl (fun w p => w.write v p) w

/-- `handleSettingsSave`; `form` is missing if `ParseForm` fails, and `saves`
    says whether `SaveSettings` succeeds. -/
def handleSettingsSave (w : SettingsWorld) (form : Option SettingsForm) (saves : Bool) :
    SettingsWorld × SaveResult :=
  match form with
  | none => (w, .badRequest)
  | some form =>
    match parseSettings form with
    | .error message => (w, .error message)
    | .ok v =>
      let w := { w with config := v }
      if saves then (w.writeAll v, .redirect) else (w, .error "Failed to save settings.")

variable {w : SettingsWorld} {n : ℕ} {form : SettingsForm} {v : Settings}

theorem setRequest_setRequest (w : SettingsWorld) (n : ℕ) (ph ph' : SavePhase) :
    (w.setRequest n ph).setRequest n ph' = w.setRequest n ph' := by
  simp [setRequest]

theorem setRequest_eq_self (h : w.requests n = .done) : w.setRequest n .done = w := by
  unfold setRequest
  rw [← h, Function.update_eq_self]

theorem write_setRequest (w : SettingsWorld) (n : ℕ) (ph : SavePhase) (v : Settings) (p : Place) :
    (w.setRequest n ph).write v p = (w.write v p).setRequest n ph := by
  cases p <;> rfl

/-- The first call writes the configuration of the UI. -/
theorem exec_parsed (hw : w.requests n = .done) (hform : parseSettings form = .ok v) :
    exec step w [.request n form, .call n] =
      some (({ w with config := v } : SettingsWorld).setRequest n (.saving v .row)) := by
  have hupdate : ({ w.setRequest n (.parsed v) with config := v } : SettingsWorld).setRequest n
      (.saving v .row) = ({ w with config := v } : SettingsWorld).setRequest n (.saving v .row) :=
    setRequest_setRequest { w with config := v } n (.parsed v) (.saving v .row)
  simp only [exec, step, hw, hform, Option.bind_some, setRequest_self, hupdate]

/-- The others write the places. -/
theorem exec_saving (w : SettingsWorld) (n : ℕ) (v : Settings) :
    exec step (w.setRequest n (.saving v .row)) (callsOf n 5) =
      some ((w.writeAll v).setRequest n .done) := by
  simp only [callsOf, List.replicate, exec, step, Option.bind_some, setRequest_self, Place.next,
    write_setRequest, setRequest_setRequest, writeAll, List.foldl_cons, List.foldl_nil]

/-- **A successful save is a request with all its calls.** -/
theorem exec_handleSettingsSave (hw : w.requests n = .done) (hform : parseSettings form = .ok v) :
    exec step w (.request n form :: callsOf n 6) = some (w.handleSettingsSave (some form) true).1 := by
  have hdone : (({ w with config := v } : SettingsWorld).writeAll v).requests n = .done := by
    simp only [writeAll, List.foldl_cons, List.foldl_nil, write_requests, hw]
  have hresult : (w.handleSettingsSave (some form) true).1 =
      ({ w with config := v } : SettingsWorld).writeAll v := by
    simp only [handleSettingsSave, hform, if_true]
  rw [hresult, ← setRequest_eq_self hdone]
  change exec step w ([.request n form, .call n] ++ callsOf n 5) = _
  rw [exec_append, exec_parsed hw hform, Option.bind_some, exec_saving]

/-- **A failed one stops after the first call.** -/
theorem exec_failedSave (hw : w.requests n = .done) (hform : parseSettings form = .ok v) :
    (exec step w [.request n form, .call n]).map (fun w => w.setRequest n .done) =
      some (w.handleSettingsSave (some form) false).1 := by
  have hresult : (w.handleSettingsSave (some form) false).1 = { w with config := v } := by
    simp only [handleSettingsSave, hform, Bool.false_eq_true, if_false]
  have hdone : ({ w with config := v } : SettingsWorld).requests n = .done := hw
  rw [exec_parsed hw hform, Option.map_some, setRequest_setRequest, hresult, setRequest_eq_self hdone]

end SettingsWorld

/-- **A save that does not succeed changes nothing** exactly if the form is
    rejected, `SaveSettings` succeeds, or the form has the values of the UI. -/
theorem save_unchanged_iff (w : SettingsWorld) (form : Option SettingsForm) (saves : Bool) :
    ((w.handleSettingsSave form saves).2 ≠ .redirect → (w.handleSettingsSave form saves).1 = w) ↔
      (∀ f v, form = some f → parseSettings f = .ok v → saves = false → v = w.config) := by
  rcases form with _ | f
  · refine iff_of_true (fun _ => rfl) ?_
    rintro f v ⟨⟩
  · rcases hf : parseSettings f with message | v
    · refine iff_of_true (fun _ => ?_) ?_
      · simp only [SettingsWorld.handleSettingsSave, hf]
      · rintro f' v ⟨⟩ hv
        rw [hf] at hv
        cases hv
    · cases saves with
      | true =>
        refine iff_of_true (fun h => absurd ?_ h) (by simp)
        simp only [SettingsWorld.handleSettingsSave, hf, if_true]
      | false =>
        simp only [SettingsWorld.handleSettingsSave, hf, Bool.false_eq_true, if_false]
        constructor
        · rintro h f' v' ⟨⟩ hv' -
          rw [hf] at hv'
          cases hv'
          exact congrArg SettingsWorld.config (h (by simp))
        · intro h _
          have := h f v rfl hf trivial
          rw [this]

/-- **After a failed save the places disagree**, if they agreed before and the
    form had other values. -/
theorem failedSave_disagrees {w : SettingsWorld} {f : SettingsForm} {v : Settings}
    (hw : w.Agrees w.config) (hf : parseSettings f = .ok v) (hv : v ≠ w.config) (v' : Settings) :
    ¬ (w.handleSettingsSave (some f) false).1.Agrees v' := by
  simp only [SettingsWorld.handleSettingsSave, hf, Bool.false_eq_true, if_false]
  rintro ⟨rfl, hplaces⟩
  have hrow : w.row = v := Content.row.inj (hplaces .row)
  have hold : w.row = w.config := Content.row.inj (hw.2 .row)
  exact hv (hrow.symm.trans hold)

/-- The form is valid and `SaveSettings` fails: the UI shows the new level. -/
theorem failed_save_changes_config : ¬∀ (w : SettingsWorld) (form : Option SettingsForm) (saves : Bool),
    (w.handleSettingsSave form saves).2 ≠ .redirect → (w.handleSettingsSave form saves).1 = w := by
  intro h
  have hw := h (.start sampleSettings) (some (sampleForm "debug" "7")) false (by decide +kernel)
  have hlevel := congrArg (fun w => w.config.logLevel) hw
  revert hlevel
  decide +kernel

end Mailrelay
