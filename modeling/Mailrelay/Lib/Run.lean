/-
  Runs of a guarded step function.

  A system is a partial step function `step : σ → ε → Option σ`: an event that
  is not enabled yields `none`.  `Run step P s es s'` is a run from `s` to `s'`
  by the events `es` in which every event satisfies the side condition `P` in
  the state it is taken from; `Reach step` drops the events and the condition.

  * `Run.inv`: what every step preserves holds at the end of every run;
  * `Run.rel`: a reflexive, transitive relation that contains every step
    relates the two ends of every run;
  * `Run.of_exec`: a run computed by folding `step` over a list of events;
  * `Run.of_execIf`: one whose side condition is computed, too.
-/
import Mathlib.Logic.Function.Basic
import Mathlib.Data.List.Basic
import Mathlib.Tactic.SplitIfs

namespace Lib

variable {σ ε : Type}

/-- The events `es` lead from `s` to `s'`, each allowed by `P` where it is
    taken. -/
inductive Run (step : σ → ε → Option σ) (P : σ → ε → Prop) : σ → List ε → σ → Prop
  | nil {s} : Run step P s [] s
  | cons {s e s' es s''} : P s e → step s e = some s' → Run step P s' es s'' →
      Run step P s (e :: es) s''

/-- `s'` is reachable from `s`. -/
def Reach (step : σ → ε → Option σ) (s s' : σ) : Prop :=
  ∃ es, Run step (fun _ _ => True) s es s'

/-- Fold the step function over a list of events. -/
def exec (step : σ → ε → Option σ) : σ → List ε → Option σ
  | s, [] => some s
  | s, e :: es => (step s e).bind (exec step · es)

/-- Fold the step function as long as the events pass a test. -/
def execIf (step : σ → ε → Option σ) (test : σ → ε → Bool) : σ → List ε → Option σ
  | s, [] => some s
  | s, e :: es => if test s e then (step s e).bind (execIf step test · es) else none

variable {step : σ → ε → Option σ} {P Q : σ → ε → Prop}

/-- One list of events after another. -/
theorem exec_append (s : σ) (es fs : List ε) :
    exec step s (es ++ fs) = (exec step s es).bind (exec step · fs) := by
  induction es generalizing s with
  | nil => rfl
  | cons e es ih =>
    simp only [List.cons_append, exec, Option.bind_assoc]
    exact congrArg ((step s e).bind ·) (funext fun s' => ih s')

namespace Run

/-- **Invariant rule.** -/
theorem inv {I : σ → Prop} (hstep : ∀ s e s', I s → P s e → step s e = some s' → I s')
    {s s' : σ} {es : List ε} (h : Run step P s es s') : I s → I s' := by
  induction h with
  | nil => exact id
  | cons hp hs _ ih => exact fun hi => ih (hstep _ _ _ hi hp hs)

/-- **Relation rule**: what one step relates, a run relates, along an
    invariant. -/
theorem rel {I : σ → Prop} {R : σ → σ → Prop} (hrefl : ∀ s, R s s)
    (htrans : ∀ {a b c}, R a b → R b c → R a c)
    (hinv : ∀ s e s', I s → P s e → step s e = some s' → I s')
    (hstep : ∀ s e s', I s → P s e → step s e = some s' → R s s')
    {s s' : σ} {es : List ε} (h : Run step P s es s') : I s → R s s' := by
  induction h with
  | nil => exact fun _ => hrefl _
  | cons hp hs _ ih =>
    exact fun hi => htrans (hstep _ _ _ hi hp hs) (ih (hinv _ _ _ hi hp hs))

theorem imp (hPQ : ∀ s e, P s e → Q s e) {s s' : σ} {es : List ε} (h : Run step P s es s') :
    Run step Q s es s' := by
  induction h with
  | nil => exact .nil
  | cons hp hs _ ih => exact .cons (hPQ _ _ hp) hs ih

/-- The events of a run are those of its list. -/
theorem mem {s s' : σ} {es : List ε} (h : Run step P s es s') :
    Run step (fun s e => P s e ∧ e ∈ es) s es s' := by
  induction h with
  | nil => exact .nil
  | cons hp hs _ ih =>
    exact .cons ⟨hp, List.mem_cons_self⟩ hs (ih.imp fun _ _ h => ⟨h.1, List.mem_cons_of_mem _ h.2⟩)

theorem append {s s' s'' : σ} {es es' : List ε} (h : Run step P s es s')
    (h' : Run step P s' es' s'') : Run step P s (es ++ es') s'' := by
  induction h with
  | nil => exact h'
  | cons hp hs _ ih => exact .cons hp hs (ih h')

/-- A run can be computed. -/
theorem exec_eq {s s' : σ} {es : List ε} (h : Run step P s es s') : exec step s es = some s' := by
  induction h with
  | nil => rfl
  | cons _ hs _ ih => rw [exec, hs, Option.bind_some, ih]

theorem reach {s s' : σ} {es : List ε} (h : Run step P s es s') : Reach step s s' :=
  ⟨es, h.imp fun _ _ _ => trivial⟩

/-- A computed run, of events that are allowed in every state. -/
theorem of_exec : ∀ {es : List ε} {s s' : σ}, (∀ e ∈ es, ∀ s, P s e) →
    exec step s es = some s' → Run step P s es s'
  | [], s, s', _, h => by cases h; exact .nil
  | e :: es, s, s', hP, h => by
    obtain ⟨s₁, h₁, h₂⟩ := Option.bind_eq_some_iff.1 h
    exact .cons (hP e List.mem_cons_self s) h₁
      (of_exec (fun e' he' => hP e' (List.mem_cons_of_mem e he')) h₂)

/-- A computed run, of events that pass a test. -/
theorem of_execIf {test : σ → ε → Bool} (hP : ∀ s e, test s e = true → P s e) {es : List ε} {s s' : σ}
    (h : execIf step test s es = some s') : Run step P s es s' := by
  induction es generalizing s with
  | nil =>
    cases h
    exact .nil
  | cons e es ih =>
    rw [execIf] at h
    split_ifs at h with htest
    obtain ⟨s₁, h₁, h₂⟩ := Option.bind_eq_some_iff.1 h
    exact .cons (hP s e htest) h₁ (ih h₂)

end Run

namespace Reach

theorem refl (s : σ) : Reach step s s := ⟨[], .nil⟩

theorem trans {a b c : σ} (h₁ : Reach step a b) (h₂ : Reach step b c) : Reach step a c := by
  obtain ⟨es, r⟩ := h₁
  obtain ⟨es', r'⟩ := h₂
  exact ⟨es ++ es', r.append r'⟩

theorem of_exec {s s' : σ} {es : List ε} (h : exec step s es = some s') : Reach step s s' :=
  ⟨es, Run.of_exec (fun _ _ _ => trivial) h⟩

/-- Invariant rule for reachable states. -/
theorem inv {I : σ → Prop} (hstep : ∀ s e s', I s → step s e = some s' → I s') {s s' : σ}
    (h : Reach step s s') (hi : I s) : I s' :=
  h.choose_spec.inv (fun s e s' hi _ hs => hstep s e s' hi hs) hi

end Reach

end Lib
