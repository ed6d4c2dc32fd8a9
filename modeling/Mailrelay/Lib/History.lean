/-
  What a history of events says, the oldest event first.

  A step function keeps summaries of what has happened.  `since` and `latest`
  look the same things up in the history, and `pasts` pairs each event with
  what came before it.

  * `Run.history`: what every step keeps in step with the history;
  * `since_concat`, `latest_concat`, `pasts_concat`: one more event.
-/
import Mailrelay.Lib.Run

namespace Lib

variable {ε α σ : Type}

/-- The events after the last one that `p` marks. -/
def since (p : ε → Bool) (es : List ε) : List ε := (es.reverse.takeWhile fun e => !p e).reverse

/-- The last value that `f` finds. -/
def latest (f : ε → Option α) (es : List ε) : Option α := (es.filterMap f).getLast?

def pastsFrom : List ε → List ε → List (List ε × ε)
  | _, [] => []
  | past, e :: es => (past, e) :: pastsFrom (past ++ [e]) es

/-- The events, each with those before it. -/
def pasts (es : List ε) : List (List ε × ε) := pastsFrom [] es

section
variable {p : ε → Bool} {f : ε → Option α} {es : List ε} {e : ε}

@[simp] theorem since_nil : since p [] = [] := rfl

theorem since_concat : since p (es ++ [e]) = if p e then [] else since p es ++ [e] := by
  cases h : p e <;> simp [since, h]

@[simp] theorem latest_nil : latest f [] = none := rfl

theorem latest_concat : latest f (es ++ [e]) = (f e).or (latest f es) := by
  cases h : f e <;> simp [latest, h]


theorem pastsFrom_append (past : List ε) (es es' : List ε) :
    pastsFrom past (es ++ es') = pastsFrom past es ++ pastsFrom (past ++ es) es' := by
  induction es generalizing past with
  | nil => simp [pastsFrom]
  | cons d es ih => simp [pastsFrom, ih]

@[simp] theorem pasts_nil : pasts ([] : List ε) = [] := rfl

theorem pasts_concat : pasts (es ++ [e]) = pasts es ++ [(es, e)] := by
  simp [pasts, pastsFrom_append, pastsFrom]

theorem pasts_append_subset {es' : List ε} : pasts es ⊆ pasts (es ++ es') := by
  intro x hx
  rw [pasts, pastsFrom_append]
  exact List.mem_append_left _ hx

/-- What comes before an event is the start of the history. -/
theorem eq_append_of_mem_pasts {past : List ε} (h : (past, e) ∈ pasts es) :
    ∃ rest, es = past ++ [e] ++ rest := by
  have hfrom : ∀ start, (past, e) ∈ pastsFrom start es → ∃ rest, start ++ es = past ++ [e] ++ rest := by
    clear h
    induction es with
    | nil => exact fun _ => nofun
    | cons d es ih =>
      intro start hm
      rcases List.mem_cons.1 hm with heq | hm
      · cases heq
        exact ⟨es, by simp⟩
      · obtain ⟨rest, hr⟩ := ih _ hm
        exact ⟨rest, by simpa using hr⟩
  exact hfrom [] h

end

/-- **History rule**: what holds at the start, and of every step with the
    events before it, holds at the end of every run. -/
theorem Run.history {step : σ → ε → Option σ} {P : σ → ε → Prop} {J : List ε → σ → Prop}
    (hstep : ∀ past s e s', J past s → P s e → step s e = some s' → J (past ++ [e]) s')
    {s s' : σ} {es : List ε} (h : Run step P s es s') : J [] s → J es s' := by
  have hfrom : ∀ past, J past s → J (past ++ es) s' := by
    induction h with
    | nil => intro past hj; simpa using hj
    | cons hp hs _ ih =>
      intro past hj
      simpa using ih _ (hstep _ _ _ _ hj hp hs)
  exact hfrom []

end Lib
