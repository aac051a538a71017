/-!
# Step after step

This module follows a system from step to step. A run is the sequence of the steps' inputs, and
the state after it is their fold. The steps of a run obey a rule if each one does in the state that
it meets (`Run.Obeys`), and what they tell on the way, each in that state, is the history of the run
(`Run.history`). What every step keeps, a run keeps, by itself (`Run.Obeys.invariant`) and together
with the history (`Run.Obeys.invariant_history`).
-/

namespace JobAdmission.Run

variable {S E α : Type} {step : S → E → S} {rule rule' : S → E → Prop} {f : S → E → List α} {s : S}
  {es es' : List E}

/-- The steps of a run obey a rule, each in the state that it meets. -/
def Obeys (step : S → E → S) (rule : S → E → Prop) (s : S) : List E → Prop
  | [] => True
  | e :: es => rule s e ∧ Obeys step rule (step s e) es

instance decidableObeys (step : S → E → S) (rule : S → E → Prop) [∀ s, DecidablePred (rule s)] :
    ∀ (s : S) (es : List E), Decidable (Obeys step rule s es)
  | _, [] => .isTrue trivial
  | s, e :: es =>
    have := decidableObeys step rule (step s e) es
    inferInstanceAs (Decidable (_ ∧ _))

theorem obeys_append :
    Obeys step rule s (es ++ es') ↔
      Obeys step rule s es ∧ Obeys step rule (es.foldl step s) es' := by
  induction es generalizing s with
  | nil => exact ⟨fun h => ⟨trivial, h⟩, And.right⟩
  | cons e es ih => rw [List.cons_append, Obeys, Obeys, ih, and_assoc, List.foldl_cons]

/-- A run under a rule is one under every weaker rule. -/
theorem Obeys.mono (h : Obeys step rule s es) (weaker : ∀ s e, rule s e → rule' s e) :
    Obeys step rule' s es := by
  induction es generalizing s with
  | nil => trivial
  | cons e es ih => exact ⟨weaker s e h.1, ih h.2⟩

/-- What every step keeps, a run keeps. -/
theorem Obeys.invariant {I : S → Prop} (keep : ∀ s e, I s → rule s e → I (step s e))
    (h : Obeys step rule s es) (hI : I s) : I (es.foldl step s) := by
  induction es generalizing s with
  | nil => exact hI
  | cons e es ih => exact ih h.2 (keep s e hI h.1)

/-- What the steps of a run tell one after the other. -/
def history (step : S → E → S) (f : S → E → List α) (s : S) : List E → List α
  | [] => []
  | e :: es => f s e ++ history step f (step s e) es

theorem history_append :
    history step f s (es ++ es') = history step f s es ++ history step f (es.foldl step s) es' := by
  induction es generalizing s with
  | nil => rfl
  | cons e es ih => rw [List.cons_append, history, ih, history, List.append_assoc, List.foldl_cons]

/-- What a step of a run tells, the run tells. -/
theorem mem_history {x : α} {e : E} (hx : x ∈ f (es.foldl step s) e) :
    x ∈ history step f s (es ++ e :: es') := by
  rw [history_append, history]
  exact List.mem_append_right _ (List.mem_append_left _ hx)

/-- What every step keeps, together with all that it tells, a run keeps together with all that
was told. -/
theorem Obeys.invariant_history {I : S → List α → Prop}
    (keep : ∀ s e told, I s told → rule s e → I (step s e) (told ++ f s e))
    (h : Obeys step rule s es) {told : List α} (hI : I s told) :
    I (es.foldl step s) (told ++ history step f s es) := by
  induction es generalizing s told with
  | nil =>
    rw [history, List.append_nil]
    exact hI
  | cons e es ih =>
    rw [history, ← List.append_assoc]
    exact ih h.2 (keep s e told hI h.1)

end JobAdmission.Run
