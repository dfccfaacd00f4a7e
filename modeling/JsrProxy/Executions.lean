import Mathlib

set_option autoImplicit false

/-!
# Runs of a step function

A run folds a step function over a list of events. `Admitted` collects a
condition on each event in the state it meets, so that what one step preserves
under the condition is preserved by every run whose steps all meet it.
-/
namespace JsrProxy.Executions

variable {σ ε : Type}

def run (step : σ → ε → σ) (s : σ) (es : List ε) : σ := es.foldl step s

/-- Each event of the run meets `C` in the state it is applied to. -/
def Admitted (step : σ → ε → σ) (C : σ → ε → Prop) : σ → List ε → Prop
  | _, [] => True
  | s, e :: es => C s e ∧ Admitted step C (step s e) es

@[simp] theorem run_nil (step : σ → ε → σ) (s : σ) : run step s [] = s := rfl

@[simp] theorem run_cons (step : σ → ε → σ) (s : σ) (e : ε) (es : List ε) :
    run step s (e :: es) = run step (step s e) es := rfl

theorem run_append (step : σ → ε → σ) (s : σ) (es fs : List ε) :
    run step s (es ++ fs) = run step (run step s es) fs := List.foldl_append

theorem admitted_append (step : σ → ε → σ) (C : σ → ε → Prop) (s : σ) (es fs : List ε) :
    Admitted step C s (es ++ fs) ↔
      Admitted step C s es ∧ Admitted step C (run step s es) fs := by
  induction es generalizing s with
  | nil => simp [Admitted]
  | cons e es ih => simp [Admitted, ih, and_assoc]

instance decidableAdmitted (step : σ → ε → σ) (C : σ → ε → Prop) [∀ s e, Decidable (C s e)] (s : σ)
    (es : List ε) : Decidable (Admitted step C s es) :=
  match es with
  | [] => .isTrue trivial
  | e :: es => @instDecidableAnd _ _ _ (decidableAdmitted step C (step s e) es)

theorem admitted_true (step : σ → ε → σ) (s : σ) (es : List ε) :
    Admitted step (fun _ _ => True) s es := by
  induction es generalizing s with
  | nil => trivial
  | cons e es ih => exact ⟨trivial, ih _⟩

theorem admitted_and {step : σ → ε → σ} {C D : σ → ε → Prop} (s : σ) (es : List ε) :
    Admitted step (fun t e => C t e ∧ D t e) s es ↔ Admitted step C s es ∧ Admitted step D s es := by
  induction es generalizing s with
  | nil => simp [Admitted]
  | cons e es ih =>
    simp only [Admitted, ih]
    tauto

theorem admitted_of_prefixes {step : σ → ε → σ} {C : σ → ε → Prop} (s : σ) (es : List ε)
    (h : ∀ before e after, es = before ++ e :: after → C (run step s before) e) :
    Admitted step C s es := by
  induction es generalizing s with
  | nil => trivial
  | cons e es ih =>
    refine ⟨h [] e es rfl, ih _ ?_⟩
    intro before f after heq
    exact h (e :: before) f after (by rw [heq, List.cons_append])

/-- What every admitted step preserves, every admitted run preserves. -/
theorem run_invariant {step : σ → ε → σ} (I : σ → Prop) (C : σ → ε → Prop)
    (hstep : ∀ s e, I s → C s e → I (step s e)) (s : σ) (es : List ε)
    (hs : I s) (ha : Admitted step C s es) : I (run step s es) := by
  induction es generalizing s with
  | nil => exact hs
  | cons e es ih => exact ih _ (hstep s e hs ha.1) ha.2

/-- What an invariant of the admitted steps implies at each of them is met along the run. -/
theorem admitted_of_invariant {step : σ → ε → σ} (I : σ → Prop) (C D : σ → ε → Prop)
    (hstep : ∀ s e, I s → C s e → I (step s e)) (himp : ∀ s e, I s → C s e → D s e) (s : σ)
    (es : List ε) (hs : I s) (ha : Admitted step C s es) : Admitted step D s es := by
  induction es generalizing s with
  | nil => trivial
  | cons e es ih => exact ⟨himp s e hs ha.1, ih _ (hstep s e hs ha.1) ha.2⟩

def Reached (step : σ → ε → σ) (C : σ → ε → Prop) (s t : σ) : Prop :=
  ∃ es, run step s es = t ∧ Admitted step C s es

theorem Reached.refl (step : σ → ε → σ) (C : σ → ε → Prop) (s : σ) : Reached step C s s := ⟨[], rfl, trivial⟩

theorem Reached.next {step : σ → ε → σ} {C : σ → ε → Prop} {s t : σ} (h : Reached step C s t) {e : ε}
    (he : C t e) : Reached step C s (step t e) := by
  obtain ⟨es, rfl, ha⟩ := h
  refine ⟨es ++ [e], run_append step s es [e], ?_⟩
  rw [admitted_append]
  exact ⟨ha, he, trivial⟩

/-- A preorder kept by every admitted step relates the ends of every admitted run. -/
theorem run_related {step : σ → ε → σ} (I : σ → Prop) (C : σ → ε → Prop) (R : σ → σ → Prop)
    (hinv : ∀ s e, I s → C s e → I (step s e)) (hrel : ∀ s e, I s → C s e → R s (step s e))
    (hrefl : ∀ s, R s s) (htrans : ∀ s t u, R s t → R t u → R s u) (s : σ) (es : List ε)
    (hs : I s) (ha : Admitted step C s es) : R s (run step s es) := by
  induction es generalizing s with
  | nil => exact hrefl s
  | cons e es ih =>
    exact htrans _ _ _ (hrel s e hs ha.1) (ih _ (hinv s e hs ha.1) ha.2)

end JsrProxy.Executions
