import Mathlib.Data.Option.Basic
import Mathlib.Logic.Relation

namespace Framework

variable {σ α : Type}

/-- The runs of a partial step function in which every step taken meets `ok`. -/
inductive Run (step : α → σ → Option σ) (ok : σ → α → Prop) (s : σ) : σ → Prop
  | refl : Run step ok s s
  | tail {t u : σ} {a : α} : Run step ok s t → ok t a → step a t = some u → Run step ok s u

namespace Run

variable {step : α → σ → Option σ} {ok ok' : σ → α → Prop} {s t u : σ}

theorem trans (h : Run step ok s t) (k : Run step ok t u) : Run step ok s u := by
  induction k with
  | refl => exact h
  | tail _ ha hs ih => exact ih.tail ha hs

theorem mono (hok : ∀ t a, ok t a → ok' t a) (h : Run step ok s t) : Run step ok' s t := by
  induction h with
  | refl => exact .refl
  | tail _ ha hs ih => exact ih.tail (hok _ _ ha) hs

/-- A property that every admitted step preserves holds at the end of every run. -/
theorem invariant {I : σ → Prop} (hstep : ∀ t a u, I t → ok t a → step a t = some u → I u)
    (h0 : I s) (h : Run step ok s t) : I t := by
  induction h with
  | refl => exact h0
  | tail _ ha hs ih => exact hstep _ _ _ ih ha hs

/-- The invariant rule with a property `J` already known of every state of the runs. -/
theorem invariant_of {I J : σ → Prop} (hJ : ∀ t, Run step ok s t → J t)
    (hstep : ∀ t a u, J t → J u → I t → ok t a → step a t = some u → I u)
    (h0 : I s) (h : Run step ok s t) : I t := by
  induction h with
  | refl => exact h0
  | tail hr ha hs ih => exact hstep _ _ _ (hJ _ hr) (hJ _ (hr.tail ha hs)) ih ha hs

/-- A function that takes the steps of one system to steps of another takes runs to runs. -/
theorem map {τ : Type} {step₂ : α → τ → Option τ} {ok₂ : τ → α → Prop} (f : σ → τ)
    (hok : ∀ t a, ok t a → ok₂ (f t) a)
    (hstep : ∀ t a u, step a t = some u → step₂ a (f t) = some (f u)) (h : Run step ok s t) :
    Run step₂ ok₂ (f s) (f t) := by
  induction h with
  | refl => exact .refl
  | tail _ ha hs ih => exact ih.tail (hok _ _ ha) (hstep _ _ _ hs)

theorem head_cases (h : Run step ok s t) :
    s = t ∨ ∃ a u, ok s a ∧ step a s = some u ∧ Run step ok u t := by
  induction h with
  | refl => exact .inl rfl
  | tail _ ha hs ih =>
    rcases ih with rfl | ⟨b, v, hb, hv, hr⟩
    · exact .inr ⟨_, _, ha, hs, .refl⟩
    · exact .inr ⟨b, v, hb, hv, hr.tail ha hs⟩

/-- A system with one action has at most one state at which its runs can end. -/
theorem unique {step : Unit → σ → Option σ} {ok : σ → Unit → Prop} (h : Run step ok s t)
    (k : Run step ok s u) (ht : step () t = none) (hu : step () u = none) : t = u := by
  have hrest : Run step ok t u := by
    clear ht
    induction h with
    | refl => exact k
    | tail _ _ hs ih =>
      rcases ih.head_cases with rfl | ⟨_, v, _, hv, hr⟩
      · rw [hu] at hs
        contradiction
      · obtain rfl := Option.some.inj (hs.symm.trans hv)
        exact hr
  rcases hrest.head_cases with rfl | ⟨_, v, _, hv, -⟩
  · rfl
  · rw [ht] at hv
    contradiction

end Run

/-- The run of a list of actions; `none` as soon as one of them is not enabled. -/
def exec (step : α → σ → Option σ) : List α → σ → Option σ
  | [], s => some s
  | a :: as, s => (step a s).bind (exec step as)

/-- Two states that a relation keeps in lockstep stay related along every list of actions. -/
theorem exec_lockstep {step : α → σ → Option σ} {R : σ → σ → Prop}
    (hstep : ∀ a s t, R s t → Option.Rel R (step a s) (step a t)) (as : List α) {s t : σ}
    (h : R s t) : Option.Rel R (exec step as s) (exec step as t) := by
  induction as generalizing s t with
  | nil => exact .some h
  | cons a as ih =>
    have h := hstep a s t h
    rw [exec, exec]
    generalize step a s = u at h ⊢
    generalize step a t = v at h ⊢
    cases h with
    | some h => exact ih h
    | none => exact .none

/-- The step function that refuses what `ok` does not admit. -/
def guarded (ok : σ → α → Prop) [∀ s a, Decidable (ok s a)] (step : α → σ → Option σ) (a : α)
    (s : σ) : Option σ :=
  if ok s a then step a s else none

theorem run_of_exec {step : α → σ → Option σ} {ok : σ → α → Prop} [∀ s a, Decidable (ok s a)]
    (as : List α) {s t : σ} (h : exec (guarded ok step) as s = some t) : Run step ok s t := by
  induction as generalizing s with
  | nil =>
    simp only [exec, Option.some.injEq] at h
    subst h
    exact .refl
  | cons a as ih =>
    simp only [exec, guarded, Option.bind_eq_some_iff] at h
    obtain ⟨u, hu, ht⟩ := h
    split at hu
    · rename_i ha
      exact (Run.tail .refl ha hu).trans (ih ht)
    · contradiction

end Framework
