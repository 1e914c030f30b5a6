import IasClient.Framework.Run
import Mathlib.Algebra.BigOperators.Group.List.Basic
import Mathlib.Algebra.Order.Ring.Nat
import Mathlib.Order.WellFounded

namespace Framework

variable {σ α β : Type} {step : α → σ → Option σ}

/-- An infinite run of a partial step function. -/
structure Schedule (step : α → σ → Option σ) where
  state : Nat → σ
  action : Nat → α
  valid : ∀ n, step (action n) (state n) = some (state (n + 1))

namespace Schedule

/-- A schedule with one action before it. -/
def cons (r : Schedule step) (a : α) (s : σ) (h : step a s = some (r.state 0)) : Schedule step where
  state
    | 0 => s
    | n + 1 => r.state n
  action
    | 0 => a
    | n + 1 => r.action n
  valid
    | 0 => h
    | n + 1 => r.valid n

/-- A finite run to a state that the action `b` leaves alone is a schedule. -/
theorem exists_of_exec {as : List α} {b : α} {s t : σ} (h : exec step as s = some t)
    (hb : step b t = some t) : ∃ r : Schedule step, r.state 0 = s ∧
      (∀ n, r.action n = (as[n]?).getD b) ∧ ∀ n, as.length ≤ n → r.state n = t := by
  induction as generalizing s with
  | nil =>
    obtain rfl := Option.some.inj h
    exact ⟨⟨fun _ => s, fun _ => b, fun _ => hb⟩, rfl, fun _ => rfl, fun _ _ => rfl⟩
  | cons a as ih =>
    simp only [exec, Option.bind_eq_some_iff] at h
    obtain ⟨u, hu, ht⟩ := h
    obtain ⟨r, h0, ha, hn⟩ := ih ht
    refine ⟨r.cons a s (h0 ▸ hu), rfl, fun n => ?_, fun n hle => ?_⟩
    · cases n with
      | zero => rfl
      | succ n => exact ha n
    · cases n with
      | zero => simp at hle
      | succ n => exact hn n (by simpa using hle)

/-- What every step preserves holds from the first state on. -/
theorem invariant (r : Schedule step) {I : σ → Prop}
    (hstep : ∀ s a t, I s → step a s = some t → I t) (h0 : I (r.state 0)) (n : Nat) :
    I (r.state n) := by
  induction n with
  | zero => exact h0
  | succ n ih => exact hstep _ _ _ ih (r.valid n)

/-- If moves lower a rank and the other actions do not raise it, there is a last move. -/
theorem eventually_idle [Preorder β] [WellFoundedLT β] (r : Schedule step) {I : σ → Prop}
    {move : α → Prop} {rank : σ → β} (hI : ∀ n, I (r.state n))
    (hmove : ∀ s a t, I s → move a → step a s = some t → rank t < rank s)
    (hidle : ∀ s a t, I s → ¬ move a → step a s = some t → rank t ≤ rank s) :
    ∃ N, ∀ n, N ≤ n → ¬ move (r.action n) := by
  have hle (m n : Nat) (h : m ≤ n) : rank (r.state n) ≤ rank (r.state m) := by
    induction n, h using Nat.le_induction with
    | base => exact le_refl _
    | succ n _ ih =>
      by_cases hm : move (r.action n)
      · exact (hmove _ _ _ (hI n) hm (r.valid n)).le.trans ih
      · exact (hidle _ _ _ (hI n) hm (r.valid n)).trans ih
  -- a state of minimal rank is followed by no move
  obtain ⟨N, -, hmin⟩ := WellFounded.has_min (r := fun m n : Nat =>
    rank (r.state m) < rank (r.state n)) (InvImage.wf (fun n => rank (r.state n)) wellFounded_lt)
    Set.univ ⟨0, trivial⟩
  refine ⟨N, fun n hn hm => hmin (n + 1) trivial ?_⟩
  exact (hmove _ _ _ (hI n) hm (r.valid n)).trans_le (hle N n hn)

/-- A schedule that lets some move happen whenever one is enabled reaches the goal, if a rank
falls with every move and no state short of the goal is without a move. -/
theorem reaches [Preorder β] [WellFoundedLT β] (r : Schedule step) {I goal : σ → Prop}
    {move : α → Prop} {rank : σ → β} (hI : ∀ n, I (r.state n))
    (hmove : ∀ s a t, I s → move a → step a s = some t → rank t < rank s)
    (hidle : ∀ s a t, I s → ¬ move a → step a s = some t → rank t ≤ rank s)
    (hprogress : ∀ s, I s → goal s ∨ ∃ a, move a ∧ (step a s).isSome = true)
    (hfair : ∀ n, (∃ a, move a ∧ (step a (r.state n)).isSome = true) →
      ∃ m, n ≤ m ∧ move (r.action m)) :
    ∃ n, goal (r.state n) := by
  obtain ⟨N, hN⟩ := r.eventually_idle hI hmove hidle
  rcases hprogress _ (hI N) with hg | henabled
  · exact ⟨N, hg⟩
  · obtain ⟨m, hm, ha⟩ := hfair N henabled
    exact absurd ha (hN m hm)

end Schedule

/-- The sum over a list of which one element is replaced. -/
theorem sum_map_set {l : List α} {i : Nat} {a : α} (f : α → Nat) (b : α) (h : l[i]? = some a) :
    ((l.set i b).map f).sum + f a = (l.map f).sum + f b := by
  induction l generalizing i with
  | nil => simp at h
  | cons c l ih =>
    cases i with
    | zero =>
      simp only [List.getElem?_cons_zero, Option.some.injEq] at h
      subst h
      simp only [List.set_cons_zero, List.map_cons, List.sum_cons]
      omega
    | succ i =>
      have hrest := ih (by simpa using h)
      simp only [List.set_cons_succ, List.map_cons, List.sum_cons]
      omega

end Framework
