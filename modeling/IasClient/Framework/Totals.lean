import Mathlib.Algebra.BigOperators.Group.List.Basic

namespace Framework

variable {α M : Type} [AddCommMonoid M]

/-- The running totals of `w`, from `p` on, just before each selected element. -/
def totalsAt (sel : α → Bool) (w : α → M) : M → List α → List M
  | _, [] => []
  | p, a :: as => if sel a then p :: totalsAt sel w (p + w a) as else totalsAt sel w (p + w a) as

variable {sel : α → Bool} {w : α → M} {p : M} {as : List α}

theorem totalsAt_append (sel : α → Bool) (w : α → M) (p : M) (as : List α) (a : α) :
    totalsAt sel w p (as ++ [a]) =
      totalsAt sel w p as ++ if sel a then [p + (as.map w).sum] else [] := by
  induction as generalizing p with
  | nil => cases h : sel a <;> simp [totalsAt, h]
  | cons b as ih =>
    simp only [List.cons_append, totalsAt, ih, List.map_cons, List.sum_cons, add_assoc]
    split <;> simp

theorem exists_of_totalsAt_ne_nil (h : totalsAt sel w p as ≠ []) : ∃ a ∈ as, sel a = true := by
  induction as generalizing p with
  | nil => simp [totalsAt] at h
  | cons b as ih =>
    by_cases hb : sel b = true
    · exact ⟨b, by simp, hb⟩
    · obtain ⟨a, ha, hs⟩ := ih (by simpa [totalsAt, hb] using h)
      exact ⟨a, by simp [ha], hs⟩

/-- The first value other than 0; 0 if there is none. -/
def firstNonzero [DecidableEq M] (l : List M) : M := (l.find? (· ≠ 0)).getD 0

theorem firstNonzero_append [DecidableEq M] (l : List M) (p : M) :
    firstNonzero (l ++ [p]) = if firstNonzero l = 0 then p else firstNonzero l := by
  induction l with
  | nil => by_cases hp : p = 0 <;> simp [firstNonzero, hp]
  | cons a l ih =>
    by_cases ha : a = 0
    · simpa [firstNonzero, ha] using ih
    · simp [firstNonzero, ha]

theorem firstNonzero_eq_zero_iff [DecidableEq M] {l : List M} :
    firstNonzero l = 0 ↔ ∀ a ∈ l, a = 0 := by
  induction l with
  | nil => simp [firstNonzero]
  | cons a l ih =>
    by_cases ha : a = 0
    · simpa [firstNonzero, ha] using ih
    · simp [firstNonzero, ha]

end Framework
