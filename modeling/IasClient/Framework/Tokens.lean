import Mathlib.Data.List.Chain

namespace Framework

variable {α : Type} {d : α} {s t : List α}

/-- No piece of `s ++ t` between delimiters `d` reaches from `s` into `t`. -/
def Apart (d : α) (s t : List α) : Prop := s.getLast? = some d ∨ t.head? = some d

theorem apart_cons_cons (x y : α) (s t : List α) : Apart d (x :: y :: s) t ↔ Apart d (y :: s) t := by
  simp [Apart, List.getLast?_cons_cons]

variable [DecidableEq α]

instance (s t : List α) : Decidable (Apart d s t) := inferInstanceAs (Decidable (_ ∨ _))

/-- The pieces of a list between the delimiters, without the empty ones. -/
def tokens (s : List α) (d : α) : List (List α) := (s.splitOn d).filter (· ≠ [])

@[simp] theorem tokens_nil : tokens [] d = [] := by
  simp [tokens, List.splitOn_eq_splitOnP]

theorem tokens_append_cons (s t : List α) : tokens (s ++ d :: t) d = tokens s d ++ tokens t d := by
  rw [tokens, List.splitOn_eq_splitOnP, List.splitOnP_append_cons _ _ (by simp), List.filter_append]
  simp only [tokens, List.splitOn_eq_splitOnP]

@[simp] theorem tokens_cons_self : tokens (d :: s) d = tokens s d := by
  simpa using tokens_append_cons (d := d) [] s

theorem tokens_of_notMem (h : d ∉ s) (hs : s ≠ []) : tokens s d = [s] := by
  rw [tokens, List.splitOn_eq_splitOnP, List.splitOnP_eq_singleton]
  · simp [hs]
  · intro x hx
    simp only [beq_eq_false_iff_ne]
    rintro rfl
    exact h hx

/-- Cutting where a delimiter stands loses no piece. -/
theorem tokens_append (h : Apart d s t) : tokens (s ++ t) d = tokens s d ++ tokens t d := by
  rcases h with h | h
  · obtain ⟨s, rfl⟩ := List.getLast?_eq_some_iff.mp h
    have hs : tokens (s ++ [d]) d = tokens s d := by simpa using tokens_append_cons s []
    rw [List.append_assoc, hs]
    exact tokens_append_cons s t
  · obtain ⟨t, rfl⟩ := List.head?_eq_some_iff.mp h
    rw [tokens_append_cons, tokens_cons_self]

theorem length_tokens_singleton {x : α} (hx : x ≠ d) : (tokens [x] d).length = 1 := by
  rw [tokens_of_notMem (by simpa using hx.symm) (by simp)]
  rfl

/-- A piece is counted where it ends. -/
theorem length_tokens_cons_cons (x y : α) (s : List α) : (tokens (x :: y :: s) d).length =
    (if x ≠ d ∧ y = d then 1 else 0) + (tokens (y :: s) d).length := by
  by_cases hx : x = d
  · subst hx
    simp
  by_cases hy : y = d
  · subst hy
    have := tokens_append_cons (d := y) [x] s
    simp only [List.singleton_append] at this
    rw [this, List.length_append, length_tokens_singleton hx, tokens_cons_self]
    simp [hx]
  · simp only [tokens, List.splitOn_eq_splitOnP]
    rw [List.splitOnP_cons_eq_if_modifyHead, List.splitOnP_cons_eq_if_modifyHead]
    obtain ⟨u, us, hu⟩ := List.exists_cons_of_ne_nil (List.splitOnP_ne_nil (· == d) s)
    simp [hx, hy, hu]

/-- Cutting inside a piece makes one piece more. -/
theorem length_tokens_append (hs : s ≠ []) (ht : t ≠ []) (h : ¬ Apart d s t) :
    (tokens (s ++ t) d).length + 1 = (tokens s d).length + (tokens t d).length := by
  induction s with
  | nil => contradiction
  | cons x s ih =>
    cases s with
    | nil =>
      cases t with
      | nil => contradiction
      | cons y t =>
        simp only [Apart, List.getLast?_singleton, List.head?_cons, Option.some.injEq, not_or] at h
        rw [List.singleton_append, length_tokens_cons_cons, length_tokens_singleton h.1]
        simp [h.2]
        omega
    | cons y s =>
      have ih := ih (by simp) (by rwa [apart_cons_cons] at h)
      simp only [List.cons_append] at ih ⊢
      rw [length_tokens_cons_cons, length_tokens_cons_cons]
      omega

theorem length_tokens_append_le (s t : List α) :
    (tokens (s ++ t) d).length ≤ (tokens s d).length + (tokens t d).length := by
  by_cases h : Apart d s t
  · rw [tokens_append h, List.length_append]
  by_cases hs : s = []
  · simp [hs]
  by_cases ht : t = []
  · simp [ht]
  have := length_tokens_append hs ht h
  omega

theorem length_tokens_flatten_le (l : List (List α)) :
    (tokens l.flatten d).length ≤ (l.flatMap (tokens · d)).length := by
  induction l with
  | nil => simp
  | cons s l ih =>
    have := length_tokens_append_le (d := d) s l.flatten
    simp only [List.flatten_cons, List.flatMap_cons, List.length_append]
    omega

/-- The pieces of a list that arrives in parts are those of the parts exactly when every cut is at
a delimiter. -/
theorem tokens_flatten_iff {l : List (List α)} (hl : ∀ s ∈ l, s ≠ []) :
    tokens l.flatten d = l.flatMap (tokens · d) ↔ l.IsChain (Apart d) := by
  induction l with
  | nil => simp
  | cons s l ih =>
    have hs := hl s (by simp)
    have ih := ih fun t ht => hl t (by simp [ht])
    cases l with
    | nil => simp
    | cons t l =>
      have ht := hl t (by simp)
      have hjoin : Apart d s (t :: l).flatten ↔ Apart d s t := by
        obtain ⟨x, t, rfl⟩ := List.exists_cons_of_ne_nil ht
        simp [Apart]
      rw [List.isChain_cons_cons, ← ih, ← hjoin, List.flatten_cons, List.flatMap_cons]
      constructor
      · intro h
        have happ : Apart d s (t :: l).flatten := by
          by_contra hn
          have h1 := length_tokens_append hs (by simp [ht]) hn
          have h2 := length_tokens_flatten_le (d := d) (t :: l)
          rw [h, List.length_append] at h1
          omega
        rw [tokens_append happ] at h
        exact ⟨happ, List.append_cancel_left h⟩
      · rintro ⟨happ, h⟩
        rw [tokens_append happ, h]

end Framework
