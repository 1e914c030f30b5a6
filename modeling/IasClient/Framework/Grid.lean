import IasClient.Framework.OrdMap
import Mathlib.Algebra.Order.Ring.Int
import Mathlib.Tactic.Ring

namespace Framework

/-- The keys of an ordered list of pairs fill the first places of a grid without a gap: up to the
place `n` there is no key off the grid, and no grid point missing below a key. -/
structure OnGrid {ν : Type} (l : List (Int × ν)) (start gap : Int) (n : Nat) : Prop where
  low : ∀ e ∈ l, start ≤ e.1
  grid : ∀ e ∈ l, e.1 < start + gap * n → gap ∣ e.1 - start
  dense : ∀ i < n, (∃ e ∈ l, start + gap * i ≤ e.1) → ∃ e ∈ l, e.1 = start + gap * i

variable {ν : Type} {l : List (Int × ν)} {e : Int × ν} {start gap : Int} {n : Nat}

theorem OnGrid.head (h : OnGrid (e :: l) start gap (n + 1))
    (hs : (e :: l).Pairwise fun a b => a.1 < b.1) : e.1 = start := by
  obtain ⟨he, -⟩ := List.pairwise_cons.mp hs
  have hlow := h.low e (by simp)
  obtain ⟨d, hd, hds⟩ := h.dense 0 (by omega) ⟨e, by simp, by simpa using hlow⟩
  rcases List.mem_cons.mp hd with rfl | hd
  · simpa using hds
  · have := he d hd
    simp only [Nat.cast_zero, mul_zero, add_zero] at hds
    omega

theorem OnGrid.tail (h : OnGrid (e :: l) start gap (n + 1)) (hgap : 0 < gap)
    (hs : (e :: l).Pairwise fun a b => a.1 < b.1) : OnGrid l (start + gap) gap n := by
  have hhead := h.head hs
  obtain ⟨he, -⟩ := List.pairwise_cons.mp hs
  have hpoint (i : Nat) : start + gap * ((i + 1 : Nat) : Int) = start + gap + gap * i := by
    push_cast
    ring
  refine ⟨?_, ?_, ?_⟩
  · intro d hd
    by_contra hlt
    have hpos : 0 < d.1 - start := by
      have := he d hd
      omega
    have hdvd := h.grid d (by simp [hd]) (by
      have : 0 ≤ gap * (n : Int) := mul_nonneg (Int.le_of_lt hgap) (Int.natCast_nonneg n)
      rw [hpoint]
      omega)
    have := Int.le_of_dvd hpos hdvd
    omega
  · intro d hd hlt
    have hdvd := h.grid d (by simp [hd]) (by rwa [hpoint])
    have : d.1 - (start + gap) = d.1 - start - gap := by ring
    rw [this]
    exact Int.dvd_sub hdvd (Int.dvd_refl gap)
  · rintro i hi ⟨d, hd, hle⟩
    obtain ⟨c, hc, hce⟩ := h.dense (i + 1) (by omega) ⟨d, by simp [hd], by rwa [hpoint]⟩
    rw [hpoint] at hce
    rcases List.mem_cons.mp hc with rfl | hc
    · have : 0 ≤ gap * (i : Int) := mul_nonneg (Int.le_of_lt hgap) (Int.natCast_nonneg i)
      omega
    · exact ⟨c, hc, hce⟩

/-- The entry with the ordinal `i` is the one under the `i`-th grid point. -/
theorem OnGrid.getElem? (h : OnGrid l start gap n) (hgap : 0 < gap)
    (hs : l.Pairwise fun a b => a.1 < b.1) {i : Nat} (hi : i < n) :
    (l[i]?).map (·.2) = OrdMap.findList (start + gap * i) l := by
  induction l generalizing start n i with
  | nil => rfl
  | cons e l ih =>
    cases n with
    | zero => omega
    | succ n =>
      have hhead := h.head hs
      have htail := h.tail hgap hs
      cases i with
      | zero => simp [OrdMap.findList, hhead]
      | succ i =>
        have hpoint : start + gap * ((i + 1 : Nat) : Int) = start + gap + gap * i := by
          push_cast
          ring
        have hne : start + gap + gap * (i : Int) ≠ e.1 := by
          have : 0 ≤ gap * (i : Int) := mul_nonneg (Int.le_of_lt hgap) (Int.natCast_nonneg i)
          omega
        rw [List.getElem?_cons_succ, ih htail (List.pairwise_cons.mp hs).2 (by omega), hpoint]
        simp [OrdMap.findList, hne]

/-- A sum over the first places is a sum over the first grid points. -/
theorem OnGrid.sum_take {M : Type} [AddMonoid M] (f : ν → M) (h : OnGrid l start gap n)
    (hgap : 0 < gap) (hs : l.Pairwise fun a b => a.1 < b.1) {m : Nat} (hm : m ≤ n) :
    ((l.take m).map fun e => f e.2).sum =
      ((List.range m).map fun i : Nat =>
        ((OrdMap.findList (start + gap * i) l).map f).getD 0).sum := by
  induction m with
  | zero => simp
  | succ m ih =>
    have hplace : ((l[m]?).map fun e => f e.2) =
        (OrdMap.findList (start + gap * m) l).map f := by
      rw [← h.getElem? hgap hs (by omega), Option.map_map]
      rfl
    rw [List.take_add_one, List.map_append, List.sum_append, ih (by omega), List.range_succ,
      List.map_append, List.sum_append, List.map_singleton, List.sum_singleton, ← hplace]
    cases l[m]? <;> simp

end Framework
