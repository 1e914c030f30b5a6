import IasClient.Framework.OrdMap
import Mathlib.Algebra.Ring.Divisibility.Basic
import Mathlib.Data.UInt

namespace Framework

/-- A divisor of the number of machine integers divides them as it divides their values. -/
theorem dvd_iff_toNat_dvd {d x : UInt64} (hd : d.toNat ∣ 2 ^ 64) : d ∣ x ↔ d.toNat ∣ x.toNat := by
  constructor
  · rintro ⟨c, rfl⟩
    rw [UInt64.toNat_mul]
    apply (Nat.dvd_mod_iff hd).mpr
    exact Nat.dvd_mul_right d.toNat c.toNat
  · rintro ⟨n, hn⟩
    refine ⟨UInt64.ofNat n, ?_⟩
    apply UInt64.toNat_inj.mp
    rw [UInt64.toNat_mul, UInt64.toNat_ofNat', Nat.mul_mod_mod, ← hn]
    exact (Nat.mod_eq_of_lt x.toNat_lt).symm

/-- A division without remainder is undone by the multiplication. -/
theorem div_mul_of_dvd {d x : UInt64} (hd : d.toNat ∣ 2 ^ 64) (h : d ∣ x) : x / d * d = x := by
  have hnat : d.toNat ∣ x.toNat := (dvd_iff_toNat_dvd hd).mp h
  apply UInt64.toNat_inj.mp
  rw [UInt64.toNat_mul, UInt64.toNat_div, Nat.div_mul_cancel hnat]
  exact Nat.mod_eq_of_lt x.toNat_lt

namespace OrdMap

variable {κ ν : Type} [LinearOrder κ]

/-- Every value of the map is a multiple of `d`. -/
def Multiples [Semigroup ν] (d : ν) (m : OrdMap κ ν) : Prop := ∀ e ∈ m.entries, d ∣ e.2

namespace Multiples

theorem empty [Semigroup ν] (d : ν) : (empty : OrdMap κ ν).Multiples d := by
  intro e he
  cases he

theorem insert [Semigroup ν] {d v : ν} {m : OrdMap κ ν} (h : m.Multiples d) (hv : d ∣ v) (k : κ) :
    (m.insert k v).Multiples d := by
  intro e he
  rcases mem_insertList he with rfl | he
  · exact hv
  · exact h e he

variable [NonUnitalSemiring ν] {d v : ν} {m : OrdMap κ ν}

theorem get (h : m.Multiples d) (k : κ) : d ∣ m.get k := by
  rw [OrdMap.get]
  cases hf : m.find? k with
  | none => exact dvd_zero d
  | some v => exact h _ (mem_of_find? hf)

theorem add (h : m.Multiples d) (hv : d ∣ v) (k : κ) : (m.add k v).Multiples d :=
  h.insert (dvd_add (h.get k) hv) k

theorem foldl_insert_zero (h : m.Multiples d) (ks : List κ) :
    (ks.foldl (fun m i => m.insert i 0) m).Multiples d := by
  induction ks generalizing m with
  | nil => exact h
  | cons k ks ih => exact ih (h.insert (dvd_zero d) k)

end Multiples

omit [LinearOrder κ] in
theorem sumList_true [AddCommMonoid ν] (l : List (κ × ν)) :
    sumList (fun _ => true) l = (l.map (·.2)).sum := by
  induction l with
  | nil => rfl
  | cons e l ih => rw [sumList, if_pos rfl, ih, List.map_cons, List.sum_cons]

/-- The sum of all values grows by what is added under a key. -/
theorem sum_values_add [AddCommGroup ν] (m : OrdMap κ ν) (k : κ) (v : ν) :
    (m.add k v).values.sum = m.values.sum + v := by
  have h := sumWhere_add m (fun _ => true) k v
  rwa [if_pos rfl, sumWhere, sumWhere, sumList_true, sumList_true] at h

end OrdMap

end Framework
