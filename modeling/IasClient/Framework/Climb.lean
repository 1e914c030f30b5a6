import Mathlib.Data.List.Basic
import Mathlib.Order.Defs.Unbundled

namespace Framework

variable {α : Type} {R : α → α → Prop} {log : List α} {a b c : α}

/-- A log of readings of a register that only climbs. -/
structure Climbs (R : α → α → Prop) (log : List α) (current : α) : Prop where
  sorted : log.Pairwise R
  below : ∀ a ∈ log, R a current

namespace Climbs

theorem nil (a : α) : Climbs R [] a := ⟨.nil, by simp⟩

/-- The register climbs. -/
theorem move [IsTrans α R] (h : Climbs R log a) (hab : R a b) : Climbs R log b :=
  ⟨h.sorted, fun c hc => IsTrans.trans c a b (h.below c hc) hab⟩

/-- The register is read. -/
theorem read [Std.Refl R] (h : Climbs R log a) : Climbs R (log ++ [a]) a := by
  refine ⟨List.pairwise_append.mpr ⟨h.sorted, List.pairwise_singleton .., ?_⟩, fun c hc => ?_⟩
  · exact fun c hc d hd => List.mem_singleton.mp hd ▸ h.below c hc
  · rcases List.mem_append.mp hc with hc | hc
    · exact h.below c hc
    · exact List.mem_singleton.mp hc ▸ Std.Refl.refl c

end Climbs

end Framework
