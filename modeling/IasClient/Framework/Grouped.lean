import Mathlib.Data.List.Basic

namespace Framework

variable {α β : Type} {R : Nat → β → List α → Prop} {bs : List β} {as : List α} {b : β}

/-- A flat list cut into one group for each entry of another list; `R` relates an entry to its
group and is told the place of the entry. -/
inductive Grouped (R : Nat → β → List α → Prop) : List β → List α → Prop
  | nil : Grouped R [] []
  | snoc {bs : List β} {as g : List α} {b : β} :
      Grouped R bs as → R bs.length b g → Grouped R (bs ++ [b]) (as ++ g)

namespace Grouped

/-- Every entry has its group. -/
theorem exists_of_mem (h : Grouped R bs as) (hb : b ∈ bs) : ∃ n g, R n b g := by
  induction h with
  | nil => exact absurd hb List.not_mem_nil
  | snoc _ hg ih =>
    rcases List.mem_append.mp hb with hb | hb
    · exact ih hb
    · exact List.mem_singleton.mp hb ▸ ⟨_, _, hg⟩

end Grouped

end Framework
