import IasClient.Model.Aggregate
import Mathlib.Data.UInt
import Mathlib.Algebra.BigOperators.Group.List.Basic

namespace IasClient

open Framework

variable {skip : Int → Bool} {currentStep steps : Int} {l : List (Int × UInt64)} {i : Int}
  {b : BinSums}

/-- The skipped bins take no ordinal. -/
theorem walkBins_filter (skip : Int → Bool) (currentStep steps : Int) (l : List (Int × UInt64))
    (i : Int) (b : BinSums) : walkBins skip currentStep steps l i b =
      walkBins (fun _ => false) currentStep steps (l.filter fun e => !skip e.1) i b := by
  induction l generalizing i b with
  | nil => rfl
  | cons e l ih =>
    cases hs : skip e.1
    · simp [walkBins, hs, ih]
    · simp [walkBins, hs, ih]

/-- Behind the current step the walk adds nothing. -/
theorem walkBins_past (h : currentStep < i) :
    (walkBins (fun _ => false) currentStep steps l i b).bytes = b.bytes ∧
      (walkBins (fun _ => false) currentStep steps l i b).bytesDistinct = b.bytesDistinct := by
  induction l generalizing i with
  | nil => exact ⟨rfl, rfl⟩
  | cons e l ih =>
    have h1 : ¬ i ≤ currentStep := by omega
    have h2 : i ≠ currentStep := by omega
    simp only [walkBins, h1, h2, if_false, Bool.false_eq_true]
    split_ifs
    · exact ⟨rfl, rfl⟩
    · exact ih (by omega)

/-- The current step's bytes are those of the bin with its ordinal. -/
theorem walkBins_bytesDistinct (hi : i ≤ currentStep) (hc : currentStep ≤ steps) :
    (walkBins (fun _ => false) currentStep steps l i b).bytesDistinct =
      ((l[(currentStep - i).toNat]?).map fun e => e.2 / 8).getD b.bytesDistinct := by
  induction l generalizing i b with
  | nil => simp [walkBins]
  | cons e l ih =>
    by_cases heq : i = currentStep
    · subst heq
      simp only [walkBins, le_refl, if_true, if_false, Bool.false_eq_true]
      split_ifs
      · simp
      · rw [(walkBins_past (by omega)).2]
        simp
    · have hlt : i + 1 ≤ currentStep := by omega
      have hne : i ≠ steps := by omega
      have hnat : (currentStep - i).toNat = (currentStep - (i + 1)).toNat + 1 := by omega
      simp only [walkBins, heq, hne, hi, if_true, if_false, Bool.false_eq_true]
      rw [ih hlt, hnat, List.getElem?_cons_succ]

/-- The bytes up to the current step are those of the bins up to its ordinal. -/
theorem walkBins_bytes (hi : i ≤ currentStep + 1) (hc : currentStep ≤ steps) :
    (walkBins (fun _ => false) currentStep steps l i b).bytes =
      b.bytes + ((l.take (currentStep + 1 - i).toNat).map fun e => e.2 / 8).sum := by
  induction l generalizing i b with
  | nil => simp [walkBins]
  | cons e l ih =>
    by_cases heq : i = currentStep + 1
    · rw [(walkBins_past (by omega)).1, heq]
      simp
    · have hle : i ≤ currentStep := by omega
      have hnat : (currentStep + 1 - i).toNat = (currentStep + 1 - (i + 1)).toNat + 1 := by omega
      rw [hnat, List.take_succ_cons, List.map_cons, List.sum_cons, ← add_assoc]
      by_cases hstep : i = steps
      · have hzero : (currentStep + 1 - (i + 1)).toNat = 0 := by omega
        simp only [walkBins, hstep, if_true, if_false, Bool.false_eq_true]
        rw [← hstep, hzero]
        split_ifs <;> simp
      · have hrec := ih (b := { b with
          bins := b.bins.add i e.2
          bytes := b.bytes + e.2 / 8
          bytesDistinct := if i = currentStep then e.2 / 8 else b.bytesDistinct })
          (i := i + 1) (by omega)
        simp only [walkBins, hle, hstep, if_true, if_false, Bool.false_eq_true]
        rw [← hrec]
        congr 2
        split_ifs <;> rfl

theorem toNat_sum {l : List UInt64} (h : (l.map UInt64.toNat).sum < 2 ^ 64) :
    l.sum.toNat = (l.map UInt64.toNat).sum := by
  induction l with
  | nil => rfl
  | cons a l ih =>
    simp only [List.map_cons, List.sum_cons] at h ⊢
    rw [UInt64.toNat_add, ih (by omega)]
    omega

/-- The bins of a stream that the walk counts. -/
def counted (v : WalkInput) (s : Stream) : List (Int × UInt64) :=
  s.data.results.entries.filter fun e => !skipped v e.1

def distinctBytes (v : WalkInput) (currentStep : Int) (s : Stream) : UInt64 :=
  (((counted v s)[(currentStep - 1).toNat]?).map fun e => e.2 / 8).getD 0

def bytesUpTo (v : WalkInput) (currentStep : Int) (s : Stream) : UInt64 :=
  (((counted v s).take currentStep.toNat).map fun e => e.2 / 8).sum

/-- The walk sums a stream's counted bins up to the current step. -/
theorem walkBins_bytesUpTo {v : WalkInput} {s : Stream} {bins : OrdMap Int UInt64}
    (h1 : 1 ≤ currentStep) (hc : currentStep ≤ steps) :
    (walkBins (skipped v) currentStep steps s.data.results.entries 1 { bins := bins }).bytes =
      bytesUpTo v currentStep s := by
  have hnat : (currentStep + 1 - 1).toNat = currentStep.toNat := by omega
  rw [walkBins_filter, walkBins_bytes (by omega) hc, hnat, zero_add]
  rfl

/-- The walk reads the current step's bytes off the counted bin with its ordinal. -/
theorem walkBins_distinctBytes {v : WalkInput} {s : Stream} {bins : OrdMap Int UInt64}
    (h1 : 1 ≤ currentStep) (hc : currentStep ≤ steps) :
    (walkBins (skipped v) currentStep steps s.data.results.entries 1
      { bins := bins }).bytesDistinct = distinctBytes v currentStep s := by
  rw [walkBins_filter, walkBins_bytesDistinct h1 hc]
  rfl

theorem eq_of_stoll {x y : UInt64} (h : stoll x = some y) : y = x := by
  unfold stoll at h
  split_ifs at h
  simpa using h.symm

/-- What one stream adds to the sums of a step. -/
theorem visitStream_sums {v : WalkInput} {j : Nat} {s : Stream} {a a' : StepSums} {p : PerStream}
    (h1 : 1 ≤ currentStep) (hc : currentStep ≤ steps)
    (h : visitStream v currentStep steps j s a = some (a', p)) :
    a'.bytes = a.bytes + bytesUpTo v currentStep s ∧
      a'.bytesDistinct = a.bytesDistinct + distinctBytes v currentStep s := by
  simp only [visitStream, Option.bind_eq_bind, Option.bind_eq_some_iff, Option.some.injEq,
    Prod.mk.injEq, Option.pure_def] at h
  obtain ⟨bytes, hb, bytesDistinct, hd, -, -, -, -, -, -, -, -, rfl, -⟩ := h
  rw [eq_of_stoll hb, eq_of_stoll hd, walkBins_bytesUpTo h1 hc, walkBins_distinctBytes h1 hc]
  exact ⟨rfl, rfl⟩

theorem visitStreams_sums {v : WalkInput} {j : Nat} {ss : List Stream} {a a' : StepSums}
    {ps : List PerStream} (h1 : 1 ≤ currentStep) (hc : currentStep ≤ steps)
    (h : visitStreams v currentStep steps j ss a = some (a', ps)) :
    a'.bytes = a.bytes + (ss.map (bytesUpTo v currentStep)).sum ∧
      a'.bytesDistinct = a.bytesDistinct + (ss.map (distinctBytes v currentStep)).sum := by
  induction ss generalizing j a ps with
  | nil =>
    simp only [visitStreams, Option.some.injEq, Prod.mk.injEq] at h
    simp [h.1]
  | cons s ss ih =>
    simp only [visitStreams, Option.bind_eq_bind, Option.bind_eq_some_iff, Option.some.injEq,
      Prod.mk.injEq, Option.pure_def, Prod.exists] at h
    obtain ⟨a₁, p, hs, a₂, ps', hss, rfl, -⟩ := h
    obtain ⟨hb, hd⟩ := visitStream_sums h1 hc hs
    obtain ⟨hb', hd'⟩ := ih hss
    rw [hb', hb, hd', hd]
    simp [add_assoc]

/-- Every step of the walk has its result. -/
theorem walkSteps_getElem? {v : WalkInput} {now : Int → UInt64} {ss : List Stream} {fuel : Nat}
    {rs : List Aggregate} {ps : List PerStream}
    (h : walkSteps v steps now ss fuel currentStep = some (rs, ps)) {n : Nat} (hn : n < fuel) :
    ∃ a qs, visitStreams v (currentStep + n) steps 0 ss
        { currentTimestamp := now (currentStep + n) } = some (a, qs) ∧
      rs[n]? = some (stepResult v a) := by
  induction fuel generalizing currentStep rs ps n with
  | zero => omega
  | succ fuel ih =>
    simp only [walkSteps, Option.bind_eq_bind, Option.bind_eq_some_iff, Option.some.injEq,
      Prod.mk.injEq, Option.pure_def, Prod.exists] at h
    obtain ⟨a, qs, hv, rs', ps', hw, rfl, -⟩ := h
    cases n with
    | zero => exact ⟨a, qs, by simpa using hv, rfl⟩
    | succ n =>
      obtain ⟨a', qs', hv', hr⟩ := ih hw (Nat.lt_of_succ_lt_succ hn)
      refine ⟨a', qs', ?_, by simpa using hr⟩
      have : currentStep + 1 + (n : Int) = currentStep + ((n + 1 : Nat) : Int) := by omega
      rwa [this] at hv'

theorem length_walkSteps {v : WalkInput} {now : Int → UInt64} {ss : List Stream} {fuel : Nat}
    {rs : List Aggregate} {ps : List PerStream}
    (h : walkSteps v steps now ss fuel currentStep = some (rs, ps)) : rs.length = fuel := by
  induction fuel generalizing currentStep rs ps with
  | zero =>
    simp only [walkSteps, Option.some.injEq, Prod.mk.injEq] at h
    rw [← h.1, List.length_nil]
  | succ fuel ih =>
    simp only [walkSteps, Option.bind_eq_bind, Option.bind_eq_some_iff, Prod.exists,
      Option.pure_def, Option.some.injEq, Prod.mk.injEq] at h
    obtain ⟨_, _, -, _, _, hrest, rfl, -⟩ := h
    rw [List.length_cons, ih hrest]

/-- The published sums of the step `n + 1`. -/
theorem calculateMeasurementResults_getElem? {v : WalkInput} {now : Int → UInt64}
    {ss : List Stream} {rs : List Aggregate} {ps : List PerStream}
    (h : calculateMeasurementResultsDownloadUpload v now ss = some (rs, ps)) {n : Nat}
    (hn : (n : Int) < maxSteps v) : ∃ a, rs[n]? = some a ∧
      a.bytes = (ss.map (bytesUpTo v (n + 1))).sum * 8 / 8 ∧
      a.bytesDistinct = (ss.map (distinctBytes v (n + 1))).sum := by
  obtain ⟨a, qs, hv, hr⟩ := walkSteps_getElem? h (n := n) (by omega)
  obtain ⟨hb, hd⟩ := visitStreams_sums (by omega) (by omega) hv
  refine ⟨_, hr, ?_, ?_⟩
  · rw [stepResult, hb, add_comm (1 : Int)]
    simp
  · rw [stepResult, hd, add_comm (1 : Int)]
    simp

end IasClient
