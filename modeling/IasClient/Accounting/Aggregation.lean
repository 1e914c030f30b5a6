import IasClient.Accounting.Bins
import IasClient.Model.Timer
import Mathlib.Algebra.Order.BigOperators.Group.List

namespace IasClient

open Framework

/-- The values of the bins of a stream in increasing key order: all of them for a download, those
from the origin on for an upload, and none while the origin is not set. -/
def binValues (v : WalkInput) (s : Stream) : List Nat :=
  match v.testCase with
  | .upload =>
    if v.timerIndexUploadFirst = 0 then []
    else (s.data.results.entries.filter fun e => v.timerIndexUploadFirst ≤ e.1).map (·.2.toNat)
  | _ => s.data.results.entries.map (·.2.toNat)

namespace Reference

/-- The bytes of the bins up to the given step. -/
def bytes (v : WalkInput) (step : Nat) (s : Stream) : Nat :=
  (((binValues v s).take step).map (· / 8)).sum

/-- The bytes of the bin of the step, none if there is no such bin. -/
def bytesDistinct (v : WalkInput) (step : Nat) (s : Stream) : Nat :=
  ((binValues v s)[step - 1]?).getD 0 / 8

def bytesSlowStart (s : Stream) : Nat := s.data.datasizeSlowStart.toNat / 8

def bytesTotal (v : WalkInput) (step : Nat) (s : Stream) : Nat := bytesSlowStart s + bytes v step s

theorem bytes_succ (v : WalkInput) (step : Nat) (s : Stream) :
    bytes v (step + 1) s = bytes v step s + bytesDistinct v (step + 1) s := by
  rw [bytes, bytes, bytesDistinct, Nat.add_sub_cancel, List.take_add_one, List.map_append,
    List.sum_append]
  cases (binValues v s)[step]? <;> simp

theorem bytes_mono (v : WalkInput) (s : Stream) {m n : Nat} (h : m ≤ n) :
    bytes v m s ≤ bytes v n s := by
  induction n, h using Nat.le_induction with
  | base => exact le_rfl
  | succ n _ ih =>
    rw [bytes_succ]
    omega

end Reference

theorem binValues_eq (v : WalkInput) (s : Stream) :
    binValues v s = (counted v s).map (·.2.toNat) := by
  unfold binValues counted skipped
  cases hv : v.testCase with
  | upload =>
    simp only [decide_true, Bool.and_true]
    by_cases hz : v.timerIndexUploadFirst = 0
    · simp [hz]
    · rw [if_neg hz]
      congr 1
      apply List.filter_congr
      intro e _
      simp only [hz, or_false, ← decide_not, not_lt]
  | _ => simp

/-- The unsigned sum of the bins is the exact one while that is below `2 ^ 61`. -/
theorem toNat_bytesUpTo {v : WalkInput} {s : Stream} {step : Nat}
    (h : Reference.bytes v step s < 2 ^ 61) :
    (bytesUpTo v step s).toNat = Reference.bytes v step s := by
  have hmap : (((counted v s).take step).map fun e => e.2 / 8).map UInt64.toNat =
      ((binValues v s).take step).map (· / 8) := by
    rw [binValues_eq, ← List.map_take, List.map_map, List.map_map]
    apply List.map_congr_left
    intro e _
    exact UInt64.toNat_div _ _
  have hlt : ((((counted v s).take step).map fun e => e.2 / 8).map UInt64.toNat).sum < 2 ^ 64 := by
    rw [hmap]
    exact h.trans (by decide)
  rw [bytesUpTo, Int.toNat_natCast, toNat_sum hlt, hmap, Reference.bytes]

theorem toNat_distinctBytes (v : WalkInput) (s : Stream) (step : Nat) :
    (distinctBytes v (step + 1 : Nat) s).toNat = Reference.bytesDistinct v (step + 1) s := by
  have hidx : (((step + 1 : Nat) : Int) - 1).toNat = step := by omega
  rw [distinctBytes, Reference.bytesDistinct, hidx, Nat.add_sub_cancel, binValues_eq,
    List.getElem?_map]
  cases (counted v s)[step]? with
  | none => rfl
  | some e => exact UInt64.toNat_div _ _

/-- The entry of a stream in the array of all streams, in step `step` of `steps`. -/
def perStream (v : WalkInput) (steps : Int) (now : UInt64) (step : Int) (streamId : Nat)
    (s : Stream) : PerStream :=
  let lag := UInt64.ofInt ((steps - step) * 500000000)
  { streamId := streamId
    bytes := bytesUpTo v step s
    bytesDistinct := distinctBytes v step s
    bytesSlowStart := s.data.datasizeSlowStart / 8
    bytesTotal := s.data.datasizeSlowStart / 8 + bytesUpTo v step s
    relativeTimeNs := UInt64.ofInt (step * 500000000)
    relativeTimeNsTotal := (now - s.measurementTimeStart) * 1000 - lag
    relativeTimeNsMeasurementStart := now * 1000 - UInt64.ofInt v.timestampMeasurementStart - lag }

/-- The fields of an entry that the walk reads back as `long long`. -/
structure PerStream.Fits (p : PerStream) : Prop where
  bytes : p.bytes.toNat < 2 ^ 63
  bytesDistinct : p.bytesDistinct.toNat < 2 ^ 63
  bytesSlowStart : p.bytesSlowStart.toNat < 2 ^ 63
  bytesTotal : p.bytesTotal.toNat < 2 ^ 63
  relativeTimeNsTotal : p.relativeTimeNsTotal.toNat < 2 ^ 63
  relativeTimeNsMeasurementStart : p.relativeTimeNsMeasurementStart.toNat < 2 ^ 63

/-- The sums of a step grow by the entry of the stream. -/
structure StepSums.Grown (a a' : StepSums) (p : PerStream) : Prop where
  bytes : a'.bytes = a.bytes + p.bytes
  bytesDistinct : a'.bytesDistinct = a.bytesDistinct + p.bytesDistinct
  bytesSlowStart : a'.bytesSlowStart = a.bytesSlowStart + p.bytesSlowStart
  bytesTotal : a'.bytesTotal = a.bytesTotal + p.bytesTotal
  currentTimestamp : a'.currentTimestamp = a.currentTimestamp

theorem visitStream_eq {v : WalkInput} {step steps : Int} {j : Nat} {s : Stream} {a : StepSums}
    (h1 : 1 ≤ step) (hc : step ≤ steps)
    (hfits : (perStream v steps a.currentTimestamp step j s).Fits) :
    ∃ a', visitStream v step steps j s a =
        some (a', perStream v steps a.currentTimestamp step j s) ∧
      a.Grown a' (perStream v steps a.currentTimestamp step j s) := by
  obtain ⟨f1, f2, f3, f4, f5, f6⟩ := hfits
  simp only [perStream] at f1 f2 f3 f4 f5 f6
  simp only [visitStream, walkBins_bytesUpTo h1 hc, walkBins_distinctBytes h1 hc, stoll, f1, f2, f3,
    f4, f5, f6, if_true, Option.bind_eq_bind, Option.bind_some, Option.pure_def]
  exact ⟨_, rfl, rfl, rfl, rfl, rfl, rfl⟩

/-- The entries of one step, in the order of the streams. -/
def row (v : WalkInput) (steps : Int) (now : UInt64) (step : Int) (ss : List Stream) (j : Nat) :
    List PerStream :=
  (ss.zipIdx j).map fun e => perStream v steps now step e.2 e.1

theorem visitStreams_eq {v : WalkInput} {step steps : Int} {ss : List Stream} {j : Nat}
    {a : StepSums} (h1 : 1 ≤ step) (hc : step ≤ steps)
    (hfits : ∀ p ∈ row v steps a.currentTimestamp step ss j, p.Fits) :
    ∃ a', visitStreams v step steps j ss a =
        some (a', row v steps a.currentTimestamp step ss j) ∧
      a'.bytes = a.bytes + (ss.map (bytesUpTo v step)).sum ∧
      a'.bytesDistinct = a.bytesDistinct + (ss.map (distinctBytes v step)).sum ∧
      a'.bytesSlowStart =
        a.bytesSlowStart + (ss.map fun s => s.data.datasizeSlowStart / 8).sum ∧
      a'.bytesTotal = a.bytesTotal +
        (ss.map fun s => s.data.datasizeSlowStart / 8 + bytesUpTo v step s).sum := by
  induction ss generalizing j a with
  | nil => exact ⟨a, rfl, by simp, by simp, by simp, by simp⟩
  | cons s ss ih =>
    have hrow : row v steps a.currentTimestamp step (s :: ss) j =
        perStream v steps a.currentTimestamp step j s ::
          row v steps a.currentTimestamp step ss (j + 1) := by
      rw [row, List.zipIdx_cons, List.map_cons, row]
    rw [hrow] at hfits ⊢
    obtain ⟨a₁, hvisit, hgrown⟩ := visitStream_eq h1 hc (hfits _ List.mem_cons_self)
    have hclock := hgrown.currentTimestamp
    obtain ⟨a₂, hrest, hb, hd, hs, ht⟩ := ih (j := j + 1) (a := a₁) (by
      rw [hclock]
      exact fun p hp => hfits p (List.mem_cons_of_mem _ hp))
    rw [hclock] at hrest
    refine ⟨a₂, ?_, ?_, ?_, ?_, ?_⟩
    · simp only [visitStreams, hvisit, hrest, Option.bind_eq_bind, Option.bind_some,
        Option.pure_def]
    · rw [hb, hgrown.bytes, List.map_cons, List.sum_cons, add_assoc]
      rfl
    · rw [hd, hgrown.bytesDistinct, List.map_cons, List.sum_cons, add_assoc]
      rfl
    · rw [hs, hgrown.bytesSlowStart, List.map_cons, List.sum_cons, add_assoc]
      rfl
    · rw [ht, hgrown.bytesTotal, List.map_cons, List.sum_cons, add_assoc]
      rfl

/-- What an element of the array of the steps has from the streams. -/
structure Aggregate.Sums (v : WalkInput) (ss : List Stream) (step : Int) (r : Aggregate) : Prop where
  bytes : r.bytes = (ss.map (bytesUpTo v step)).sum * 8 / 8
  bytesDistinct : r.bytesDistinct = (ss.map (distinctBytes v step)).sum
  bytesSlowStart : r.bytesSlowStart = (ss.map fun s => s.data.datasizeSlowStart / 8).sum * 8 / 8
  bytesTotal : r.bytesTotal =
    (ss.map fun s => s.data.datasizeSlowStart / 8 + bytesUpTo v step s).sum * 8 / 8

theorem walkSteps_eq (v : WalkInput) (steps : Int) (now : Int → UInt64) (ss : List Stream)
    (fuel : Nat) {step : Int} (h1 : 1 ≤ step) (hc : step + fuel ≤ steps + 1)
    (hfits : ∀ n < fuel, ∀ p ∈ row v steps (now (step + n)) (step + n) ss 0, p.Fits) :
    ∃ rs, walkSteps v steps now ss fuel step =
        some (rs, (List.range fuel).flatMap fun n : Nat =>
          row v steps (now (step + n)) (step + n) ss 0) ∧
      rs.length = fuel ∧
      ∀ n < fuel, ∃ r, rs[n]? = some r ∧ r.Sums v ss (step + n) := by
  induction fuel generalizing step with
  | zero => exact ⟨[], rfl, rfl, fun n hn => absurd hn (Nat.not_lt_zero n)⟩
  | succ fuel ih =>
    have hshift (n : Nat) : step + 1 + (n : Int) = step + ((n + 1 : Nat) : Int) := by omega
    have hzero : step + ((0 : Nat) : Int) = step := by omega
    have hfirst := hfits 0 (by omega)
    rw [hzero] at hfirst
    obtain ⟨a, hvisit, hb, hd, hs, ht⟩ := visitStreams_eq
      (a := { currentTimestamp := now step }) h1 (by omega) hfirst
    obtain ⟨rs, hwalk, hlen, hrs⟩ := @ih (step + 1) (by omega) (by omega) (by
      intro n hn
      rw [hshift]
      exact hfits (n + 1) (by omega))
    refine ⟨stepResult v a :: rs, ?_, by rw [List.length_cons, hlen], ?_⟩
    · simp only [walkSteps, hvisit, hwalk, Option.bind_eq_bind, Option.bind_some,
        Option.pure_def, hshift]
      rw [List.range_succ_eq_map, List.flatMap_cons, List.flatMap_map, hzero]
    · intro n hn
      cases n with
      | zero =>
        refine ⟨_, rfl, ?_⟩
        rw [hzero]
        refine ⟨?_, ?_, ?_, ?_⟩
        · rw [stepResult, hb, zero_add]
        · rw [stepResult, hd, zero_add]
        · rw [stepResult, hs, zero_add]
        · rw [stepResult, ht, zero_add]
      | succ n =>
        obtain ⟨r, hr, hsums⟩ := hrs n (by omega)
        rw [hshift] at hsums
        exact ⟨r, by rwa [List.getElem?_cons_succ], hsums⟩

/-- The elements of a list of rows of one length. -/
theorem getElem?_flatMap_rows {α β : Type} {l : List α} {f : α → List β} {len : Nat}
    (h : ∀ a ∈ l, (f a).length = len) {i j : Nat} (hi : i < l.length) (hj : j < len) :
    (l.flatMap f)[i * len + j]? = (f l[i])[j]? := by
  induction l generalizing i with
  | nil => exact absurd hi (Nat.not_lt_zero i)
  | cons a l ih =>
    have ha := h a List.mem_cons_self
    rw [List.flatMap_cons]
    cases i with
    | zero =>
      rw [Nat.zero_mul, Nat.zero_add, List.getElem?_append_left (by omega)]
      rfl
    | succ i =>
      have hidx : (i + 1) * len + j - (f a).length = i * len + j := by
        rw [ha, Nat.add_mul, Nat.one_mul]
        omega
      rw [List.getElem?_append_right (by rw [ha, Nat.add_mul, Nat.one_mul]; omega), hidx]
      exact ih (fun b hb => h b (List.mem_cons_of_mem a hb)) (Nat.lt_of_succ_lt_succ hi)

theorem length_flatMap_rows {α β : Type} {l : List α} {f : α → List β} {len : Nat}
    (h : ∀ a ∈ l, (f a).length = len) : (l.flatMap f).length = l.length * len := by
  induction l with
  | nil => simp
  | cons a l ih =>
    rw [List.flatMap_cons, List.length_append, h a List.mem_cons_self,
      ih fun b hb => h b (List.mem_cons_of_mem a hb), List.length_cons, Nat.add_mul, Nat.one_mul,
      Nat.add_comm]

/-- Sums of the streams' sizes below `2 ^ 61` are exact, as are their eightfolds. -/
theorem toNat_sum_map {ss : List Stream} {f : Stream → UInt64} {w : Stream → Nat}
    (hf : ∀ s ∈ ss, (f s).toNat = w s) (hsize : (ss.map w).sum < 2 ^ 61) :
    (ss.map f).sum.toNat = (ss.map w).sum ∧ ((ss.map f).sum * 8 / 8).toNat = (ss.map w).sum := by
  have hmap : (ss.map f).map UInt64.toNat = ss.map w := by
    rw [List.map_map]
    exact List.map_congr_left hf
  have hsum : (ss.map f).sum.toNat = (ss.map w).sum := by
    rw [toNat_sum (by rw [hmap]; omega), hmap]
  have h8 : (8 : UInt64).toNat = 8 := rfl
  refine ⟨hsum, ?_⟩
  rw [UInt64.toNat_div, UInt64.toNat_mul, hsum, h8]
  omega

theorem lt_of_stoll {x y : UInt64} (h : stoll x = some y) : x.toNat < 2 ^ 63 := by
  unfold stoll at h
  split at h
  · assumption
  · contradiction

/-- The relative times of one step, which do not depend on the place of the stream. -/
def Stream.ClockedAt (v : WalkInput) (steps : Int) (now : UInt64) (step : Int) (s : Stream) :
    Prop :=
  (perStream v steps now step 0 s).relativeTimeNsTotal.toNat < 2 ^ 63 ∧
    (perStream v steps now step 0 s).relativeTimeNsMeasurementStart.toNat < 2 ^ 63

theorem visitStream_clocked {v : WalkInput} {step steps : Int} {j : Nat} {s : Stream}
    {a a' : StepSums} {p : PerStream} (h : visitStream v step steps j s a = some (a', p)) :
    s.ClockedAt v steps a.currentTimestamp step ∧ a'.currentTimestamp = a.currentTimestamp := by
  simp only [visitStream, Option.bind_eq_bind, Option.bind_eq_some_iff, Option.some.injEq,
    Prod.mk.injEq, Option.pure_def] at h
  obtain ⟨_, -, _, -, _, -, _, -, _, htotal, _, hstart, rfl, -⟩ := h
  exact ⟨⟨lt_of_stoll htotal, lt_of_stoll hstart⟩, rfl⟩

/-- A visit that comes to its end makes the entry of the stream. -/
theorem visitStream_perStream {v : WalkInput} {step steps : Int} {j : Nat} {s : Stream}
    {a a' : StepSums} {p : PerStream} (h1 : 1 ≤ step) (hc : step ≤ steps)
    (h : visitStream v step steps j s a = some (a', p)) :
    p = perStream v steps a.currentTimestamp step j s := by
  simp only [visitStream, walkBins_bytesUpTo h1 hc, walkBins_distinctBytes h1 hc,
    Option.bind_eq_bind, Option.bind_eq_some_iff, Option.some.injEq, Prod.mk.injEq,
    Option.pure_def] at h
  obtain ⟨_, -, _, -, _, -, _, -, _, -, _, -, -, rfl⟩ := h
  rfl

/-- A visit that is cut short has met a size that is no `long long`, or a time. -/
theorem not_fits_of_visitStream {v : WalkInput} {step steps : Int} {j : Nat} {s : Stream}
    {a : StepSums} (h1 : 1 ≤ step) (hc : step ≤ steps) (h : visitStream v step steps j s a = none) :
    ¬ (perStream v steps a.currentTimestamp step j s).Fits := by
  intro hfits
  obtain ⟨a', hvisit, -⟩ := visitStream_eq h1 hc hfits
  rw [h] at hvisit
  contradiction

theorem visitStreams_clocked {v : WalkInput} {step steps : Int} {ss : List Stream} {j : Nat}
    {a : StepSums} {x : StepSums × List PerStream}
    (h : visitStreams v step steps j ss a = some x) :
    ∀ s ∈ ss, s.ClockedAt v steps a.currentTimestamp step := by
  induction ss generalizing j a x with
  | nil => exact fun s hs => absurd hs List.not_mem_nil
  | cons s ss ih =>
    simp only [visitStreams, Option.bind_eq_bind, Option.bind_eq_some_iff, Prod.exists] at h
    obtain ⟨a₁, p, hvisit, a₂, ps, hrest, -⟩ := h
    obtain ⟨hclocked, hnow⟩ := visitStream_clocked hvisit
    have hrest := ih hrest
    rw [hnow] at hrest
    intro r hr
    cases hr with
    | head => exact hclocked
    | tail _ hr => exact hrest r hr

theorem walkSteps_clocked {v : WalkInput} {steps step : Int} {now : Int → UInt64}
    {ss : List Stream} {fuel : Nat} {x : List Aggregate × List PerStream}
    (h : walkSteps v steps now ss fuel step = some x) :
    ∀ n < fuel, ∀ s ∈ ss, s.ClockedAt v steps (now (step + n)) (step + n) := by
  induction fuel generalizing step x with
  | zero => exact fun n hn => absurd hn (Nat.not_lt_zero n)
  | succ fuel ih =>
    simp only [walkSteps, Option.bind_eq_bind, Option.bind_eq_some_iff, Prod.exists] at h
    obtain ⟨a, ps, hvisit, rs, qs, hrest, -⟩ := h
    have hfirst := visitStreams_clocked hvisit
    intro n hn s hs
    cases n with
    | zero =>
      have hzero : step + ((0 : Nat) : Int) = step := by omega
      rw [hzero]
      exact hfirst s hs
    | succ n =>
      have hshift : step + ((n + 1 : Nat) : Int) = step + 1 + (n : Int) := by omega
      rw [hshift]
      exact ih hrest n (by omega) s hs

/-- The two arrays have the entries of the reference, in the order of the steps and, within a
step, of the streams. -/
structure Reference.Arrays (v : WalkInput) (ss : List Stream) (steps : Nat) (rs : List Aggregate)
    (ps : List PerStream) : Prop where
  length_aggregates : rs.length = steps
  length_streams : ps.length = steps * ss.length
  streams : ∀ n < steps, ∀ j (hj : j < ss.length), ∃ p, ps[n * ss.length + j]? = some p ∧
    p.streamId = j ∧ p.bytes.toNat = bytes v (n + 1) ss[j] ∧
    p.bytesDistinct.toNat = bytesDistinct v (n + 1) ss[j] ∧
    p.bytesSlowStart.toNat = bytesSlowStart ss[j] ∧
    p.bytesTotal.toNat = bytesTotal v (n + 1) ss[j]
  aggregates : ∀ n < steps, ∃ r, rs[n]? = some r ∧
    r.bytes.toNat = (ss.map (bytes v (n + 1))).sum ∧
    r.bytesDistinct.toNat = (ss.map (bytesDistinct v (n + 1))).sum ∧
    r.bytesSlowStart.toNat = (ss.map bytesSlowStart).sum ∧
    r.bytesTotal.toNat = (ss.map (bytesTotal v (n + 1))).sum

theorem Reference.sum_bytes_succ (v : WalkInput) (n : Nat) (ss : List Stream) :
    (ss.map (bytes v (n + 1))).sum =
      (ss.map (bytes v n)).sum + (ss.map (bytesDistinct v (n + 1))).sum := by
  rw [← List.sum_map_add]
  congr 1
  apply List.map_congr_left
  intro s _
  exact bytes_succ v n s

/-- The bytes that the array has for the steps before the one at index `n`. -/
def bytesBefore (rs : List Aggregate) : Nat → Nat
  | 0 => 0
  | n + 1 => (rs[n]?).elim 0 fun q => q.bytes.toNat

/-- Each step has the bytes of the one before and its own. -/
theorem Reference.Arrays.bytes_eq {v : WalkInput} {ss : List Stream} {steps : Nat}
    {rs : List Aggregate} {ps : List PerStream} (h : Arrays v ss steps rs ps) {n : Nat}
    {r : Aggregate} (hr : rs[n]? = some r) :
    r.bytes.toNat = bytesBefore rs n + r.bytesDistinct.toNat := by
  have hn : n < steps := by
    have hlen := (List.getElem?_eq_some_iff.mp hr).1
    rwa [h.length_aggregates] at hlen
  obtain ⟨r', hr', hb, hd, -⟩ := h.aggregates n hn
  obtain rfl := Option.some.inj (hr.symm.trans hr')
  rw [hb, hd, sum_bytes_succ]
  cases n with
  | zero =>
    have hnone : (ss.map (bytes v 0)).sum = 0 := by
      apply List.sum_eq_zero
      intro b hb
      obtain ⟨s, -, rfl⟩ := List.mem_map.mp hb
      rfl
    rw [hnone, bytesBefore]
  | succ n =>
    obtain ⟨q, hq, hqb, -⟩ := h.aggregates n (by omega)
    rw [bytesBefore, hq, Option.elim_some, hqb]

section Sizes

variable {v : WalkInput} {ss : List Stream} {steps : Nat}

/-- What the bound on the sum of the totals says of one stream in one step. -/
theorem Reference.bytesTotal_lt
    (hsize : (ss.map (bytesTotal v steps)).sum < 2 ^ 61) {s : Stream} (hs : s ∈ ss) {n : Nat}
    (hn : n ≤ steps) : bytesSlowStart s + bytes v n s < 2 ^ 61 := by
  have hle : bytesTotal v steps s ≤ (ss.map (bytesTotal v steps)).sum :=
    List.single_le_sum (by simp) _ (List.mem_map.mpr ⟨s, hs, rfl⟩)
  have hmono := bytes_mono v s hn
  rw [bytesTotal] at hle
  omega

theorem toNat_total (hsize : (ss.map (Reference.bytesTotal v steps)).sum < 2 ^ 61) {s : Stream}
    (hs : s ∈ ss) {n : Nat} (hn : n ≤ steps) :
    (bytesUpTo v n s).toNat = Reference.bytes v n s ∧
      (s.data.datasizeSlowStart / 8).toNat = Reference.bytesSlowStart s ∧
      (s.data.datasizeSlowStart / 8 + bytesUpTo v n s).toNat = Reference.bytesTotal v n s := by
  have hlt := Reference.bytesTotal_lt hsize hs hn
  have hb : (bytesUpTo v n s).toNat = Reference.bytes v n s := toNat_bytesUpTo (by omega)
  have hslow : (s.data.datasizeSlowStart / 8).toNat = Reference.bytesSlowStart s :=
    UInt64.toNat_div _ _
  refine ⟨hb, hslow, ?_⟩
  rw [UInt64.toNat_add, hslow, hb, Reference.bytesTotal]
  omega

theorem fits_of_clocked (hsize : (ss.map (Reference.bytesTotal v steps)).sum < 2 ^ 61)
    {now : UInt64} {n : Nat} (hn : n + 1 ≤ steps)
    (hclock : ∀ s ∈ ss, s.ClockedAt v steps now (n + 1 : Nat)) :
    ∀ p ∈ row v steps now (n + 1 : Nat) ss 0, p.Fits := by
  intro p hp
  obtain ⟨e, he, rfl⟩ := List.mem_map.mp hp
  have hmem : e.1 ∈ ss := (List.mem_zipIdx he).2.2 ▸ List.getElem_mem _
  have hlt := Reference.bytesTotal_lt hsize hmem hn
  have hsucc := Reference.bytes_succ v n e.1
  have hd := toNat_distinctBytes v e.1 n
  obtain ⟨hb, hs, ht⟩ := toNat_total hsize hmem hn
  obtain ⟨htotal, hstart⟩ := hclock e.1 hmem
  rw [Reference.bytesTotal] at ht
  exact ⟨by simp only [perStream]; omega, by simp only [perStream]; omega,
    by simp only [perStream]; omega, by simp only [perStream]; omega, htotal, hstart⟩

theorem Reference.sum_le (hsize : (ss.map (bytesTotal v steps)).sum < 2 ^ 61)
    {f : Stream → Nat} (hf : ∀ s ∈ ss, f s ≤ bytesTotal v steps s) : (ss.map f).sum < 2 ^ 61 :=
  Nat.lt_of_le_of_lt (List.sum_le_sum hf) hsize

end Sizes

/-- The walk over `steps` steps that computes all its relative times. -/
theorem walkSteps_arrays {v : WalkInput} {now : Int → UInt64} {ss : List Stream} {steps : Nat}
    (hsize : (ss.map (Reference.bytesTotal v steps)).sum < 2 ^ 61)
    (hclock : ∀ n < steps, ∀ s ∈ ss,
      s.ClockedAt v steps (now (n + 1 : Nat)) (n + 1 : Nat)) :
    ∃ rs ps, walkSteps v steps now ss steps 1 = some (rs, ps) ∧
      Reference.Arrays v ss steps rs ps := by
  have hshift (n : Nat) : 1 + (n : Int) = ((n + 1 : Nat) : Int) := by omega
  have hlen (n : Nat) :
      (row v steps (now (1 + (n : Int))) (1 + (n : Int)) ss 0).length = ss.length := by
    rw [row, List.length_map, List.length_zipIdx]
  obtain ⟨rs, hwalk, hrs, hsums⟩ :=
    walkSteps_eq v steps now ss steps (le_refl 1) (by omega) (by
      intro n hn
      rw [hshift]
      exact fits_of_clocked hsize hn (hclock n hn))
  refine ⟨rs, _, hwalk, hrs, ?_, ?_, ?_⟩
  · rw [length_flatMap_rows fun n _ => hlen n, List.length_range]
  · intro n hn j hj
    have hmem : ss[j] ∈ ss := List.getElem_mem hj
    obtain ⟨hb, hs, ht⟩ := toNat_total hsize hmem hn
    refine ⟨perStream v steps (now (n + 1 : Nat)) (n + 1 : Nat) j ss[j], ?_, rfl, hb,
      toNat_distinctBytes v _ n, hs, ht⟩
    rw [getElem?_flatMap_rows (fun n _ => hlen n) (by rwa [List.length_range]) hj,
      List.getElem_range, hshift, row, List.getElem?_map, List.getElem?_zipIdx,
      List.getElem?_eq_getElem hj]
    simp
  · intro n hn
    obtain ⟨r, hr, hsum⟩ := hsums n hn
    rw [hshift] at hsum
    have htotal (s : Stream) (hs : s ∈ ss) := toNat_total hsize hs hn
    have hle (s : Stream) (hs : s ∈ ss) :
        Reference.bytesTotal v (n + 1) s ≤ Reference.bytesTotal v steps s := by
      have := Reference.bytes_mono v s (Nat.succ_le_of_lt hn)
      exact Nat.add_le_add_left this _
    have hb := toNat_sum_map (fun s hs => (htotal s hs).1) (Reference.sum_le hsize fun s hs =>
      le_trans (Nat.le_add_left _ _) (hle s hs))
    have hd := toNat_sum_map (fun s _ => toNat_distinctBytes v s n)
      (Reference.sum_le hsize fun s hs => by
        have hsucc := Reference.bytes_succ v n s
        have := hle s hs
        rw [Reference.bytesTotal] at this
        omega)
    have hslow := toNat_sum_map (fun s hs => (htotal s hs).2.1) (Reference.sum_le hsize
      fun s hs => le_trans (Nat.le_add_right _ _) (hle s hs))
    have ht := toNat_sum_map (fun s hs => (htotal s hs).2.2) (Reference.sum_le hsize hle)
    refine ⟨r, hr, ?_, ?_, ?_, ?_⟩
    · rw [hsum.bytes]
      exact hb.2
    · rw [hsum.bytesDistinct]
      exact hd.1
    · rw [hsum.bytesSlowStart]
      exact hslow.2
    · rw [hsum.bytesTotal]
      exact ht.2

/-- With sums below `2 ^ 61`, whatever the clock reads in each step: the walk returns exactly when
all relative times are `long long`s, and the arrays that it returns are those of the reference, in
which each step has the bytes of the one before and its own. -/
theorem aggregation_reference (v : WalkInput) (now : Int → UInt64) (ss : List Stream)
    (hsize : (ss.map (Reference.bytesTotal v (maxSteps v).toNat)).sum < 2 ^ 61) :
    ((calculateMeasurementResultsDownloadUpload v now ss).isSome = true ↔
      ∀ n < (maxSteps v).toNat, ∀ s ∈ ss,
        s.ClockedAt v (maxSteps v) (now (n + 1 : Nat)) (n + 1 : Nat)) ∧
    ∀ rs ps, calculateMeasurementResultsDownloadUpload v now ss = some (rs, ps) →
      Reference.Arrays v ss (maxSteps v).toNat rs ps ∧
      ∀ n r, rs[n]? = some r →
        r.bytes.toNat = bytesBefore rs n + r.bytesDistinct.toNat := by
  have hreturns : ∀ x, calculateMeasurementResultsDownloadUpload v now ss = some x →
      ∀ n < (maxSteps v).toNat, ∀ s ∈ ss,
        s.ClockedAt v (maxSteps v) (now (n + 1 : Nat)) (n + 1 : Nat) := by
    intro x hx n hn s hs
    have hshift : 1 + (n : Int) = ((n + 1 : Nat) : Int) := by omega
    have h := walkSteps_clocked hx n hn s hs
    rwa [hshift] at h
  have harrays : (∀ n < (maxSteps v).toNat, ∀ s ∈ ss,
      s.ClockedAt v (maxSteps v) (now (n + 1 : Nat)) (n + 1 : Nat)) →
      ∃ rs ps, calculateMeasurementResultsDownloadUpload v now ss = some (rs, ps) ∧
        Reference.Arrays v ss (maxSteps v).toNat rs ps := by
    intro hclock
    rw [calculateMeasurementResultsDownloadUpload]
    by_cases hpos : 0 ≤ maxSteps v
    · obtain ⟨steps, hsteps⟩ := Int.eq_ofNat_of_zero_le hpos
      rw [hsteps, Int.toNat_natCast] at hclock hsize ⊢
      exact walkSteps_arrays hsize hclock
    · have hzero : (maxSteps v).toNat = 0 := by omega
      rw [hzero]
      refine ⟨[], [], rfl, rfl, by simp, ?_, ?_⟩
      · exact fun n hn => absurd hn (Nat.not_lt_zero n)
      · exact fun n hn => absurd hn (Nat.not_lt_zero n)
  constructor
  · constructor
    · intro hsome
      obtain ⟨x, hx⟩ := Option.isSome_iff_exists.mp hsome
      exact hreturns x hx
    · intro hclock
      obtain ⟨rs, ps, h, -⟩ := harrays hclock
      rw [h]
      rfl
  · intro rs ps h
    obtain ⟨rs', ps', h', hrefs⟩ := harrays (hreturns _ h)
    obtain ⟨rfl, rfl⟩ := Prod.mk.inj (Option.some.inj (h.symm.trans h'))
    exact ⟨hrefs, fun n r hr => hrefs.bytes_eq hr⟩

/-- Two upload streams, the first with a bin before the origin 100005 of `oneSecond`. -/
def unevenStreams : List Stream :=
  [{ mResponse := 1
     data :=
      { results := ((OrdMap.empty.insert 100000 8).insert 100005 80).insert 100010 164
        datasizeSlowStart := 16 }
     measurementTimeStart := 0 },
    { mResponse := 1, data := { results := OrdMap.empty.insert 100005 40 },
      measurementTimeStart := 0 }]

theorem aggregation_reference_unevenStreams : ∃ rs ps,
    calculateMeasurementResultsDownloadUpload oneSecond movingClock unevenStreams = some (rs, ps) ∧
      Reference.Arrays oneSecond unevenStreams 2 rs ps ∧
      (unevenStreams.map (Reference.bytes oneSecond 2)).sum = 35 :=
  ⟨_, _, rfl, ((aggregation_reference oneSecond movingClock unevenStreams (by decide)).2 _ _ rfl).1,
    by decide⟩

section Callback

variable {env : Env} {sender : TestCase} {objects : List Worker} {c : Call}

/-- A step of the timer thread, or of the clock, while no other thread moves. -/
def CTimer.alone (env : Env) (sender : TestCase) (objects : List Worker) (clock : Option UInt64)
    (s : Shared × Timer) : Option (Shared × Timer) :=
  match clock with
  | none => CTimer.run env sender objects s.1 s.2
  | some now => some ({ s.1 with g := { s.1.g with now := now } }, s.2)

/-- Runs of the timer thread alone. -/
abbrev CTimer.RunAlone (env : Env) (sender : TestCase) (objects : List Worker) :=
  Run (CTimer.alone env sender objects) fun _ _ => True

theorem CTimer.alone_step {s t : Shared × Timer}
    (h : CTimer.run env sender objects s.1 s.2 = some t) : CTimer.RunAlone env sender objects s t :=
  .tail (a := none) .refl trivial h

theorem CTimer.alone_clock (sh : Shared) (t : Timer) (now : UInt64) :
    CTimer.RunAlone env sender objects (sh, t) ({ sh with g := { sh.g with now := now } }, t) :=
  .tail (a := some now) .refl trivial rfl

/-- The streams that the callback walks over. -/
def streams (g : Globals) (objects : List Worker) : List Stream :=
  objects.map (Worker.stream g.nTestCase)

/-- What the walk does not change in the shared state. -/
structure Shared.Steady (sh sh' : Shared) : Prop where
  walkInput : sh'.g.walkInput = sh.g.walkInput
  cb : sh'.cb = sh.cb

theorem Shared.Steady.nTestCase {sh sh' : Shared} (h : sh.Steady sh') :
    sh'.g.nTestCase = sh.g.nTestCase :=
  congrArg WalkInput.testCase h.walkInput

theorem run_visits (env : Env) (sender : TestCase) (objects rest : List Worker) (sh : Shared)
    {t : Timer} (hp : t.pc = .callback c .visit) (hrest : objects.drop t.walk.streamId = rest)
    {x : StepSums × List PerStream}
    (h : visitStreams sh.g.walkInput t.walk.currentStep t.walk.maxSteps t.walk.streamId
      (streams sh.g rest) t.walk.sums = some x) :
    CTimer.RunAlone env sender objects (sh, t)
      (sh, { t with walk := { t.walk with
        streamId := t.walk.streamId + rest.length
        sums := x.1
        perStream := t.walk.perStream ++ x.2 } }) := by
  induction rest generalizing t x with
  | nil =>
    simp only [streams, List.map_nil, visitStreams, Option.some.injEq] at h
    subst h
    simp only [List.length_nil, Nat.add_zero, List.append_nil]
    exact .refl
  | cons w rest ih =>
    simp only [streams, List.map_cons, visitStreams, Option.bind_eq_bind,
      Option.bind_eq_some_iff, Prod.exists, Option.pure_def, Option.some.injEq] at h
    obtain ⟨a₁, p, hvisit, a₂, ps, hvisits, rfl⟩ := h
    have hw : objects[t.walk.streamId]? = some w := by
      rw [← List.head?_drop, hrest]
      rfl
    have hnext : objects.drop (t.walk.streamId + 1) = rest := by
      rw [← List.tail_drop, hrest]
      rfl
    have hstep : CTimer.RunAlone env sender objects (sh, t)
        (sh, { t with walk := { t.walk with
          streamId := t.walk.streamId + 1
          sums := a₁
          perStream := t.walk.perStream ++ [p] } }) :=
      CTimer.alone_step (by simp only [CTimer.run, hp, CCallback.callback, hw, hvisit])
    have hrun := ih (t := { t with walk := { t.walk with
      streamId := t.walk.streamId + 1
      sums := a₁
      perStream := t.walk.perStream ++ [p] } }) hp hnext hvisits
    refine hstep.trans ?_
    simp only [List.append_assoc, List.singleton_append] at hrun
    rw [List.length_cons, Nat.add_comm rest.length, ← Nat.add_assoc]
    exact hrun

/-- The end of a step, through the drop of the streams if none of them is live. -/
theorem run_stepEnd (env : Env) (sender : TestCase) (objects : List Worker) (sh : Shared)
    {t : Timer} (hp : t.pc = .callback c .visit) (hlast : objects.length ≤ t.walk.streamId) :
    ∃ sh' drops, sh.Steady sh' ∧ CTimer.RunAlone env sender objects (sh, t)
      (sh', { t with
        walk := { t.walk with
          currentStep := t.walk.currentStep + 1
          results := t.walk.results ++ [stepResult sh.g.walkInput t.walk.sums] }
        drops := drops
        pc := .callback c .stepHead }) := by
  have hnone : objects[t.walk.streamId]? = none := List.getElem?_eq_none hlast
  by_cases hdrop : t.walk.sums.streams = 0
  · refine ⟨{ sh with g := { sh.g with hasError := true, streamsDropped := true } },
      t.drops ++ [c], ⟨rfl, rfl⟩, ?_⟩
    have h1 : CTimer.RunAlone env sender objects (sh, t)
        (sh, { t with drops := t.drops ++ [c], pc := .callback c .dropError }) :=
      CTimer.alone_step (by
        simp only [CTimer.run, hp, CCallback.callback, hnone, hdrop, if_true])
    have h3 := h1.trans ((CTimer.alone_step rfl).trans (CTimer.alone_step rfl))
    exact h3.trans (CTimer.alone_step rfl)
  · refine ⟨sh, t.drops, ⟨rfl, rfl⟩, ?_⟩
    have h1 : CTimer.RunAlone env sender objects (sh, t)
        (sh, { t with pc := .callback c .stepEnd }) :=
      CTimer.alone_step (by
        simp only [CTimer.run, hp, CCallback.callback, hnone, hdrop, if_false, Timer.goto])
    exact h1.trans (CTimer.alone_step rfl)

theorem run_walkSteps (env : Env) (sender : TestCase) (objects : List Worker) (fuel : Nat)
    (now : Int → UInt64) (sh : Shared) {t : Timer} (hp : t.pc = .callback c .stepHead)
    (hfuel : t.walk.currentStep + fuel = t.walk.maxSteps + 1)
    {x : List Aggregate × List PerStream}
    (h : walkSteps sh.g.walkInput t.walk.maxSteps now (streams sh.g objects) fuel
      t.walk.currentStep = some x) :
    ∃ sh' t', sh.Steady sh' ∧ CTimer.RunAlone env sender objects (sh, t) (sh', t') ∧
      t'.pc = .callback c .publish ∧ t'.walk.results = t.walk.results ++ x.1 ∧
      t'.walk.perStream = t.walk.perStream ++ x.2 := by
  induction fuel generalizing sh t x with
  | zero =>
    simp only [walkSteps, Option.some.injEq] at h
    subst h
    have hend : ¬ t.walk.currentStep ≤ t.walk.maxSteps := by omega
    refine ⟨sh, { t with pc := .callback c .publish }, ⟨rfl, rfl⟩, ?_, rfl,
      (List.append_nil _).symm, (List.append_nil _).symm⟩
    exact CTimer.alone_step (by
      simp only [CTimer.run, hp, CCallback.callback, hend, if_false, Timer.goto])
  | succ fuel ih =>
    simp only [walkSteps, Option.bind_eq_bind, Option.bind_eq_some_iff, Prod.exists,
      Option.pure_def, Option.some.injEq] at h
    obtain ⟨a, ps, hvisits, rs, qs, hwalk, rfl⟩ := h
    have hnext : t.walk.currentStep ≤ t.walk.maxSteps := by omega
    let begun : Shared := { sh with g := { sh.g with now := now t.walk.currentStep } }
    have h0 : CTimer.RunAlone env sender objects (sh, t) (begun, t) :=
      CTimer.alone_clock sh t (now t.walk.currentStep)
    have h1 : CTimer.RunAlone env sender objects (begun, t) (begun, { t with
        walk := { t.walk with
          streamId := 0
          sums := { currentTimestamp := now t.walk.currentStep } }
        pc := .callback c .visit }) :=
      CTimer.alone_step (by simp only [CTimer.run, hp, CCallback.callback, hnext, if_true, begun])
    have h2 := run_visits env sender objects objects begun
      (t := { t with
        walk := { t.walk with
          streamId := 0
          sums := { currentTimestamp := now t.walk.currentStep } }
        pc := .callback c .visit }) rfl rfl hvisits
    obtain ⟨sh', drops, hsteady, h3⟩ := run_stepEnd env sender objects begun (c := c)
      (t := { t with
        walk := { t.walk with
          streamId := 0 + objects.length
          sums := a
          perStream := t.walk.perStream ++ ps }
        pc := .callback c .visit }) rfl (by simp)
    have hinput : sh'.g.walkInput = sh.g.walkInput := hsteady.walkInput
    have hstreams : streams sh'.g objects = streams sh.g objects := by
      rw [streams, streams, hsteady.nTestCase]
    obtain ⟨sh'', t', hsteady', h4, hpc, hrs, hps⟩ := ih sh'
      (t := { t with
        walk := { t.walk with
          streamId := 0 + objects.length
          sums := a
          perStream := t.walk.perStream ++ ps
          currentStep := t.walk.currentStep + 1
          results := t.walk.results ++ [stepResult sh.g.walkInput a] }
        drops := drops
        pc := .callback c .stepHead }) rfl (by simp only; omega)
      (by rw [hinput, hstreams]; exact hwalk)
    refine ⟨sh'', t', ⟨hsteady'.walkInput.trans hinput, hsteady'.cb.trans hsteady.cb⟩,
      (((h0.trans h1).trans h2).trans h3).trans h4, hpc, ?_, ?_⟩
    · rw [hrs, List.append_assoc]
      rfl
    · rw [hps, List.append_assoc]

/-- While no other thread moves, the callback stores the arrays of
`calculateMeasurementResultsDownloadUpload` for the readings of the clock. -/
theorem callback_stores {sh : Shared} {t : Timer} (hp : t.pc = .callback c .steps)
    {rs : List Aggregate} {ps : List PerStream} (hrs : rs ≠ []) {now : Int → UInt64}
    (h : calculateMeasurementResultsDownloadUpload sh.g.walkInput now (streams sh.g objects) =
      some (rs, ps)) :
    ∃ sh' t' walk, CTimer.RunAlone env sender objects (sh, t) (sh', t') ∧
      t'.pc = .callback c c.stored ∧ walk.results = rs ∧ walk.perStream = ps ∧
      sh'.cb = publishResults sh.g.nTestCase walk sh.cb := by
  have hpos : 0 ≤ maxSteps sh.g.walkInput := by
    by_contra hneg
    have hzero : (maxSteps sh.g.walkInput).toNat = 0 := by omega
    rw [calculateMeasurementResultsDownloadUpload, hzero] at h
    exact hrs (Prod.mk.inj (Option.some.inj h)).1.symm
  have h1 : CTimer.RunAlone env sender objects (sh, t) (sh, { t with
      walk := { maxSteps := maxSteps sh.g.walkInput }
      pc := .callback c .stepHead }) :=
    CTimer.alone_step (by simp only [CTimer.run, hp, CCallback.callback])
  obtain ⟨sh', t', hsteady, h2, hpc, hres, hper⟩ := run_walkSteps env sender objects
    (maxSteps sh.g.walkInput).toNat now sh (c := c)
    (t := { t with
      walk := { maxSteps := maxSteps sh.g.walkInput }
      pc := .callback c .stepHead }) rfl (by simp only; omega) h
  rw [List.nil_append] at hres hper
  refine ⟨{ sh' with cb := publishResults sh'.g.nTestCase t'.walk sh'.cb },
    { t' with pc := .callback c c.stored }, t'.walk, (h1.trans h2).trans ?_, rfl, hres, hper, ?_⟩
  · exact CTimer.alone_step (by
      simp only [CTimer.run, hpc, CCallback.callback, hres, hrs, if_false, Timer.goto])
  · simp only [hsteady.nTestCase, hsteady.cb]

end Callback

end IasClient
