import IasClient.Accounting.Origin
import IasClient.Accounting.Walk
import IasClient.Framework.Grid
import Mathlib.Algebra.Order.BigOperators.Group.List

namespace IasClient

open Framework

/-- The bins of a stream: the stamps of its entries, and the grid from the origin `f` on once an
entry has carried that stamp since its choice. -/
def UploadStream.Bin (f : Int) (d : UInt64) (x : UploadStream) (k : Int) : Prop :=
  (∃ r ∈ x.entries, r.key = k) ∨ x.totals f ≠ [] ∧ k ∈ Upload.gridKeys f d

/-- What the bins of a stream hold. -/
structure Stored (d : UInt64) (f : Int) (x : UploadStream) : Prop where
  bin : ∀ k, (x.upload.mUpload.results.find? k).isSome = true ↔ x.Bin f d k
  value : ∀ k, k ≠ f ∨ x.totals f = [] → x.upload.mUpload.results.get k =
    sumBits (x.entries.filter fun r => decide (r.key = k))
  atOrigin : ∀ h : x.totals f ≠ [], x.upload.mUpload.results.get f + (x.totals f).getLast h =
    x.below f + sumBits (x.entries.filter fun r => decide (r.key = f))

variable {f : Int} {d : UInt64} {x y : UploadStream} {r : Report}

theorem stored_start (d : UInt64) (f : Int) : Stored d f {} := by
  constructor <;>
    simp [UploadStream.Bin, UploadStream.entries, UploadStream.totals, totalsAt, sumBits,
      OrdMap.get_empty]

theorem Stored.choose (h : Stored d 0 x) (hlate : x.late = []) (f : Int) : Stored d f x := by
  have htot := UploadStream.totals_of_late_nil hlate
  refine ⟨fun k => ?_, fun k _ => h.value k (.inr (htot 0)), fun hne => absurd (htot f) hne⟩
  rw [h.bin k]
  simp [UploadStream.Bin, htot]

theorem sumBits_filter_append (p : Report → Bool) (l : List Report) (r : Report) :
    sumBits ((l ++ [r]).filter p) = sumBits (l.filter p) + if p r then r.bits else 0 := by
  rw [List.filter_append, sumBits_append]
  cases hp : p r <;> simp [hp, sumBits]

/-- Before the first entry behind the origin, the bits are those below it and those at it. -/
theorem sumBits_below_add (h : ∀ q ∈ x.entries, q.key ≤ f) : sumBits x.entries =
    x.below f + sumBits (x.entries.filter fun r => decide (r.key = f)) := by
  rw [← sumBits_filter_not (fun r => decide (r.key < f)), UploadStream.below]
  congr 2
  apply List.filter_congr
  intro q hq
  have := h q hq
  rw [← decide_not, decide_eq_decide]
  omega

theorem Stored.effect (h : Stored d f x) (hr : ∀ q ∈ x.entries, q.key ≤ r.key)
    (he : x.Effect f d r y) : Stored d f y := by
  cases he with
  | away hne hres _ _ hentries htotals =>
    refine ⟨fun k => ?_, fun k hk => ?_, fun hne' => ?_⟩
    · rw [hres, OrdMap.add, OrdMap.isSome_find?_insert, h.bin]
      simp only [UploadStream.Bin, hentries, htotals, List.mem_append, List.mem_singleton, or_and_right,
        exists_or, exists_eq_left]
      exact or_left_comm.trans or_assoc.symm
    · rw [htotals] at hk
      rw [hres, OrdMap.get_add, h.value k hk, hentries, sumBits_filter_append]
      simp [eq_comm]
    · have hne' : x.totals f ≠ [] := htotals ▸ hne'
      have hf : f < r.key := by
        obtain ⟨q, hq, hqf⟩ := UploadStream.exists_of_totals_ne_nil hne'
        have := hr q hq
        omega
      have hbelow : y.below f = x.below f := by
        rw [UploadStream.below, hentries, sumBits_filter_append]
        simp [UploadStream.below, Int.not_lt.mpr (Int.le_of_lt hf)]
      rw [hbelow, hres, OrdMap.get_add, hentries, sumBits_filter_append]
      simpa [htotals, hne, Ne.symm hne] using h.atOrigin hne'
  | origin hpos hf hres _ _ hentries htotals =>
    refine ⟨fun k => ?_, fun k hk => ?_, fun hne' => ?_⟩
    · rw [hres, OrdMap.add, OrdMap.isSome_find?_insert, OrdMap.find?_foldl_insert]
      have hself := Upload.mem_gridKeys_self f d
      by_cases hk : k ∈ Upload.gridKeys f d
      · simp [UploadStream.Bin, htotals, hk]
      · have hkf : k ≠ f := by
          rintro rfl
          exact hk hself
        have hrk : r.key ≠ k := by omega
        rw [if_neg hk, h.bin]
        simp [UploadStream.Bin, hentries, hk, hrk, Ne.symm hkf, or_and_right, exists_or]
    · have hkf : k ≠ f := hk.resolve_right (by simp [htotals])
      have hrk : ¬ r.key = k := by omega
      rw [hres, OrdMap.get_add, if_neg hkf, add_zero, OrdMap.get_foldl_insert_zero, hentries,
        sumBits_filter_append]
      simp only [hrk, decide_false, Bool.false_eq_true, if_false, add_zero]
      split_ifs with hmem
      · have hnone : x.entries.filter (fun r => decide (r.key = k)) = [] := by
          have hkf' : f ≤ k := Upload.le_of_mem_gridKeys hmem
          rw [List.filter_eq_nil_iff]
          intro q hq
          have := hr q hq
          simp only [decide_eq_true_eq]
          omega
        rw [hnone]
        rfl
      · exact h.value k (.inl hkf)
    · have hbelow : y.below f = x.below f := by
        rw [UploadStream.below, hentries, sumBits_filter_append]
        simp [UploadStream.below, hf]
      have hall := sumBits_below_add (f := f) fun q hq => hf ▸ hr q hq
      rw [hbelow, hres, OrdMap.get_add, OrdMap.get_foldl_insert_zero,
        if_pos (Upload.mem_gridKeys_self f d), hentries, sumBits_filter_append]
      simp only [htotals, List.getLast_append_singleton, hall, ← hf, decide_true, if_true]
      abel

theorem stored_run {s : Uploads} {old : Globals} {n : Nat}
    (h : Run Uploads.step Uploads.NonDecreasing (Uploads.start old d n) s) :
    ∀ x ∈ s.streams, Stored d s.first x :=
  Uploads.run_streams (stored_start d 0) (fun f _ hlate hx => hx.choose hlate f)
    (fun _ _ _ _ _ hr he hx => hx.effect hr he) h

/-- The entries of a stream from the origin on, as the walk over `steps` half seconds needs them:
the stamps lie on the half seconds, every half second before one with a bin has a bin, and no entry
at the origin before the last one since its choice carries bits. -/
structure UploadStream.Aligned (f : Int) (d : UInt64) (steps : Int) (x : UploadStream) : Prop where
  grid : ∀ r ∈ x.entries, f ≤ r.key → r.key < f + 5 * steps → 5 ∣ r.key - f
  dense : ∀ i : Nat, (i : Int) < steps → (∃ k, x.Bin f d k ∧ f + 5 * i ≤ k) → x.Bin f d (f + 5 * i)
  once : ∀ h : x.totals f ≠ [], (x.totals f).getLast h = x.below f

/-- The bytes of the entries with a stamp that satisfies `p`. -/
def dataSum (p : Int → Bool) (l : List Report) : Nat :=
  ((l.filter fun r => p r.key).map fun r => r.data.toNat).sum

theorem dataSum_cons (p : Int → Bool) (r : Report) (l : List Report) :
    dataSum p (r :: l) = (if p r.key then r.data.toNat else 0) + dataSum p l := by
  cases hp : p r.key <;> simp [dataSum, hp]

theorem dataSum_le (p : Int → Bool) (l : List Report) :
    dataSum p l ≤ dataSum (fun _ => true) l := by
  induction l with
  | nil => simp [dataSum]
  | cons r l ih =>
    rw [dataSum_cons, dataSum_cons, if_pos rfl]
    split_ifs <;> omega

theorem toNat_sumBits {l : List Report} (h : dataSum (fun _ => true) l < 2 ^ 61) :
    (sumBits l).toNat = 8 * dataSum (fun _ => true) l := by
  induction l with
  | nil => rfl
  | cons r l ih =>
    rw [dataSum_cons, if_pos rfl] at h ⊢
    have hsum : sumBits (r :: l) = r.data * 8 + sumBits l := by simp [sumBits, Report.bits]
    rw [hsum, UInt64.toNat_add, UInt64.toNat_mul, ih (by omega)]
    have h8 : (8 : UInt64).toNat = 8 := rfl
    rw [h8]
    omega

variable {v : WalkInput} {s : Stream}

/-- The bins that the walk counts are those of the half seconds from the origin on. -/
theorem Stored.counted_getElem? (h : Stored d f x) (hf : f ≠ 0) (hv : v.testCase = .upload)
    (hvf : v.timerIndexUploadFirst = f) (hs : s.data = x.upload.mUpload) {steps : Nat}
    (ha : x.Aligned f d steps) {i : Nat} (hi : i < steps) :
    ((counted v s)[i]?).map (·.2) = x.upload.mUpload.results.find? (f + 5 * i) := by
  have hskip (k : Int) : (!skipped v k) = decide (f ≤ k) := by
    by_cases hk : k < f
    · simp [skipped, hv, hvf, hk]
    · simp [skipped, hv, hvf, hk, hf, Int.not_lt.mp hk]
  have hcounted : counted v s = x.upload.mUpload.results.entries.filter fun e => decide (f ≤ e.1) := by
    simp only [counted, hs, hskip]
  have hmem (k : Int) (hk : f ≤ k) : (∃ e ∈ counted v s, e.1 = k) ↔ x.Bin f d k := by
    rw [← h.bin, OrdMap.isSome_find?_iff, hcounted]
    constructor
    · rintro ⟨e, he, rfl⟩
      exact ⟨e, List.mem_of_mem_filter he, rfl⟩
    · rintro ⟨e, he, rfl⟩
      exact ⟨e, List.mem_filter.mpr ⟨he, by simpa using hk⟩, rfl⟩
  have hlow (e : Int × UInt64) (he : e ∈ counted v s) : f ≤ e.1 := by
    rw [hcounted] at he
    simpa using (List.mem_filter.mp he).2
  have hgrid : OnGrid (counted v s) f 5 steps := by
    refine ⟨hlow, ?_, ?_⟩
    · intro e he hlt
      rcases (hmem e.1 (hlow e he)).mp ⟨e, he, rfl⟩ with ⟨r, hr, hrk⟩ | ⟨-, hk⟩
      · exact hrk ▸ ha.grid r hr (hrk ▸ hlow e he) (hrk ▸ hlt)
      · simp only [Upload.gridKeys, List.mem_map, List.mem_range] at hk
        omega
    · rintro j hj ⟨e, he, hle⟩
      apply (hmem _ (by omega)).mpr
      exact ha.dense j (by omega) ⟨e.1, (hmem e.1 (hlow e he)).mp ⟨e, he, rfl⟩, hle⟩
  have hsorted : (counted v s).Pairwise fun a b => a.1 < b.1 := by
    rw [hcounted]
    exact x.upload.mUpload.results.sorted.filter _
  rw [hgrid.getElem? (by decide) hsorted hi, hcounted]
  exact OrdMap.findList_filter (p := fun k => decide (f ≤ k)) (by simp) _

/-- The bin of a half second holds the bits of the entries with that stamp. -/
theorem Stored.get_grid (h : Stored d f x)
    (honce : ∀ h : x.totals f ≠ [], (x.totals f).getLast h = x.below f) (i : Nat) :
    x.upload.mUpload.results.get (f + 5 * i) =
      sumBits (x.entries.filter fun r => decide (r.key = f + 5 * i)) := by
  by_cases hk : f + 5 * (i : Int) ≠ f ∨ x.totals f = []
  · exact h.value _ hk
  · obtain ⟨hi, hne⟩ := not_or.mp hk
    have horigin := h.atOrigin hne
    rw [honce hne, add_comm] at horigin
    rw [not_not.mp hi]
    exact add_left_cancel horigin

theorem dataSum_filter (p : Int → Bool) (l : List Report) :
    dataSum (fun _ => true) (l.filter fun r => p r.key) = dataSum p l := by
  simp [dataSum]

theorem dataSum_congr {p q : Int → Bool} {l : List Report} (h : ∀ r ∈ l, p r.key = q r.key) :
    dataSum p l = dataSum q l := by
  rw [dataSum, List.filter_congr h, dataSum]

theorem dataSum_add {p q w : Int → Bool} (hor : ∀ k, p k = (q k || w k))
    (hdisjoint : ∀ k, q k = true → w k = false) (l : List Report) :
    dataSum p l = dataSum q l + dataSum w l := by
  induction l with
  | nil => rfl
  | cons r l ih =>
    rw [dataSum_cons, dataSum_cons, dataSum_cons, ih, hor]
    have := hdisjoint r.key
    cases hq : q r.key <;> cases hw : w r.key <;> simp_all <;> omega

/-- Two windows side by side. -/
theorem dataSum_window (f : Int) (n : Nat) (l : List Report) :
    dataSum (fun k => decide (f ≤ k ∧ k < f + 5 * (n + 1 : Nat))) l =
      dataSum (fun k => decide (f ≤ k ∧ k < f + 5 * n)) l +
        dataSum (fun k => decide (f + 5 * n ≤ k ∧ k < f + 5 * (n + 1 : Nat))) l := by
  apply dataSum_add
  · intro k
    rw [← Bool.decide_or, decide_eq_decide]
    omega
  · intro k hk
    rw [decide_eq_true_eq] at hk
    rw [decide_eq_false_iff_not]
    omega

/-- The bytes of a half second, of one stream. -/
theorem Stored.toNat_distinctBytes (h : Stored d f x) (hf : f ≠ 0) (hv : v.testCase = .upload)
    (hvf : v.timerIndexUploadFirst = f) (hs : s.data = x.upload.mUpload) {steps : Nat}
    (ha : x.Aligned f d steps) (hsize : dataSum (fun _ => true) x.entries < 2 ^ 61) {n : Nat}
    (hn : n < steps) : (distinctBytes v (n + 1 : Nat) s).toNat =
      dataSum (fun k => decide (f + 5 * n ≤ k ∧ k < f + 5 * (n + 1 : Nat))) x.entries := by
  have hbin : distinctBytes v (n + 1 : Nat) s = x.upload.mUpload.results.get (f + 5 * n) / 8 := by
    have hidx : (((n + 1 : Nat) : Int) - 1).toNat = n := by omega
    have hmap : ((counted v s)[n]?).map (fun e => e.2 / 8) =
        (x.upload.mUpload.results.find? (f + 5 * n)).map (· / 8) := by
      rw [← h.counted_getElem? hf hv hvf hs ha hn, Option.map_map]
      rfl
    rw [distinctBytes, hidx, hmap, OrdMap.get]
    cases x.upload.mUpload.results.find? (f + 5 * (n : Int)) <;> rfl
  have hwindow : dataSum (fun k => decide (f + 5 * n ≤ k ∧ k < f + 5 * (n + 1 : Nat))) x.entries =
      dataSum (fun k => decide (k = f + 5 * n)) x.entries := by
    apply dataSum_congr
    intro r hr
    rw [decide_eq_decide]
    constructor
    · rintro ⟨hlow, hhigh⟩
      have := ha.grid r hr (by omega) (by omega)
      omega
    · intro hk
      omega
  have hfilter := dataSum_filter (fun k => decide (k = f + 5 * n)) x.entries
  have hle := dataSum_le (fun k => decide (k = f + 5 * n)) x.entries
  rw [hbin, h.get_grid ha.once, UInt64.toNat_div, toNat_sumBits (by omega), hwindow, hfilter]
  exact Nat.mul_div_cancel_left _ (by decide)

/-- The bytes of the half seconds before the `n`-th, of one stream. -/
theorem Stored.toNat_bytesUpTo (h : Stored d f x) (hf : f ≠ 0) (hv : v.testCase = .upload)
    (hvf : v.timerIndexUploadFirst = f) (hs : s.data = x.upload.mUpload) {steps : Nat}
    (ha : x.Aligned f d steps) (hsize : dataSum (fun _ => true) x.entries < 2 ^ 61) {n : Nat}
    (hn : n ≤ steps) : (bytesUpTo v n s).toNat =
      dataSum (fun k => decide (f ≤ k ∧ k < f + 5 * n)) x.entries := by
  induction n with
  | zero =>
    have hnone : dataSum (fun k => decide (f ≤ k ∧ k < f + 5 * (0 : Nat))) x.entries =
        dataSum (fun _ => false) x.entries := by
      apply dataSum_congr
      intro r _
      rw [decide_eq_false]
      omega
    rw [hnone]
    simp [bytesUpTo, dataSum]
  | succ n ih =>
    have hsplit : bytesUpTo v (n + 1 : Nat) s = bytesUpTo v n s + distinctBytes v (n + 1 : Nat) s := by
      have hidx : (((n + 1 : Nat) : Int) - 1).toNat = n := by omega
      have htake : ((n + 1 : Nat) : Int).toNat = n + 1 := by omega
      simp only [bytesUpTo, distinctBytes, hidx, htake, Int.toNat_natCast, List.take_add_one,
        List.map_append, List.sum_append]
      cases (counted v s)[n]? <;> simp
    have hle := dataSum_le (fun k => decide (f ≤ k ∧ k < f + 5 * (n + 1 : Nat))) x.entries
    have hwindow := dataSum_window f n x.entries
    rw [hsplit, UInt64.toNat_add, ih (by omega),
      h.toNat_distinctBytes hf hv hvf hs ha hsize (by omega), ← hwindow]
    omega

/-- Sums over the streams, from what is known of each. -/
theorem sum_toNat_of_streams {ss : List Stream} {xs : List UploadStream} {g : Stream → UInt64}
    {w : UploadStream → Nat} (hss : ss.map (·.data) = xs.map (·.upload.mUpload))
    (hg : ∀ x ∈ xs, ∀ s, s.data = x.upload.mUpload → (g s).toNat = w x)
    (hsize : (xs.map w).sum < 2 ^ 64) : ((ss.map g).sum).toNat = (xs.map w).sum := by
  have hmap : (ss.map g).map UInt64.toNat = xs.map w := by
    clear hsize
    induction xs generalizing ss with
    | nil => simp_all
    | cons x xs ih =>
      cases ss with
      | nil => simp at hss
      | cons s ss =>
        simp only [List.map_cons, List.cons.injEq] at hss ⊢
        exact ⟨hg x (by simp) s hss.1, ih hss.2 fun y hy => hg y (by simp [hy])⟩
  rw [toNat_sum (by rwa [hmap]), hmap]

/-- In every run with non-decreasing stamps, with the streams aligned over the half seconds that
are published and fewer than 2^61 bytes: the entry of a half second has the bytes of all entries
stamped in it, and of all entries stamped from the origin to its end. -/
theorem upload_bins_aligned {u : Uploads} (old : Globals) (duration : UInt64) (n : Nat)
    (h : Run Uploads.step Uploads.NonDecreasing (Uploads.start old duration n) u)
    (hf : u.first ≠ 0) (v : WalkInput) (hv : v.testCase = .upload)
    (hvf : v.timerIndexUploadFirst = u.first) (now : Int → UInt64) (ss : List Stream)
    (hss : ss.map (·.data) = u.streams.map (·.upload.mUpload))
    (ha : ∀ x ∈ u.streams, x.Aligned u.first duration (maxSteps v))
    (hsize : (u.streams.map fun x => dataSum (fun _ => true) x.entries).sum < 2 ^ 61)
    {rs : List Aggregate} {ps : List PerStream}
    (hres : calculateMeasurementResultsDownloadUpload v now ss = some (rs, ps))
    (step : Nat) (hstep : (step : Int) < maxSteps v) : ∃ a, rs[step]? = some a ∧
      a.bytesDistinct.toNat = (u.streams.map fun x => dataSum (fun k =>
        decide (u.first + 5 * step ≤ k ∧ k < u.first + 5 * (step + 1 : Nat))) x.entries).sum ∧
      a.bytes.toNat = (u.streams.map fun x => dataSum (fun k =>
        decide (u.first ≤ k ∧ k < u.first + 5 * (step + 1 : Nat))) x.entries).sum := by
  have hstored := stored_run h
  obtain ⟨steps, hsteps⟩ := Int.eq_ofNat_of_zero_le (a := maxSteps v) (by omega)
  rw [hsteps] at ha hstep
  have hone (x : UploadStream) (hx : x ∈ u.streams) :
      dataSum (fun _ => true) x.entries < 2 ^ 61 :=
    Nat.lt_of_le_of_lt
      (List.single_le_sum (by simp) _ (List.mem_map.mpr ⟨x, hx, rfl⟩)) hsize
  have hle (p : Int → Bool) : (u.streams.map fun x => dataSum p x.entries).sum < 2 ^ 61 :=
    Nat.lt_of_le_of_lt (List.sum_le_sum fun x _ => dataSum_le p x.entries) hsize
  obtain ⟨a, hr, hb, hd⟩ := calculateMeasurementResults_getElem? hres (n := step) (by omega)
  refine ⟨a, hr, ?_, ?_⟩
  · rw [hd]
    refine sum_toNat_of_streams hss (fun x hx s hs => ?_) (Nat.lt_trans (hle _) (by decide))
    exact (hstored x hx).toNat_distinctBytes hf hv hvf hs (ha x hx) (hone x hx) (by omega)
  · have hsum := sum_toNat_of_streams (g := bytesUpTo v (step + 1 : Nat)) hss (w := fun x =>
        dataSum (fun k => decide (u.first ≤ k ∧ k < u.first + 5 * (step + 1 : Nat))) x.entries)
      (fun x hx s hs =>
        (hstored x hx).toNat_bytesUpTo hf hv hvf hs (ha x hx) (hone x hx) (by omega))
      (Nat.lt_trans (hle _) (by decide))
    have hlt := hle fun k => decide (u.first ≤ k ∧ k < u.first + 5 * (step + 1 : Nat))
    rw [hb, UInt64.toNat_div, UInt64.toNat_mul]
    push_cast at hsum hlt ⊢
    rw [hsum]
    omega

/-- An entry at the origin, since its choice, makes every bin that the walk needs. -/
theorem UploadStream.dense_of_totals (hne : x.totals f ≠ []) (steps : Nat)
    (hsteps : steps ≤ 2 * d.toNat + 1) (i : Nat) (hi : (i : Int) < steps) :
    x.Bin f d (f + 5 * i) := by
  refine .inr ⟨hne, ?_⟩
  simp only [Upload.gridKeys, List.mem_map, List.mem_range]
  exact ⟨i, by omega, rfl⟩

/-- A window of one second, with the origin 100005. -/
def oneSecond : WalkInput where
  testCase := .upload
  timerDuration := 1000000
  measurementDuration := 12
  timerIndexUploadFirst := 100005
  timestampMeasurementStart := 0
  instances := 1

/-- A report in each half second. -/
def onHalfSeconds : List UploadAction :=
  [.timerRunning, .entry 0 report5, .entry 0 report7]

/-- A clock that goes on between the steps of a walk. -/
def movingClock (step : Int) : UInt64 := 2000000 + 7 * UInt64.ofInt step

/-- The streams as the walk sees them. -/
def Uploads.walked (u : Uploads) : List Stream :=
  u.streams.map fun x => { mResponse := 1, data := x.upload.mUpload, measurementTimeStart := 0 }

theorem upload_bins_aligned_onHalfSeconds : ∃ (u : Uploads) (rs : List Aggregate)
    (ps : List PerStream),
    calculateMeasurementResultsDownloadUpload oneSecond movingClock u.walked = some (rs, ps) ∧
    ∃ a, rs[1]? = some a ∧ a.bytesDistinct.toNat = 7 ∧ a.bytes.toNat = 12 := by
  obtain ⟨u, hu, hf, rs, ps, hres, hsize, hd, hb, x, hx, hne, ho, hstamps⟩ : ∃ u : Uploads,
      exec (guarded Uploads.NonDecreasing Uploads.step) onHalfSeconds
        (Uploads.start Globals.default 12 1) = some u ∧ u.first = 100005 ∧
      ∃ rs ps,
        calculateMeasurementResultsDownloadUpload oneSecond movingClock u.walked = some (rs, ps) ∧
        (u.streams.map fun x => dataSum (fun _ => true) x.entries).sum = 12 ∧
        (u.streams.map fun x => dataSum (fun k => decide (100010 ≤ k ∧ k < 100015))
          x.entries).sum = 7 ∧
        (u.streams.map fun x => dataSum (fun k => decide (100005 ≤ k ∧ k < 100015))
          x.entries).sum = 12 ∧
        ∃ x, u.streams = [x] ∧ ∃ hne : x.totals 100005 ≠ [],
          (x.totals 100005).getLast hne = x.below 100005 ∧
          ∀ r ∈ x.entries, 5 ∣ r.key - 100005 :=
    ⟨_, rfl, rfl, _, _, rfl, by decide, by decide, by decide, _, rfl, by decide, by decide, by decide⟩
  have ha : x.Aligned 100005 12 (maxSteps oneSecond) :=
    ⟨fun r hr _ _ => hstamps r hr,
      fun i hi _ => UploadStream.dense_of_totals hne 2 (by decide) i hi, fun _ => ho⟩
  have h := upload_bins_aligned Globals.default 12 1 (run_of_exec onHalfSeconds hu) (by rw [hf]; decide)
    oneSecond rfl hf.symm movingClock u.walked (by simp [Uploads.walked])
    (by rw [hx, hf]; simpa using ha) (by rw [hsize]; decide) hres 1 (by decide)
  rw [hf] at h
  refine ⟨u, rs, ps, hres, ?_⟩
  obtain ⟨a, hr, ha₁, ha₂⟩ := h
  exact ⟨a, hr, ha₁.trans hd, ha₂.trans hb⟩

/-- The second report comes two tenths of a second after the origin. -/
def offHalfSeconds : List UploadAction :=
  [.timerRunning, .entry 0 report5, .entry 0 report7Early]

theorem offHalfSeconds_not_aligned : ∃ u rs ps a,
    Run Uploads.step Uploads.NonDecreasing (Uploads.start Globals.default 12 1) u ∧
    u.first = 100005 ∧
    calculateMeasurementResultsDownloadUpload oneSecond movingClock u.walked = some (rs, ps) ∧
    rs[0]? = some a ∧ a.bytesDistinct = 5 ∧
    (u.streams.map fun x => dataSum (fun k => decide (100005 ≤ k ∧ k < 100010)) x.entries).sum = 12 :=
  ⟨_, _, _, _, run_of_exec offHalfSeconds rfl, rfl, rfl, rfl, by decide, by decide⟩

end IasClient
