import IasClient.Accounting.Aggregation
import IasClient.Accounting.Malformed

namespace IasClient

open Framework

theorem decimal_eq_ofDigitChars {l : List Char} (h : ∀ c ∈ l, c.isDigit = true) :
    Libtool.decimal l = Nat.ofDigitChars 10 l 0 := by
  rw [Libtool.decimal, List.takeWhile_eq_self_iff.mpr h]
  rfl

/-- The last six digits of a number. -/
theorem decimal_lastSix {t : Nat} (h : 100000 ≤ t) :
    Libtool.decimal ((Nat.toDigits 10 t).drop ((Nat.toDigits 10 t).length - 6)) = t % 1000000 := by
  have hlen : 6 ≤ (Nat.toDigits 10 t).length := by
    by_contra hlt
    have := (Nat.length_toDigits_le_iff (n := t) (b := 10) (k := 5) (by decide) (by decide)).mp
      (by omega)
    omega
  have hdigits : ∀ c ∈ (Nat.toDigits 10 t).drop ((Nat.toDigits 10 t).length - 6),
      c.isDigit = true := fun c hc =>
    Nat.isDigit_of_mem_toDigits (by decide) (by decide) (List.mem_of_mem_drop hc)
  have hsix : ((Nat.toDigits 10 t).drop ((Nat.toDigits 10 t).length - 6)).length = 6 := by
    rw [List.length_drop]
    omega
  have hlt := decimal_lt hdigits
  have hsplit : Nat.ofDigitChars 10 (Nat.toDigits 10 t) 0 = t := Nat.ofDigitChars_ten_toDigits
  rw [← List.take_append_drop ((Nat.toDigits 10 t).length - 6) (Nat.toDigits 10 t),
    Nat.ofDigitChars_append, Nat.ofDigitChars_eq_ofDigitChars_zero, hsix,
    ← decimal_eq_ofDigitChars hdigits] at hsplit
  rw [hsix] at hlt
  omega

namespace Upload

/-- The bin of the entry with the full stamp `t + 5 * j`: its last six digits. -/
def wrapped (t j : Nat) : Nat := (t + 5 * j) % 1000000

/-- The entries of a stream whose full stamps are `t`, `t + 5`, `t + 10`, …. -/
def Regular (t : Nat) (es : Nat → Entry) : Prop :=
  ∀ j, (es j).stamp = Nat.toDigits 10 (t + 5 * j)

/-- TIMER_RUNNING turns true. -/
def arm (s : Globals × UploadData) : Globals × UploadData :=
  ({ s.1 with timerRunning := true }, s.2)

/-- The state after `n` entries, with TIMER_RUNNING turning true just before entry `m`. -/
def processed (env : Env) (es : Nat → Entry) (m : Nat) (s : Globals × UploadData) :
    Nat → Option (Globals × UploadData)
  | 0 => some s
  | j + 1 => (processed env es m s j).bind fun s =>
    processToken env (if j = m then arm s else s) (es j).token

/-- The state in which the receive loop starts. -/
def start (old : Globals) (d : UInt64) : Globals × UploadData :=
  ({ old with
      timerRunning := false
      timerIndexUploadFirst := 0
      measurementDuration := d
      hasError := false }, {})

/-- The same with decoded entries. -/
def fed (t m : Nat) (data : Nat → UInt64) (s : Globals × UploadData) :
    Nat → Globals × UploadData
  | 0 => s
  | j + 1 =>
    let s := if j = m then arm (fed t m data s j) else fed t m data s j
    account s.1 (setDecoded (data j) (UInt64.ofNat (wrapped t j)) s.2)

theorem processed_eq {env : Env} (htok : env.tokenize = Libtool.tokenize)
    (hull : env.toULL = Libtool.toULL) {t : Nat} (ht : 100000 ≤ t) {es : Nat → Entry}
    (hes : Regular t es) (m : Nat) (s : Globals × UploadData) (n : Nat) :
    processed env es m s n = some (fed t m (fun j => Libtool.toULL (es j).data) s n) := by
  induction n with
  | zero => rfl
  | succ j ih =>
    have hstamp : env.toULL ((es j).stamp.drop ((es j).stamp.length - 6)) =
        UInt64.ofNat (wrapped t j) := by
      rw [hull, Libtool.toULL, hes j, decimal_lastSix (by omega), wrapped]
    rw [processed, ih, Option.bind_some, processToken, decode_entry htok, hstamp, hull]
    rfl

section Step

variable {g : Globals} {u : UploadData}

theorem account_results (he : g.hasError = false) : (account g u).2.mUpload.results =
    (clearGrid (chooseFirst u.nTimeRecvExa g) u).mUpload.results.add (toInt u.nTimeRecvExa)
      u.nDataRecv := by
  have hsame : (chooseFirst u.nTimeRecvExa g).hasError = false := by
    unfold chooseFirst
    split <;> exact he
  simp only [account, hsame, Bool.false_eq_true, if_false]
  rw [store_clearGrid_eq]

theorem get_account (he : g.hasError = false) (k : Int) :
    (account g u).2.mUpload.results.get k =
      (if AtOrigin (chooseFirst u.nTimeRecvExa g) u ∧
          k ∈ gridKeys (chooseFirst u.nTimeRecvExa g).timerIndexUploadFirst
            (chooseFirst u.nTimeRecvExa g).measurementDuration then 0
        else u.mUpload.results.get k) + if k = toInt u.nTimeRecvExa then u.nDataRecv else 0 := by
  rw [account_results he, OrdMap.get_add]
  congr 1
  rw [OrdMap.get, find?_clearGrid]
  split_ifs <;> rfl

theorem isSome_account (he : g.hasError = false) (k : Int) :
    ((account g u).2.mUpload.results.find? k).isSome = true ↔
      toInt u.nTimeRecvExa = k ∨
        (AtOrigin (chooseFirst u.nTimeRecvExa g) u ∧
          k ∈ gridKeys (chooseFirst u.nTimeRecvExa g).timerIndexUploadFirst
            (chooseFirst u.nTimeRecvExa g).measurementDuration) ∨
        (u.mUpload.results.find? k).isSome = true := by
  rw [account_results he, OrdMap.add, OrdMap.isSome_find?_insert, find?_clearGrid]
  split_ifs with h
  · simp [h]
  · simp [h]

end Step

theorem wrapped_lt (t j : Nat) : wrapped t j < 1000000 := Nat.mod_lt _ (by decide)

theorem toNat_wrapped (t j : Nat) : (UInt64.ofNat (wrapped t j)).toNat = wrapped t j := by
  have := wrapped_lt t j
  rw [UInt64.toNat_ofNat']
  omega

theorem toInt_wrapped (t j : Nat) : toInt (UInt64.ofNat (wrapped t j)) = wrapped t j := by
  have := wrapped_lt t j
  rw [toInt_of_lt (by rw [toNat_wrapped]; omega), toNat_wrapped]

theorem ofInt_eq_wrapped_iff {f : Nat} (hf : f < 1000000) (t j : Nat) :
    UInt64.ofInt (f : Int) = UInt64.ofNat (wrapped t j) ↔ f = wrapped t j := by
  have hn : (UInt64.ofInt (f : Int)).toNat = f := by
    simp only [UInt64.ofInt, UInt64.toNat_ofNat']
    omega
  rw [← UInt64.toNat_inj, hn, toNat_wrapped]

/-- TIMER_INDEX_UPLOAD_FIRST after `j` entries: the stamp of entry `m`, or that of the next one if
entry `m` carries 000000. -/
def originAfter (t m j : Nat) : Nat :=
  if j ≤ m then 0
  else if wrapped t m ≠ 0 then wrapped t m
  else if j = m + 1 then 0
  else wrapped t (m + 1)

theorem originAfter_lt (t m j : Nat) : originAfter t m j < 1000000 := by
  have hm := wrapped_lt t m
  have hm' := wrapped_lt t (m + 1)
  unfold originAfter
  split_ifs <;> omega

theorem wrapped_succ_of_zero {t m : Nat} (h : wrapped t m = 0) : wrapped t (m + 1) = 5 := by
  unfold wrapped at *
  omega

section Fed

variable {t m : Nat} {data : Nat → UInt64} {old : Globals} {d : UInt64}

/-- The globals that the stream finds and leaves. -/
structure Ready (t m : Nat) (d : UInt64) (j : Nat) (g : Globals) : Prop where
  hasError : g.hasError = false
  measurementDuration : g.measurementDuration = d
  timerRunning : g.timerRunning = decide (m < j)
  origin : g.timerIndexUploadFirst = originAfter t m j

theorem chooseFirst_ready {j : Nat} {g : Globals}
    (h : g.hasError = false) (hd : g.measurementDuration = d)
    (hr : g.timerRunning = decide (m ≤ j)) (hf : g.timerIndexUploadFirst = originAfter t m j) :
    Ready t m d (j + 1) (chooseFirst (UInt64.ofNat (wrapped t j)) g) := by
  have hrun : (decide (m ≤ j)) = decide (m < j + 1) := by
    rw [decide_eq_decide]
    omega
  unfold chooseFirst
  by_cases hc : g.timerRunning = true ∧ g.timerIndexUploadFirst = 0
  · rw [if_pos hc]
    refine ⟨h, hd, hr.trans hrun, ?_⟩
    simp only [toInt_wrapped]
    obtain ⟨hrunning, hzero⟩ := hc
    rw [hr, decide_eq_true_eq] at hrunning
    rw [hf] at hzero
    unfold originAfter at hzero ⊢
    rcases Nat.eq_or_lt_of_le hrunning with rfl | hlt
    · split_ifs <;> omega
    · have hm := wrapped_succ_of_zero (t := t) (m := m)
      have hj : j = m + 1 := by
        split_ifs at hzero <;> omega
      subst hj
      split_ifs at hzero ⊢ <;> omega
  · rw [if_neg hc]
    refine ⟨h, hd, hr.trans hrun, ?_⟩
    rw [hf, hr, decide_eq_true_eq] at hc
    rw [hf]
    unfold originAfter at hc ⊢
    split_ifs at hc ⊢ <;> omega

theorem fed_ready (t m : Nat) (data : Nat → UInt64) (old : Globals) (d : UInt64) (n : Nat) :
    Ready t m d n (fed t m data (start old d) n).1 := by
  induction n with
  | zero =>
    refine ⟨rfl, rfl, ?_, rfl⟩
    show false = decide (m < 0)
    simp
  | succ j ih =>
    rw [fed]
    by_cases hj : j = m
    · rw [if_pos hj]
      exact chooseFirst_ready (g := { (fed t m data (start old d) j).1 with timerRunning := true })
        ih.hasError ih.measurementDuration (by simp [hj]) ih.origin
    · rw [if_neg hj]
      refine chooseFirst_ready ih.hasError ih.measurementDuration ?_ ih.origin
      rw [ih.timerRunning, decide_eq_decide]
      omega

/-- Entry `j` carries the stamp of the origin, and empties the grid. -/
def Clears (t m j : Nat) : Prop :=
  originAfter t m (j + 1) ≠ 0 ∧ originAfter t m (j + 1) = wrapped t j

instance (t m j : Nat) : Decidable (Clears t m j) := inferInstanceAs (Decidable (_ ∧ _))

theorem atOrigin_iff {j : Nat} {g : Globals} {u : UploadData} (h : Ready t m d (j + 1) g) :
    AtOrigin g (setDecoded (data j) (UInt64.ofNat (wrapped t j)) u) ↔ Clears t m j := by
  have hstamp := ofInt_eq_wrapped_iff (originAfter_lt t m (j + 1)) t j
  simp only [AtOrigin, setDecoded, h.origin, Clears, ← hstamp]
  exact and_congr_left' (by omega)

/-- The bins after entry `j`. -/
theorem fed_succ (t m : Nat) (data : Nat → UInt64) (old : Globals) (d : UInt64) (j : Nat)
    (k : Int) :
    (fed t m data (start old d) (j + 1)).2.mUpload.results.get k =
        (if Clears t m j ∧ k ∈ gridKeys (originAfter t m (j + 1)) d then 0
          else (fed t m data (start old d) j).2.mUpload.results.get k) +
          (if k = wrapped t j then data j * 8 else 0) ∧
      (((fed t m data (start old d) (j + 1)).2.mUpload.results.find? k).isSome = true ↔
        k = wrapped t j ∨ (Clears t m j ∧ k ∈ gridKeys (originAfter t m (j + 1)) d) ∨
          ((fed t m data (start old d) j).2.mUpload.results.find? k).isSome = true) := by
  have hready := fed_ready t m data old d j
  obtain ⟨s, hs⟩ : ∃ s, s = if j = m then arm (fed t m data (start old d) j)
      else fed t m data (start old d) j := ⟨_, rfl⟩
  have hfed : fed t m data (start old d) (j + 1) =
      account s.1 (setDecoded (data j) (UInt64.ofNat (wrapped t j)) s.2) := by
    rw [fed, hs]
  have hupload : s.2 = (fed t m data (start old d) j).2 := by
    rw [hs]
    split <;> rfl
  have herror : s.1.hasError = false := by
    rw [hs]
    split <;> exact hready.hasError
  have hnext : Ready t m d (j + 1) (chooseFirst (UInt64.ofNat (wrapped t j)) s.1) := by
    have h := fed_ready t m data old d (j + 1)
    rw [hfed] at h
    exact h
  obtain ⟨u, hu⟩ : ∃ u, u = setDecoded (data j) (UInt64.ofNat (wrapped t j)) s.2 := ⟨_, rfl⟩
  have hstamp : u.nTimeRecvExa = UInt64.ofNat (wrapped t j) := by rw [hu, setDecoded]
  have hdata : u.nDataRecv = data j * 8 := by rw [hu, setDecoded]
  have hresults : u.mUpload.results = (fed t m data (start old d) j).2.mUpload.results := by
    rw [hu, setDecoded, hupload]
  have hat : AtOrigin (chooseFirst u.nTimeRecvExa s.1) u ↔ Clears t m j := by
    rw [hstamp, hu]
    exact atOrigin_iff hnext
  have hfirst : (chooseFirst u.nTimeRecvExa s.1).timerIndexUploadFirst =
      originAfter t m (j + 1) := by
    rw [hstamp]
    exact hnext.origin
  have hduration : (chooseFirst u.nTimeRecvExa s.1).measurementDuration = d := by
    rw [hstamp]
    exact hnext.measurementDuration
  have hkey : toInt u.nTimeRecvExa = wrapped t j := by rw [hstamp, toInt_wrapped]
  rw [hfed, ← hu]
  constructor
  · rw [get_account herror, hfirst, hduration, hkey, hdata, hresults]
    congr 1
    exact if_congr (and_congr_left' hat) rfl rfl
  · rw [isSome_account herror, hfirst, hduration, hkey, hresults, hat]
    exact or_congr_left eq_comm

/-- A bin holds nothing if no entry with its stamp brings anything. -/
theorem fed_get_eq_zero {n : Nat} {k : Int} (h : ∀ j < n, k = wrapped t j → data j = 0) :
    (fed t m data (start old d) n).2.mUpload.results.get k = 0 := by
  induction n with
  | zero => rfl
  | succ j ih =>
    have hprev := ih fun i hi => h i (by omega)
    have hown : (if k = wrapped t j then data j * 8 else 0) = 0 := by
      split_ifs with hk
      · rw [h j (by omega) hk, zero_mul]
      · rfl
    rw [(fed_succ t m data old d j k).1, hprev, hown]
    split_ifs <;> rfl

/-- All bins are a multiple of five away from each other. -/
theorem fed_dvd {n : Nat} {k : Int}
    (h : ((fed t m data (start old d) n).2.mUpload.results.find? k).isSome = true) :
    5 ∣ k - (wrapped t m : Int) := by
  induction n with
  | zero => contradiction
  | succ j ih =>
    rcases (fed_succ t m data old d j k).2.mp h with rfl | ⟨hclear, hk⟩ | hprev
    · unfold wrapped
      omega
    · have hclears := hclear.2
      simp only [gridKeys, List.mem_map, List.mem_range] at hk
      obtain ⟨i, -, rfl⟩ := hk
      rw [hclears]
      unfold wrapped
      omega
    · exact ih hprev

theorem originAfter_succ (ho : wrapped t m ≠ 0) {j : Nat} (hj : m ≤ j) :
    originAfter t m (j + 1) = wrapped t m := by
  rw [originAfter, if_neg (by omega), if_pos ho]

theorem clears_iff (ho : wrapped t m ≠ 0) {j : Nat} (hj : m ≤ j) :
    Clears t m j ↔ wrapped t m = wrapped t j := by
  rw [Clears, originAfter_succ ho hj]
  exact and_iff_right ho

/-- Within one round of the stamps the origin does not come again. -/
theorem wrapped_ne_of_round {j : Nat} (hm : m < j) (hj : j < m + 200000) :
    wrapped t m ≠ wrapped t j := by
  unfold wrapped
  omega

/-- From the origin on, within a round and before the stamps wrap, each bin of the grid holds what
its own entry brought. -/
theorem fed_window (ho : wrapped t m ≠ 0) {i : Nat} (hi : i ≤ 2 * d.toNat)
    (hwrap : wrapped t m + 5 * i < 1000000) {j : Nat} (hm : m < j) (hj : j ≤ m + 200000) :
    (fed t m data (start old d) j).2.mUpload.results.find? ((wrapped t m : Int) + 5 * i) =
      some (if m + i < j then data (m + i) * 8 else 0) := by
  have hgrid : (wrapped t m : Int) + 5 * i ∈ gridKeys (wrapped t m) d := by
    simp only [gridKeys, List.mem_map, List.mem_range]
    exact ⟨i, by omega, rfl⟩
  have hsome (j : Nat) (hm : m < j) : ((fed t m data (start old d) j).2.mUpload.results.find?
      ((wrapped t m : Int) + 5 * i)).isSome = true := by
    induction j, hm using Nat.le_induction with
    | base =>
      refine (fed_succ t m data old d m _).2.mpr (Or.inr (Or.inl ⟨?_, ?_⟩))
      · exact (clears_iff ho le_rfl).mpr rfl
      · rw [originAfter_succ ho le_rfl]
        exact hgrid
    | succ j _ ih => exact (fed_succ t m data old d j _).2.mpr (Or.inr (Or.inr ih))
  have hget : (fed t m data (start old d) j).2.mUpload.results.get ((wrapped t m : Int) + 5 * i) =
      if m + i < j then data (m + i) * 8 else 0 := by
    induction j, hm using Nat.le_induction with
    | base =>
      have hclear : Clears t m m := (clears_iff ho le_rfl).mpr rfl
      rw [(fed_succ t m data old d m _).1, originAfter_succ ho le_rfl, if_pos ⟨hclear, hgrid⟩,
        zero_add]
      by_cases hzero : i = 0
      · subst hzero
        simp
      · rw [if_neg (by omega), if_neg (by omega)]
    | succ j hm ih =>
      have hclear : ¬ Clears t m j := by
        rw [clears_iff ho (by omega)]
        exact wrapped_ne_of_round hm (by omega)
      rw [(fed_succ t m data old d j _).1, if_neg fun h => hclear h.1, ih (by omega)]
      have hkey : (wrapped t m : Int) + 5 * i = wrapped t j ↔ m + i = j := by
        unfold wrapped at hwrap ⊢
        omega
      simp only [hkey]
      by_cases hown : m + i = j
      · rw [if_neg (by omega), if_pos hown, if_pos (by omega), hown, zero_add]
      · rw [if_neg hown, add_zero]
        exact if_congr (by omega) rfl rfl
  obtain ⟨b, hb⟩ := Option.isSome_iff_exists.mp (hsome j hm)
  rw [OrdMap.get, hb, Option.getD_some] at hget
  rw [hb, hget]

/-- Once the stamp of the origin has come again, its bin has lost what entry `m` brought. -/
theorem fed_round (ho : wrapped t m ≠ 0) (hdata : ∀ j, m < j → data j = 0) {n : Nat}
    (hn : m + 200000 < n) :
    (fed t m data (start old d) n).2.mUpload.results.get (wrapped t m) = 0 := by
  have hzero (j : Nat) (hj : m < j) (k : Int) : (if k = wrapped t j then data j * 8 else 0) = 0 := by
    rw [hdata j hj, zero_mul, ite_self]
  induction n, hn using Nat.le_induction with
  | base =>
    have hclear : Clears t m (m + 200000) := by
      rw [clears_iff ho (by omega)]
      unfold wrapped
      omega
    have hself := mem_gridKeys_self (wrapped t m) d
    rw [(fed_succ t m data old d (m + 200000) _).1, originAfter_succ ho (by omega),
      if_pos ⟨hclear, hself⟩, hzero _ (by omega), add_zero]
  | succ n hn ih =>
    rw [(fed_succ t m data old d n _).1, ih, hzero _ (by omega), ite_self, add_zero]

end Fed

/-- The finish of a measurement with one stream: it publishes all steps of the duration. -/
structure Finish (d : UInt64) (s : Globals × UploadData) (v : WalkInput) (st : Stream) : Prop where
  testCase : v.testCase = .upload
  origin : v.timerIndexUploadFirst = s.1.timerIndexUploadFirst
  steps : maxSteps v = (2 * (d.toNat - 2) : Nat)
  data : st.data = s.2.mUpload

/-- The bytes of entry `j`. -/
def dataOf (es : Nat → Entry) (j : Nat) : Nat := Libtool.decimal (es j).data

/-- The last step publishes the reference bytes of all steps. -/
theorem last_bytes {v : WalkInput} {now : Int → UInt64} {st : Stream} {rs : List Aggregate}
    {ps : List PerStream} {r : Aggregate} {steps : Nat} (hsteps : maxSteps v = steps)
    (h : calculateMeasurementResultsDownloadUpload v now [st] = some (rs, ps))
    (hr : rs.getLast? = some r) (hsize : Reference.bytes v steps st < 2 ^ 61) :
    r.bytes.toNat = Reference.bytes v steps st := by
  have hlen : rs.length = steps := by
    rw [length_walkSteps h, hsteps, Int.toNat_natCast]
  rw [List.getLast?_eq_getElem?, hlen] at hr
  have hpos : 0 < steps := by
    have := (List.getElem?_eq_some_iff.mp hr).1
    omega
  obtain ⟨r', hr', hb, -⟩ := calculateMeasurementResults_getElem? h (n := steps - 1) (by omega)
  obtain rfl := Option.some.inj (hr.symm.trans hr')
  have hcast : ((steps - 1 : Nat) : Int) + 1 = (steps : Nat) := by omega
  have hbytes : ∀ s ∈ [st], (bytesUpTo v steps s).toNat = Reference.bytes v steps s := by
    intro s hs
    rw [List.mem_singleton.mp hs]
    exact toNat_bytesUpTo hsize
  have hsum := toNat_sum_map hbytes (by simpa using hsize)
  rw [hb, hcast, hsum.2]
  simp

/-- Bins from the origin on that hold nothing publish nothing. -/
theorem bytes_eq_zero {v : WalkInput} {st : Stream} (hv : v.testCase = .upload)
    (h : ∀ k, v.timerIndexUploadFirst ≤ k → st.data.results.get k = 0) (steps : Nat) :
    Reference.bytes v steps st = 0 := by
  have hzero : ∀ b ∈ binValues v st, b = 0 := by
    intro b hb
    simp only [binValues, hv] at hb
    split at hb
    · contradiction
    · obtain ⟨e, he, rfl⟩ := List.mem_map.mp hb
      obtain ⟨hmem, hle⟩ := List.mem_filter.mp he
      have hget := h e.1 (of_decide_eq_true hle)
      rw [OrdMap.get, OrdMap.mem_entries_iff.mp hmem, Option.getD_some] at hget
      rw [hget]
      rfl
  apply List.sum_eq_zero
  intro b hb
  obtain ⟨c, hc, rfl⟩ := List.mem_map.mp hb
  rw [hzero c (List.mem_of_mem_take hc), Nat.zero_div]

section Window

variable {t m n : Nat} {data : Nat → UInt64} {old : Globals} {d : UInt64} {v : WalkInput}
  {st : Stream}

/-- Without a wrap in the window and within a round, the steps hold the bytes of their entries. -/
theorem bytes_window (ho : wrapped t m ≠ 0) (hwrap : wrapped t m + 10 * (d.toNat - 2) < 1000005)
    (hd : 2 < d.toNat) (hn : m + 2 * (d.toNat - 2) ≤ n) (hround : n ≤ m + 200000)
    (hsize : ∀ j < n, (data j).toNat < 2 ^ 61)
    (hf : Finish d (fed t m data (start old d) n) v st) :
    Reference.bytes v (2 * (d.toNat - 2)) st =
      ((List.range (2 * (d.toNat - 2))).map fun i => (data (m + i)).toNat).sum := by
  have hready := fed_ready t m data old d n
  have hfirst : v.timerIndexUploadFirst = wrapped t m := by
    obtain ⟨j, rfl⟩ : ∃ j, n = j + 1 := ⟨n - 1, by omega⟩
    rw [hf.origin, hready.origin, originAfter_succ ho (by omega)]
  have hbin (i : Nat) (hi : i < 2 * (d.toNat - 2)) :
      st.data.results.find? ((wrapped t m : Int) + 5 * i) = some (data (m + i) * 8) := by
    rw [hf.data, fed_window ho (by omega) (by omega) (by omega) hround, if_pos (by omega)]
  have hbins : binValues v st =
      (st.data.results.entries.filter fun e => (wrapped t m : Int) ≤ e.1).map (·.2.toNat) := by
    simp only [binValues, hf.testCase, hfirst]
    rw [if_neg (by omega)]
  have hgrid : OnGrid (st.data.results.entries.filter fun e => (wrapped t m : Int) ≤ e.1)
      (wrapped t m) 5 (2 * (d.toNat - 2)) := by
    refine ⟨?_, ?_, ?_⟩
    · intro e he
      exact of_decide_eq_true (List.mem_filter.mp he).2
    · intro e he _
      have hmem := (List.mem_filter.mp he).1
      rw [hf.data] at hmem
      exact fed_dvd ((OrdMap.isSome_find?_iff _ _).mpr ⟨e, hmem, rfl⟩)
    · intro i hi _
      have hmem := OrdMap.mem_of_find? (hbin i hi)
      exact ⟨_, List.mem_filter.mpr ⟨hmem, decide_eq_true (by simp only; omega)⟩, rfl⟩
  have hsorted := st.data.results.sorted.filter fun e => (wrapped t m : Int) ≤ e.1
  have hsum := hgrid.sum_take (fun b : UInt64 => b.toNat / 8) (by decide) hsorted le_rfl
  rw [Reference.bytes, hbins, ← List.map_take, List.map_map]
  refine hsum.trans ?_
  congr 1
  apply List.map_congr_left
  intro i hi
  have hi := List.mem_range.mp hi
  have hfind : OrdMap.findList ((wrapped t m : Int) + 5 * i)
      (st.data.results.entries.filter fun e => (wrapped t m : Int) ≤ e.1) =
        some (data (m + i) * 8) := by
    rw [OrdMap.findList_filter (p := fun k => decide ((wrapped t m : Int) ≤ k))
      (decide_eq_true (by omega))]
    exact hbin i hi
  have hlt := hsize (m + i) (by omega)
  have h8 : (8 : UInt64).toNat = 8 := rfl
  rw [hfind, Option.map_some, Option.getD_some, UInt64.toNat_mul, h8]
  omega

end Window

/-- The last step of the finish has the bytes of every entry of the window, whatever they are. -/
def Included (env : Env) (t m : Nat) (d : UInt64) (n : Nat) : Prop :=
  ∀ es, Regular t es → ((List.range n).map (dataOf es)).sum < 2 ^ 61 →
    ∀ old s, processed env es m (start old d) n = some s →
      ∀ v st, Finish d s v st → ∀ now rs ps r,
        calculateMeasurementResultsDownloadUpload v now [st] = some (rs, ps) →
          rs.getLast? = some r →
            ((List.range (2 * (d.toNat - 2))).map fun i => dataOf es (m + i)).sum ≤ r.bytes.toNat

/-- The finish of a measurement that began at the clock's zero. -/
def finishInput (d : UInt64) (f : Int) : WalkInput where
  testCase := .upload
  timerDuration := d.toNat * 1000000
  measurementDuration := d
  timerIndexUploadFirst := f
  timestampMeasurementStart := 0
  instances := 1

theorem maxSteps_finishInput {d : UInt64} (f : Int) (hd : 2 < d.toNat)
    (hint : 2 * (d.toNat - 2) < 2 ^ 31) :
    maxSteps (finishInput d f) = (2 * (d.toNat - 2) : Nat) := by
  have hsteps : ((d.toNat : Int) * 1000000 - ((d.toNat : Int) * 1000000).tmod 500000).tdiv 500000 =
      (2 * d.toNat : Nat) := by
    rw [Int.tmod_eq_emod_of_nonneg (by omega), Int.tdiv_eq_ediv_of_nonneg (by omega)]
    omega
  have hcap : ((d - UInt64.ofInt UPLOAD_ADDITIONAL_MEASUREMENT_DURATION) * 2).toNat =
      2 * (d.toNat - 2) := by
    have h2 : (UInt64.ofInt UPLOAD_ADDITIONAL_MEASUREMENT_DURATION).toNat = 2 := rfl
    have h2' : (2 : UInt64).toNat = 2 := rfl
    have hle : UInt64.ofInt UPLOAD_ADDITIONAL_MEASUREMENT_DURATION ≤ d := by
      rw [UInt64.le_iff_toNat_le, h2]
      omega
    rw [UInt64.toNat_mul, UInt64.toNat_sub_of_le _ _ hle, h2, h2']
    omega
  have hlt : (d - UInt64.ofInt UPLOAD_ADDITIONAL_MEASUREMENT_DURATION) * 2 <
      UInt64.ofInt ((2 * d.toNat : Nat) : Int) := by
    rw [UInt64.lt_iff_toNat_lt, hcap]
    simp only [UInt64.ofInt, UInt64.toNat_ofNat']
    omega
  simp only [maxSteps, finishInput, hsteps]
  rw [if_pos hlt, toInt_of_lt (by omega), hcap]

/-- The stream that brings one byte with entry `l` and nothing otherwise. -/
def oneByte (t l : Nat) (ht : 100000 ≤ t) (j : Nat) : Entry where
  data := if j = l then ['1'] else ['0']
  x := ['1']
  time := ['7']
  stamp := Nat.toDigits 10 (t + 5 * j)
  nonempty := by
    refine ⟨?_, by decide, by decide⟩
    split <;> simp
  digits := by
    rw [List.all_append, Bool.and_eq_true]
    constructor
    · split <;> decide
    · rw [List.all_eq_true]
      exact fun c hc => Nat.isDigit_of_mem_toDigits (by decide) (by decide) hc
  fields := by decide
  six := by
    by_contra hlt
    have := (Nat.length_toDigits_le_iff (n := t + 5 * j) (b := 10) (k := 5) (by decide)
      (by decide)).mp (by omega)
    omega

theorem dataOf_oneByte {t l : Nat} (ht : 100000 ≤ t) (j : Nat) :
    dataOf (oneByte t l ht) j = if j = l then 1 else 0 := by
  show Libtool.decimal (if j = l then ['1'] else ['0']) = if j = l then 1 else 0
  by_cases hj : j = l
  · rw [if_pos hj, if_pos hj]
    decide
  · rw [if_neg hj, if_neg hj]
    decide

theorem sum_window_le {m k n : Nat} (h : m + k ≤ n) (f : Nat → Nat) :
    ((List.range k).map fun i => f (m + i)).sum ≤ ((List.range n).map f).sum := by
  obtain ⟨r, rfl⟩ := Nat.exists_eq_add_of_le h
  rw [Nat.add_assoc, List.range_add, List.map_append, List.sum_append, List.map_map,
    List.range_add, List.map_append, List.sum_append]
  exact (Nat.le_add_right _ _).trans (Nat.le_add_left _ _)

theorem sum_oneByte {l a n : Nat} (h : a ≤ l) (hn : l < a + n) :
    ((List.range n).map fun i => if a + i = l then 1 else 0).sum = 1 := by
  induction n with
  | zero => omega
  | succ n ih =>
    rw [List.range_succ, List.map_append, List.sum_append, List.map_singleton,
      List.sum_singleton]
    by_cases hlast : a + n = l
    · have hnone : ((List.range n).map fun i => if a + i = l then 1 else 0).sum = 0 := by
        apply List.sum_eq_zero
        intro b hb
        obtain ⟨i, hi, rfl⟩ := List.mem_map.mp hb
        have := List.mem_range.mp hi
        rw [if_neg (by omega)]
      rw [hnone, if_pos hlast]
    · rw [ih (by omega), if_neg hlast]

/-- The entry of the window that is not published when the stamps begin at 000000, come round to
the origin before the finish, or pass 000000 in the window. -/
theorem exists_lost {t m n : Nat} {d : UInt64} (hd : 2 < d.toNat)
    (hn : m + 2 * (d.toNat - 2) ≤ n)
    (h : ¬ (wrapped t m ≠ 0 ∧ wrapped t m + 5 * (2 * (d.toNat - 2) - 1) < 1000000 ∧
      n ≤ m + 200000)) :
    ∃ l, m ≤ l ∧ l < m + 2 * (d.toNat - 2) ∧
      ∀ data : Nat → UInt64, (∀ j, j ≠ l → data j = 0) → ∀ (old : Globals) (k : Int),
        (originAfter t m n : Int) ≤ k →
          (fed t m data (start old d) n).2.mUpload.results.get k = 0 := by
  have hlt := wrapped_lt t m
  by_cases ho : wrapped t m = 0
  · refine ⟨m, le_rfl, by omega, ?_⟩
    intro data hdata old k hk
    have hfive := wrapped_succ_of_zero ho
    have horigin : originAfter t m n = 5 := by
      rw [originAfter, if_neg (by omega), if_neg (by omega), if_neg (by omega), hfive]
    apply fed_get_eq_zero
    intro j _ hj
    apply hdata
    rintro rfl
    omega
  · have horigin : originAfter t m n = wrapped t m := by
      rw [originAfter, if_neg (by omega), if_pos ho]
    rw [horigin]
    by_cases hround : n ≤ m + 200000
    · have hwrap : 1000000 ≤ wrapped t m + 5 * (2 * (d.toNat - 2) - 1) := by
        by_contra hno
        exact h ⟨ho, by omega, hround⟩
      obtain ⟨i, hi⟩ : ∃ i, i = (1000000 - wrapped t m + 4) / 5 := ⟨_, rfl⟩
      refine ⟨m + i, by omega, by omega, ?_⟩
      intro data hdata old k hk
      have hbefore : wrapped t (m + i) < wrapped t m := by
        unfold wrapped at *
        omega
      apply fed_get_eq_zero
      intro j _ hj
      apply hdata
      rintro rfl
      omega
    · refine ⟨m, le_rfl, by omega, ?_⟩
      intro data hdata old k hk
      by_cases hkey : k = wrapped t m
      · rw [hkey]
        exact fed_round ho (fun j hj => hdata j (by omega)) (by omega)
      · apply fed_get_eq_zero
        intro j _ hj
        apply hdata
        rintro rfl
        exact hkey hj

/-- A walk at two million seconds, over steps that fit an `int`, keeps its relative times. -/
theorem clockedAt_finishInput {d : UInt64} {f : Int} {st : Stream} {now : UInt64}
    (hst : st.measurementTimeStart = 0) (hnow : now.toNat = 2000000000000000)
    {steps step : Nat} (h1 : 1 ≤ step) (hle : step ≤ steps) (hint : steps < 2 ^ 31) :
    st.ClockedAt (finishInput d f) steps now step := by
  obtain ⟨lag, hlag⟩ : ∃ lag, lag = UInt64.ofInt (((steps : Int) - step) * 500000000) := ⟨_, rfl⟩
  have hlagInt : (lag.toNat : Int) = ((steps : Int) - step) * 500000000 := by
    rw [hlag, ofInt_toNat (by omega) (by omega)]
  have hns : (now * 1000).toNat = 2000000000000000000 := by
    rw [toNat_ns (by omega), hnow]
  have hsub : (now * 1000 - lag).toNat < 2 ^ 63 := by
    rw [UInt64.toNat_sub_of_le, hns]
    · omega
    · rw [UInt64.le_iff_toNat_le, hns]
      omega
  have hzero : UInt64.ofInt 0 = 0 := rfl
  refine ⟨?_, ?_⟩
  · show ((now - st.measurementTimeStart) * 1000 -
      UInt64.ofInt (((steps : Int) - step) * 500000000)).toNat < 2 ^ 63
    rw [hst, UInt64.sub_zero, ← hlag]
    exact hsub
  · show (now * 1000 - UInt64.ofInt 0 -
      UInt64.ofInt (((steps : Int) - step) * 500000000)).toNat < 2 ^ 63
    rw [hzero, UInt64.sub_zero, ← hlag]
    exact hsub

/-- A window with an entry that is not published is not published whole. -/
theorem not_included {env : Env} (htok : env.tokenize = Libtool.tokenize)
    (hull : env.toULL = Libtool.toULL) {t m n l : Nat} {d : UInt64} (ht : 100000 ≤ t)
    (hd : 2 < d.toNat) (hint : 2 * (d.toNat - 2) < 2 ^ 31) (hl : m ≤ l)
    (hln : l < m + 2 * (d.toNat - 2)) (hn : m + 2 * (d.toNat - 2) ≤ n)
    (hlost : ∀ data : Nat → UInt64, (∀ j, j ≠ l → data j = 0) → ∀ (old : Globals) (k : Int),
      (originAfter t m n : Int) ≤ k → (fed t m data (start old d) n).2.mUpload.results.get k = 0) :
    ¬ Included env t m d n := by
  intro hincluded
  have hregular : Regular t (oneByte t l ht) := fun _ => rfl
  obtain ⟨data, hdata⟩ : ∃ data, data = fun j => Libtool.toULL (oneByte t l ht j).data := ⟨_, rfl⟩
  have hzero (j : Nat) (hj : j ≠ l) : data j = 0 := by
    have hbyte := dataOf_oneByte (l := l) ht j
    rw [if_neg hj] at hbyte
    rw [hdata]
    exact congrArg UInt64.ofNat hbyte
  have hs := processed_eq htok hull ht hregular m (start Globals.default d) n
  rw [← hdata] at hs
  have horigin := (fed_ready t m data Globals.default d n).origin
  have hbins := hlost data hzero Globals.default
  rw [← horigin] at hbins
  obtain ⟨s, hsdef⟩ : ∃ s, s = fed t m data (start Globals.default d) n := ⟨_, rfl⟩
  rw [← hsdef] at hs hbins
  obtain ⟨v, hv⟩ : ∃ v, v = finishInput d s.1.timerIndexUploadFirst := ⟨_, rfl⟩
  obtain ⟨st, hst⟩ : ∃ st : Stream, st =
      { mResponse := 1, data := s.2.mUpload, measurementTimeStart := 0 } := ⟨_, rfl⟩
  have hsteps : maxSteps v = (2 * (d.toNat - 2) : Nat) := by
    rw [hv]
    exact maxSteps_finishInput _ hd hint
  have hfinish : Finish d s v st := by
    refine ⟨?_, ?_, hsteps, ?_⟩
    · rw [hv]
      rfl
    · rw [hv]
      rfl
    · rw [hst]
  have hnone (steps : Nat) : Reference.bytes v steps st = 0 := by
    apply bytes_eq_zero hfinish.testCase
    rw [hfinish.origin, hfinish.data]
    exact hbins
  obtain ⟨now, hnow⟩ : ∃ now : Int → UInt64, ∀ step, (now step).toNat = 2000000000000000 :=
    ⟨fun _ => UInt64.ofNat 2000000000000000, fun _ => UInt64.toNat_ofNat'⟩
  have hsize : (([st].map (Reference.bytesTotal v (2 * (d.toNat - 2)))).sum) < 2 ^ 61 := by
    have hslow := st.data.datasizeSlowStart.toNat_lt
    rw [List.map_singleton, List.sum_singleton, Reference.bytesTotal, hnone,
      Reference.bytesSlowStart]
    omega
  obtain ⟨rs, ps, hwalk, hrefs⟩ := walkSteps_arrays (v := v) hsize (by
    intro step hstep r hr
    rw [List.mem_singleton.mp hr, hv]
    exact clockedAt_finishInput (by rw [hst]) (hnow _) (by omega) (by omega) hint)
  have hcalc : calculateMeasurementResultsDownloadUpload v now [st] = some (rs, ps) := by
    rw [calculateMeasurementResultsDownloadUpload, hsteps, Int.toNat_natCast]
    exact hwalk
  obtain ⟨r, hr⟩ : ∃ r, rs.getLast? = some r := by
    apply Option.isSome_iff_exists.mp
    rw [List.getLast?_isSome]
    intro hnil
    have hlen := hrefs.length_aggregates
    rw [hnil, List.length_nil] at hlen
    omega
  have hbytes : r.bytes.toNat = 0 := by
    rw [last_bytes hsteps hcalc hr (by rw [hnone]; decide), hnone]
  have hwhole : ((List.range n).map (dataOf (oneByte t l ht))).sum = 1 := by
    have hmap : (List.range n).map (dataOf (oneByte t l ht)) =
        (List.range n).map fun i => if 0 + i = l then 1 else 0 := by
      apply List.map_congr_left
      intro i _
      rw [dataOf_oneByte, Nat.zero_add]
    rw [hmap]
    exact sum_oneByte (Nat.zero_le l) (by omega)
  have hle := hincluded _ hregular (by omega) Globals.default s hs v st hfinish now rs ps r hcalc hr
  have hwindow : ((List.range (2 * (d.toNat - 2))).map fun i => dataOf (oneByte t l ht) (m + i)) =
      (List.range (2 * (d.toNat - 2))).map fun i => if m + i = l then 1 else 0 := by
    apply List.map_congr_left
    exact fun i _ => dataOf_oneByte ht (m + i)
  rw [hbytes, hwindow, sum_oneByte hl hln] at hle
  exact absurd hle (by decide)

/-- Which windows are published whole: those without a step, and those whose stamps do not begin
at 000000 or pass it, unless the stamp of the origin comes again before the finish. -/
theorem stampWrap_iff {env : Env} (htok : env.tokenize = Libtool.tokenize)
    (hull : env.toULL = Libtool.toULL) {t m n : Nat} {d : UInt64} (ht : 100000 ≤ t)
    (hint : 2 * (d.toNat - 2) < 2 ^ 31) (hn : m + 2 * (d.toNat - 2) ≤ n) :
    Included env t m d n ↔ d.toNat ≤ 2 ∨
      (t + 5 * m) % 1000000 ≠ 0 ∧
        (t + 5 * m) % 1000000 + 5 * (2 * (d.toNat - 2) - 1) < 1000000 ∧ n ≤ m + 200000 := by
  have hw : (t + 5 * m) % 1000000 = wrapped t m := rfl
  rw [hw]
  constructor
  · intro hincluded
    by_contra hcond
    obtain ⟨hd, hlost⟩ := not_or.mp hcond
    have hd : 2 < d.toNat := Nat.not_le.mp hd
    obtain ⟨l, hl, hln, hzero⟩ := exists_lost hd hn hlost
    exact not_included htok hull ht hd hint hl hln hn hzero hincluded
  · intro hcond es hes hsum old s hs v st hf now rs ps r hcalc hr
    obtain hd | ⟨ho, hwrap, hround⟩ := hcond
    · have hempty : 2 * (d.toNat - 2) = 0 := by omega
      rw [hempty]
      exact Nat.zero_le _
    · by_cases hd : d.toNat ≤ 2
      · have hempty : 2 * (d.toNat - 2) = 0 := by omega
        rw [hempty]
        exact Nat.zero_le _
      obtain rfl := Option.some.inj (hs.symm.trans (processed_eq htok hull ht hes m _ n))
      have hentry (j : Nat) (hj : j < n) : dataOf es j < 2 ^ 61 := by
        have hle : dataOf es j ≤ ((List.range n).map (dataOf es)).sum :=
          List.single_le_sum (by simp) _ (List.mem_map.mpr ⟨j, List.mem_range.mpr hj, rfl⟩)
        omega
      have hdata (j : Nat) (hj : j < n) :
          (Libtool.toULL (es j).data).toNat = dataOf es j := by
        have hlt := hentry j hj
        rw [Libtool.toULL, UInt64.toNat_ofNat', ← dataOf]
        omega
      have hwindow := bytes_window ho (by omega) (by omega) hn hround
        (fun j hj => by rw [hdata j hj]; exact hentry j hj) hf
      have hmap : ((List.range (2 * (d.toNat - 2))).map fun i =>
            (Libtool.toULL (es (m + i)).data).toNat) =
          (List.range (2 * (d.toNat - 2))).map fun i => dataOf es (m + i) := by
        apply List.map_congr_left
        intro i hi
        have := List.mem_range.mp hi
        exact hdata (m + i) (by omega)
      rw [hmap] at hwindow
      have hpart : ((List.range (2 * (d.toNat - 2))).map fun i => dataOf es (m + i)).sum ≤
          ((List.range n).map (dataOf es)).sum := sum_window_le hn (dataOf es)
      rw [last_bytes hf.steps hcalc hr (by omega), hwindow]

theorem stampWrap_iff_100005 : Included Env.default 100000 1 4 5 :=
  (stampWrap_iff rfl rfl (by decide) (by decide) (by decide)).mpr
    (.inr ⟨by decide, by decide, by decide⟩)

/-- One byte with each entry. -/
def eachOneByte (j : Nat) : Entry where
  data := ['1']
  x := ['1']
  time := ['7']
  stamp := Nat.toDigits 10 (999990 + 5 * j)
  nonempty := by decide
  digits := by
    rw [List.all_append, Bool.and_eq_true]
    refine ⟨by decide, ?_⟩
    rw [List.all_eq_true]
    exact fun c hc => Nat.isDigit_of_mem_toDigits (by decide) (by decide) hc
  fields := by decide
  six := by
    by_contra hlt
    have := (Nat.length_toDigits_le_iff (n := 999990 + 5 * j) (b := 10) (k := 5) (by decide)
      (by decide)).mp (by omega)
    omega

/-- Of four entries of one byte from 999990 on, the last step has the bytes of two. -/
theorem stamps_999990_lost : ∃ s rs ps r,
    processed Env.default eachOneByte 0 (start Globals.default 4) 4 = some s ∧
      calculateMeasurementResultsDownloadUpload (finishInput 4 s.1.timerIndexUploadFirst)
        movingClock
        [{ mResponse := 1, data := s.2.mUpload, measurementTimeStart := 0 }] = some (rs, ps) ∧
      rs.getLast? = some r ∧ r.bytes.toNat = 2 :=
  ⟨_, _, _, _, rfl, rfl, rfl, by decide⟩

theorem not_included_999990 : ¬ Included Env.default 999990 0 4 4 := by
  intro h
  obtain ⟨s, rs, ps, r, hs, hcalc, hr, hbytes⟩ := stamps_999990_lost
  have hle := h eachOneByte (fun _ => rfl) (by decide) Globals.default s hs _ _
    ⟨rfl, rfl, maxSteps_finishInput _ (by decide) (by decide), rfl⟩ movingClock rs ps r hcalc hr
  rw [hbytes] at hle
  exact absurd hle (by decide)

end Upload

end IasClient
