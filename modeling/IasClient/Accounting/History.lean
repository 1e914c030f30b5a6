import IasClient.Accounting.DownloadWindow
import IasClient.Accounting.Walk
import IasClient.Control.Series
import IasClient.Framework.Grid

namespace IasClient

open Framework

/-- The bytes of an entry of `download_info` or `download_raw_data`. -/
structure Bytes where
  bytes : UInt64
  bytesDistinct : UInt64
  bytesSlowStart : UInt64
  bytesTotal : UInt64
  deriving DecidableEq

namespace Bytes

def zero : Bytes := ⟨0, 0, 0, 0⟩

def add (a b : Bytes) : Bytes :=
  ⟨a.bytes + b.bytes, a.bytesDistinct + b.bytesDistinct, a.bytesSlowStart + b.bytesSlowStart,
    a.bytesTotal + b.bytesTotal⟩

def sum (l : List Bytes) : Bytes := l.foldl add zero

/-- The sums pass through bits. -/
def overBits (a : Bytes) : Bytes :=
  { a with
    bytes := a.bytes * 8 / 8
    bytesSlowStart := a.bytesSlowStart * 8 / 8
    bytesTotal := a.bytesTotal * 8 / 8 }

end Bytes

def Aggregate.toBytes (a : Aggregate) : Bytes :=
  ⟨a.bytes, a.bytesDistinct, a.bytesSlowStart, a.bytesTotal⟩

def StepSums.toBytes (a : StepSums) : Bytes :=
  ⟨a.bytes, a.bytesDistinct, a.bytesSlowStart, a.bytesTotal⟩

/-- A raw entry: the stream, the time of its step, and the bytes. -/
abbrev RawBytes := Nat × UInt64 × Bytes

def PerStream.toBytes (p : PerStream) : RawBytes :=
  (p.streamId, p.relativeTimeNs, ⟨p.bytes, p.bytesDistinct, p.bytesSlowStart, p.bytesTotal⟩)

/-- What a stream has in the step `step`, from its bins alone. -/
def streamBytes (step : Nat) (m : MeasurementData) : Bytes :=
  let bytes := ((List.range step).map fun i : Nat => m.results.get i / 8).sum
  { bytes := bytes
    bytesDistinct := m.results.get ((step : Int) - 1) / 8
    bytesSlowStart := m.datasizeSlowStart / 8
    bytesTotal := m.datasizeSlowStart / 8 + bytes }

/-- The entries of the first `n` steps, from the bytes `b step` of the streams in each. -/
def infoUpTo (n : Nat) (b : Nat → List Bytes) : List Bytes :=
  (List.range n).map fun s => (Bytes.sum (b (s + 1))).overBits

/-- The raw entries of a step. -/
def rawRow (step : Nat) (bs : List Bytes) : List RawBytes :=
  bs.zipIdx.map fun e => (e.2, UInt64.ofInt ((step : Int) * 500000000), e.1)

def rawUpTo (n : Nat) (b : Nat → List Bytes) : List RawBytes :=
  (List.range n).flatMap fun s => rawRow (s + 1) (b (s + 1))

/-- The bins of a Download stream: none before they are made, and then all of them. -/
structure Binned (d : UInt64) (m : MeasurementData) : Prop where
  low : ∀ e ∈ m.results.entries, 0 ≤ e.1
  dense : m.results = .empty ∨ ∀ k ∈ Download.binKeys d, (m.results.find? k).isSome = true

variable {d : UInt64} {m m' : MeasurementData} {n : Nat}

theorem mem_binKeys {k : Int} : k ∈ Download.binKeys d ↔ 0 ≤ k ∧ k ≤ 2 * d.toNat := by
  simp only [Download.binKeys, List.mem_map, List.mem_range]
  constructor
  · rintro ⟨i, hi, rfl⟩
    omega
  · rintro ⟨h0, h1⟩
    exact ⟨k.toNat, by omega, by omega⟩

theorem Binned.onGrid (h : Binned d m) (hn : n ≤ 2 * d.toNat) :
    OnGrid m.results.entries 0 1 n := by
  refine ⟨h.low, fun e _ _ => Int.one_dvd _, ?_⟩
  rintro i hi ⟨e, he, -⟩
  rcases h.dense with h0 | hall
  · simp [h0, OrdMap.empty] at he
  · have hk : (0 : Int) + 1 * i ∈ Download.binKeys d := by
      rw [mem_binKeys]
      omega
    exact (OrdMap.isSome_find?_iff _ _).mp (hall _ hk)

/-- The first bins by their place are those of the first half seconds. -/
theorem Binned.sum_take (h : Binned d m) (hn : n ≤ 2 * d.toNat) :
    ((m.results.entries.take n).map fun e => e.2 / 8).sum =
      ((List.range n).map fun i : Nat => m.results.get i / 8).sum := by
  rw [(h.onGrid hn).sum_take (· / 8) (by decide) m.results.sorted (Nat.le_refl _)]
  congr 2
  funext i
  rw [Int.zero_add, Int.one_mul, OrdMap.get, OrdMap.find?]
  cases OrdMap.findList (i : Int) m.results.entries <;> rfl

theorem Binned.getElem? (h : Binned d m) (hn : n < 2 * d.toNat) :
    ((m.results.entries[n]?).map fun e => e.2 / 8).getD 0 = m.results.get n / 8 := by
  have hplace := (h.onGrid hn).getElem? (by decide) m.results.sorted (Nat.lt_succ_self n)
  rw [Int.zero_add, Int.one_mul] at hplace
  have hmap : (m.results.entries[n]?).map (fun e => e.2 / 8) =
      (m.results.find? n).map (· / 8) := by
    rw [OrdMap.find?, ← hplace, Option.map_map]
    rfl
  rw [hmap, OrdMap.get]
  cases m.results.find? (n : Int) <;> rfl

/-- The visit of a stream hands over its bytes and adds them to the sums of the step. -/
theorem visitStream_bytes {v : WalkInput} {step j : Nat} {steps : Int} {s : Stream}
    {a a' : StepSums} {p : PerStream} (hv : v.testCase = .download) (hb : Binned d s.data)
    (h1 : 1 ≤ step) (hd : step ≤ 2 * d.toNat) (hc : (step : Int) ≤ steps)
    (h : visitStream v step steps j s a = some (a', p)) :
    p.toBytes = (j, UInt64.ofInt ((step : Int) * 500000000), streamBytes step s.data) ∧
      a'.toBytes = a.toBytes.add (streamBytes step s.data) := by
  have hcounted : counted v s = s.data.results.entries := by
    apply List.filter_eq_self.mpr
    intro e _
    simp [skipped, hv]
  have h1' : (1 : Int) ≤ step := by omega
  have hbytes : bytesUpTo v step s = (streamBytes step s.data).bytes := by
    rw [bytesUpTo, hcounted, Int.toNat_natCast, hb.sum_take hd]
    rfl
  have hdistinct : distinctBytes v step s = (streamBytes step s.data).bytesDistinct := by
    have hnat : ((step : Int) - 1).toNat = step - 1 := by omega
    have hkey : ((step - 1 : Nat) : Int) = (step : Int) - 1 := by omega
    rw [distinctBytes, hcounted, hnat, hb.getElem? (by omega), hkey]
    rfl
  simp only [visitStream, walkBins_bytesUpTo h1' hc, walkBins_distinctBytes h1' hc, hbytes,
    hdistinct, Option.bind_eq_bind, Option.bind_eq_some_iff, Option.some.injEq, Prod.mk.injEq,
    Option.pure_def] at h
  obtain ⟨bytes, hb, bytesDistinct, hd, bytesSlowStart, hs, bytesTotal, ht, -, -, -, -, rfl, rfl⟩ := h
  have hb := eq_of_stoll hb
  have hd := eq_of_stoll hd
  have hs := eq_of_stoll hs
  have ht := eq_of_stoll ht
  constructor
  · rfl
  · simp only [StepSums.toBytes, Bytes.add, hb, hd, hs, ht]
    rfl

/-- The bins of a Download stream at its position. -/
def Worker.Stocked (d : UInt64) (w : Worker) : Prop :=
  Binned d w.mDownload ∧
    match w.pc with
    | .resolve | .setUnreachable | .setHasError | .timestamp | .register | .socket | .request
    | .httpUnreachable | .httpForbidden | .httpHasError | .prepare =>
      w.mDownload.results = .empty ∧ w.mDownload.datasizeSlowStart = 0
    | .catchHasError | .catchRunning | .returned | .aborted => True
    | _ => w.mDownload.results ≠ .empty

/-- The steps up to `i` are the same in both. -/
def Frozen (i : Int) (m m' : MeasurementData) : Prop :=
  ∀ step : Nat, 1 ≤ step → (step : Int) ≤ i → streamBytes step m' = streamBytes step m

theorem frozen_of_get {i : Int}
    (hget : ∀ k : Int, k < i → m'.results.get k = m.results.get k)
    (hslow : 1 ≤ i → m'.datasizeSlowStart = m.datasizeSlowStart) : Frozen i m m' := by
  intro step h1 hi
  have hsum : (List.range step).map (fun j : Nat => m'.results.get j / 8) =
      (List.range step).map fun j : Nat => m.results.get j / 8 := by
    apply List.map_congr_left
    intro j hj
    rw [hget j (by have := List.mem_range.mp hj; omega)]
  simp only [streamBytes, hsum, hget ((step : Int) - 1) (by omega), hslow (by omega)]

theorem Binned.insert (h : Binned d m) {k : Int} (hk : 0 ≤ k) (hne : m.results ≠ .empty)
    {v : UInt64} (hm : m'.results = m.results.insert k v) : Binned d m' := by
  refine ⟨fun e he => ?_, .inr fun i hi => ?_⟩
  · have hsome := (OrdMap.isSome_find?_iff m'.results e.1).mpr ⟨e, he, rfl⟩
    rw [hm, OrdMap.isSome_find?_insert] at hsome
    rcases hsome with rfl | hold
    · exact hk
    · obtain ⟨e', he', hkey⟩ := (OrdMap.isSome_find?_iff _ _).mp hold
      exact hkey ▸ h.low e' he'
  · rw [hm, OrdMap.isSome_find?_insert]
    exact .inr (h.dense.resolve_left hne i hi)

theorem initResults_binned (d : UInt64) (a b : UInt64) :
    Binned d ⟨Download.initResults d .empty, a, b⟩ := by
  have hfind (k : Int) : ((Download.initResults d .empty).find? k).isSome = true ↔
      k ∈ Download.binKeys d := by
    rw [Download.initResults, OrdMap.find?_foldl_insert]
    split_ifs with hk <;> simp [hk]
  refine ⟨fun e he => ?_, .inr fun k hk => (hfind k).mpr hk⟩
  have hsome := (OrdMap.isSome_find?_iff (Download.initResults d .empty) e.1).mpr ⟨e, he, rfl⟩
  exact (mem_binKeys.mp ((hfind e.1).mp hsome)).1

theorem insert_ne_empty (m : OrdMap Int UInt64) (k : Int) (v : UInt64) : m.insert k v ≠ .empty := by
  intro h
  have hself := OrdMap.find?_insert_self m k v
  rw [h] at hself
  simp at hself

theorem initResults_ne_empty (d : UInt64) : Download.initResults d .empty ≠ .empty := by
  intro h
  have hzero : (0 : Int) ∈ Download.binKeys d := by
    rw [mem_binKeys]
    omega
  have hfind : (Download.initResults d .empty).find? 0 = some 0 := by
    rw [Download.initResults, OrdMap.find?_foldl_insert, if_pos hzero]
  rw [h] at hfind
  simp at hfind

variable {env : Env} {o : Outcome} {g g' : Globals} {w w' : Worker}

/-- A step of a stream writes to no bin below TIMER_INDEX, and to the slow-start size only while
TIMER_INDEX is 0. -/
theorem Worker.Stocked.step (hw : w.Stocked d) (hd : g.measurementDuration = d)
    (hi : 0 ≤ g.timerIndex) (h : Worker.run env .download o g w = some (g', w')) :
    w'.Stocked d ∧ Frozen g.timerIndex w.mDownload w'.mDownload := by
  have hsame (m : MeasurementData) : Frozen g.timerIndex m m := fun _ _ _ => rfl
  rcases Worker.run_cases h with ⟨-, rfl, rfl⟩ | h | ⟨-, h⟩
  · exact ⟨⟨hw.1, trivial⟩, hsame _⟩
  · cases hp : w.pc <;> simp only [catchException, hp, Worker.goto] at h
    all_goals try contradiction
    all_goals
      simp only [Option.some.injEq, Prod.mk.injEq] at h
      obtain ⟨rfl, rfl⟩ := h
      exact ⟨⟨hw.1, trivial⟩, hsame _⟩
  obtain ⟨hb, hpc⟩ := hw
  cases hp : w.pc <;> simp only [hp] at hpc <;>
    simp only [Worker.tryBlock, Download.run, connect, receiveLoop, hp, Worker.goto] at h
  all_goals try contradiction
  case prepare =>
    simp only [Option.some.injEq, Prod.mk.injEq] at h
    obtain ⟨rfl, rfl⟩ := h
    rw [hpc.1, hd]
    refine ⟨⟨initResults_binned d _ _, initResults_ne_empty d⟩, frozen_of_get ?_ ?_⟩
    · intro k _
      simp only [Download.initResults, OrdMap.get_foldl_insert_zero, hpc.1, OrdMap.get_empty,
        ite_self]
    · exact fun _ => hpc.2.symm
  case received =>
    split at h
    all_goals
      simp only [Option.some.injEq, Prod.mk.injEq] at h
      obtain ⟨rfl, rfl⟩ := h
    · exact ⟨⟨hb, trivial⟩, hsame _⟩
    · exact ⟨⟨⟨hb.low, hb.dense⟩, hpc⟩, frozen_of_get (fun _ _ => rfl) (fun _ => rfl)⟩
  case addBin =>
    simp only [Option.some.injEq, Prod.mk.injEq] at h
    obtain ⟨rfl, rfl⟩ := h
    refine ⟨⟨hb.insert hi hpc rfl, insert_ne_empty _ _ _⟩, frozen_of_get ?_ (fun _ => rfl)⟩
    intro k hk
    rw [Download.addBin, OrdMap.get_add, if_neg (by omega), add_zero]
  case latch =>
    simp only [Option.some.injEq, Prod.mk.injEq] at h
    obtain ⟨rfl, rfl⟩ := h
    have hres := (DownloadStream.latch_total g.timerIndex w.mResponse w.mDownload).2
    refine ⟨⟨⟨hres ▸ hb.low, hres ▸ hb.dense⟩, hres ▸ hpc⟩, frozen_of_get ?_ ?_⟩
    · exact fun k _ => by rw [hres]
    · intro h1
      rw [Download.latch, if_neg (by omega)]
  all_goals repeat' (split at h)
  all_goals
    simp only [Option.some.injEq, Prod.mk.injEq] at h
    obtain ⟨rfl, rfl⟩ := h
    exact ⟨⟨hb, by first | exact hpc | trivial⟩, hsame _⟩

/-- The published lists hold the steps up to `i` as `b` has them. -/
structure Agree (i : Int) (b : Nat → List Bytes) (rs : List Aggregate) (ps : List PerStream) :
    Prop where
  within : (rs.length : Int) ≤ i → rs.map (·.toBytes) = infoUpTo rs.length b ∧
    ps.map (·.toBytes) = rawUpTo rs.length b
  beyond : i ≤ rs.length → infoUpTo i.toNat b <+: rs.map (·.toBytes) ∧
    rawUpTo i.toNat b <+: ps.map (·.toBytes)

/-- The same inside the step after those in `w.results`, `w.streamId` streams into it. -/
structure Visiting (i : Int) (b : Nat → List Bytes) (w : Walk) : Prop where
  within : (w.results.length : Int) < i →
    w.results.map (·.toBytes) = infoUpTo w.results.length b ∧
    w.perStream.map (·.toBytes) = rawUpTo w.results.length b ++
      rawRow (w.results.length + 1) ((b (w.results.length + 1)).take w.streamId) ∧
    w.sums.toBytes = Bytes.sum ((b (w.results.length + 1)).take w.streamId)
  beyond : i ≤ w.results.length → infoUpTo i.toNat b <+: w.results.map (·.toBytes) ∧
    rawUpTo i.toNat b <+: w.perStream.map (·.toBytes)

section Lists

variable {i : Int} {b b' : Nat → List Bytes} {rs : List Aggregate} {ps : List PerStream} {wk : Walk}

theorem infoUpTo_succ (n : Nat) (b : Nat → List Bytes) : infoUpTo (n + 1) b =
    infoUpTo n b ++ [(Bytes.sum (b (n + 1))).overBits] := by
  simp [infoUpTo, List.range_succ]

theorem rawUpTo_succ (n : Nat) (b : Nat → List Bytes) : rawUpTo (n + 1) b =
    rawUpTo n b ++ rawRow (n + 1) (b (n + 1)) := by
  simp [rawUpTo, List.range_succ]

theorem upTo_prefix {m n : Nat} (h : m ≤ n) (b : Nat → List Bytes) :
    infoUpTo m b <+: infoUpTo n b ∧ rawUpTo m b <+: rawUpTo n b := by
  induction h with
  | refl => exact ⟨List.prefix_refl _, List.prefix_refl _⟩
  | @step n _ ih =>
    rw [infoUpTo_succ, rawUpTo_succ]
    exact ⟨ih.1.trans (List.prefix_append _ _), ih.2.trans (List.prefix_append _ _)⟩

/-- The first steps depend on the first lists only. -/
theorem upTo_congr (h : ∀ step : Nat, 1 ≤ step → (step : Int) ≤ i → b' step = b step) {n : Nat}
    (hn : (n : Int) ≤ i) : infoUpTo n b' = infoUpTo n b ∧ rawUpTo n b' = rawUpTo n b := by
  induction n with
  | zero => exact ⟨rfl, rfl⟩
  | succ n ih =>
    obtain ⟨h1, h2⟩ := ih (by omega)
    rw [infoUpTo_succ, rawUpTo_succ, infoUpTo_succ, rawUpTo_succ, h1, h2,
      h (n + 1) (by omega) hn]
    exact ⟨rfl, rfl⟩

theorem Agree.congr (ha : Agree i b rs ps)
    (h : ∀ step : Nat, 1 ≤ step → (step : Int) ≤ i → b' step = b step) : Agree i b' rs ps where
  within hle := by
    rw [(upTo_congr h hle).1, (upTo_congr h hle).2]
    exact ha.within hle
  beyond hle := by
    by_cases h0 : 0 ≤ i
    · have hi : (i.toNat : Int) ≤ i := by omega
      rw [(upTo_congr h hi).1, (upTo_congr h hi).2]
      exact ha.beyond hle
    · have hi : i.toNat = 0 := by omega
      rw [hi]
      exact ⟨List.nil_prefix, List.nil_prefix⟩

theorem Visiting.congr (hv : Visiting i b wk)
    (h : ∀ step : Nat, 1 ≤ step → (step : Int) ≤ i → b' step = b step) : Visiting i b' wk where
  within hlt := by
    rw [(upTo_congr h (by omega)).1, (upTo_congr h (by omega)).2, h _ (by omega) (by omega)]
    exact hv.within hlt
  beyond hle := by
    by_cases h0 : 0 ≤ i
    · have hi : (i.toNat : Int) ≤ i := by omega
      rw [(upTo_congr h hi).1, (upTo_congr h hi).2]
      exact hv.beyond hle
    · have hi : i.toNat = 0 := by omega
      rw [hi]
      exact ⟨List.nil_prefix, List.nil_prefix⟩

theorem agree_nil (i : Int) (b : Nat → List Bytes) : Agree i b [] [] where
  within _ := ⟨rfl, rfl⟩
  beyond hi := by
    have hi : i.toNat = 0 := by
      rw [List.length_nil] at hi
      omega
    rw [hi]
    exact ⟨List.prefix_refl _, List.prefix_refl _⟩

/-- The head of a step. -/
theorem Agree.visit (h : Agree i b wk.results wk.perStream) (now : UInt64) :
    Visiting i b { wk with streamId := 0, sums := { currentTimestamp := now } } where
  within hlt := by
    obtain ⟨h1, h2⟩ := h.within (by simpa using Int.le_of_lt hlt)
    refine ⟨h1, ?_, rfl⟩
    simpa [rawRow] using h2
  beyond := h.beyond

/-- The visit of one stream. -/
theorem Visiting.next (h : Visiting i b wk) {a : StepSums} {p : PerStream}
    (hp : (wk.results.length : Int) < i → ∃ x, (b (wk.results.length + 1))[wk.streamId]? = some x ∧
      p.toBytes = (wk.streamId,
        UInt64.ofInt (((wk.results.length + 1 : Nat) : Int) * 500000000), x) ∧
      a.toBytes = wk.sums.toBytes.add x) :
    Visiting i b { wk with
      streamId := wk.streamId + 1
      sums := a
      perStream := wk.perStream ++ [p] } where
  within hlt := by
    obtain ⟨h1, h2, h3⟩ := h.within hlt
    obtain ⟨x, hx, hpx, hax⟩ := hp hlt
    have hlen : ((b (wk.results.length + 1)).take wk.streamId).length = wk.streamId := by
      have := (List.getElem?_eq_some_iff.mp hx).1
      rw [List.length_take]
      omega
    have htake : (b (wk.results.length + 1)).take (wk.streamId + 1) =
        (b (wk.results.length + 1)).take wk.streamId ++ [x] := by
      rw [List.take_add_one, hx]
      rfl
    refine ⟨h1, ?_, ?_⟩
    · rw [List.map_append, h2, htake, rawRow, rawRow, List.zipIdx_append, hlen, List.map_append,
        List.append_assoc, List.map_singleton, hpx]
      simp
    · rw [htake, Bytes.sum, List.foldl_append, ← Bytes.sum, ← h3, hax]
      rfl
  beyond hle := by
    obtain ⟨h1, h2⟩ := h.beyond hle
    rw [List.map_append]
    exact ⟨h1, h2.trans (List.prefix_append _ _)⟩

theorem stepResult_toBytes (v : WalkInput) (a : StepSums) :
    (stepResult v a).toBytes = a.toBytes.overBits := rfl

/-- The end of a step. -/
theorem Visiting.stepEnd (h : Visiting i b wk) (v : WalkInput)
    (hall : (b (wk.results.length + 1)).length ≤ wk.streamId) :
    Agree i b (wk.results ++ [stepResult v wk.sums]) wk.perStream := by
  have hdone (hlt : (wk.results.length : Int) < i) :
      (wk.results ++ [stepResult v wk.sums]).map (·.toBytes) = infoUpTo (wk.results.length + 1) b ∧
        wk.perStream.map (·.toBytes) = rawUpTo (wk.results.length + 1) b := by
    obtain ⟨h1, h2, h3⟩ := h.within hlt
    rw [List.take_of_length_le hall] at h2 h3
    rw [List.map_append, List.map_singleton, stepResult_toBytes, infoUpTo_succ, rawUpTo_succ, h1,
      h2, h3]
    exact ⟨rfl, rfl⟩
  refine ⟨fun hle => ?_, fun hle => ?_⟩
  · rw [List.length_append, List.length_singleton] at hle ⊢
    exact hdone (by omega)
  · by_cases hlt : (wk.results.length : Int) < i
    · have hi : i.toNat = wk.results.length + 1 := by
        rw [List.length_append, List.length_singleton] at hle
        omega
      rw [hi, (hdone hlt).1, (hdone hlt).2]
      exact ⟨List.prefix_refl _, List.prefix_refl _⟩
    · obtain ⟨h1, h2⟩ := h.beyond (by omega)
      rw [List.map_append]
      exact ⟨h1.trans (List.prefix_append _ _), h2⟩

/-- What was published up to a step is the beginning of what is published later. -/
theorem Agree.extends (h : Agree i b rs ps) {n : Nat} (hi : (n : Int) ≤ i) (hn : n ≤ rs.length) :
    infoUpTo n b <+: rs.map (·.toBytes) ∧ rawUpTo n b <+: ps.map (·.toBytes) := by
  by_cases hle : (rs.length : Int) ≤ i
  · rw [(h.within hle).1, (h.within hle).2]
    exact upTo_prefix hn b
  · obtain ⟨h1, h2⟩ := h.beyond (by omega)
    obtain ⟨h3, h4⟩ := upTo_prefix (m := n) (n := i.toNat) (by omega) b
    exact ⟨h3.trans h1, h4.trans h2⟩

end Lists

/-- The bytes of the streams in a step. -/
def bytesOf (ws : List Worker) (step : Nat) : List Bytes :=
  ws.map fun w => streamBytes step w.mDownload

/-- What a report or finish has collected so far. -/
def Following (ws : List Worker) (i : Int) (cb : CCallback) (t : Timer) : Prop :=
  match t.pc with
  | .callback c p => c = .report ∨ c = .finish →
    match p with
    | .stepHead | .publish => Agree i (bytesOf ws) t.walk.results t.walk.perStream
    | .visit => Visiting i (bytesOf ws) t.walk
    | .dropError | .dropFlag | .stepEnd =>
      Visiting i (bytesOf ws) t.walk ∧ ws.length ≤ t.walk.streamId
    | .performed | .toPlatform => Agree i (bytesOf ws) cb.jMeasurementResultsDownload
        cb.jMeasurementResultsDownloadStreams
    | _ => True
  | _ => True

section Timer

variable {objects : List Worker} {sh sh' : Shared} {t t' : Timer} {i : Int}

theorem Following.congr {objects' : List Worker} (h : Following objects i sh.cb t)
    (hlen : objects'.length = objects.length)
    (hb : ∀ step : Nat, 1 ≤ step → (step : Int) ≤ i → bytesOf objects' step = bytesOf objects step) :
    Following objects' i sh.cb t := by
  unfold Following at h ⊢
  split
  · rename_i c p hp
    intro hc
    simp only [hp] at h
    have h := h hc
    split
    all_goals simp only at h
    · exact h.congr hb
    · exact h.congr hb
    · exact h.congr hb
    · exact ⟨h.1.congr hb, by rw [hlen]; exact h.2⟩
    · exact ⟨h.1.congr hb, by rw [hlen]; exact h.2⟩
    · exact ⟨h.1.congr hb, by rw [hlen]; exact h.2⟩
    · exact h.congr hb
    · exact h.congr hb
    · trivial
  · trivial

theorem following_resume (c : Call) (t : Timer) (cb : CCallback) :
    Following objects i cb (t.resume c) := by
  cases c <;> simp [Following, Timer.resume, Timer.call]

theorem Following.step_visit (h : Following objects i sh.cb t) {c : Call}
    (hp : t.pc = .callback c .visit) (hc : c = .report ∨ c = .finish)
    (hw : Walked .download (maxSteps sh.g.walkInput) sh.cb t) (hn : sh.g.nTestCase = .download)
    (hi : i ≤ 2 * d.toNat) (hb : ∀ w ∈ objects, Binned d w.mDownload) {w : Worker}
    (hw' : objects[t.walk.streamId]? = some w) {a : StepSums} {p : PerStream}
    (hv : visitStream sh.g.walkInput t.walk.currentStep t.walk.maxSteps t.walk.streamId
      (w.stream sh.g.nTestCase) t.walk.sums = some (a, p)) :
    Visiting i (bytesOf objects) { t.walk with
      streamId := t.walk.streamId + 1
      sums := a
      perStream := t.walk.perStream ++ [p] } := by
  simp only [Following, hp] at h
  simp only [Walked, hp] at hw
  obtain ⟨hmax, hlen, hle⟩ := hw hc
  apply (h hc).next
  intro hlt
  have hcur : t.walk.currentStep = ((t.walk.results.length + 1 : Nat) : Int) := by omega
  have hdata : (w.stream sh.g.nTestCase).data = w.mDownload := by simp [Worker.stream, hn]
  rw [hcur] at hv
  have hbin := hb w (List.mem_of_getElem? hw')
  obtain ⟨h1, h2⟩ := visitStream_bytes (d := d) hn (hdata ▸ hbin) (by omega) (by omega) (by omega) hv
  rw [hdata] at h1 h2
  exact ⟨streamBytes (t.walk.results.length + 1) w.mDownload, by simp [bytesOf, hw'], h1, h2⟩

theorem Following.step_callback (h : Following objects i sh.cb t) {c : Call} {p : CallbackPc}
    (hp : t.pc = .callback c p) (hwf : t.Wf .download)
    (hw : Walked .download (maxSteps sh.g.walkInput) sh.cb t) (hn : sh.g.nTestCase = .download)
    (hi : i ≤ 2 * d.toNat) (hb : ∀ w ∈ objects, Binned d w.mDownload)
    (hs : CCallback.callback env .download objects c p sh t = some (sh', t')) :
    Following objects i sh'.cb t' := by
  have hin := (hwf.called c p hp).2
  have hf := h
  have hres (t : Timer) (cb : CCallback) : Following objects i cb (t.resume c) :=
    following_resume c t cb
  simp only [Following, hp] at h
  cases p <;> simp only [CCallback.callback, Timer.goto] at hs
  case ipTimes | ipResults | ipStopped | rttResults | rttCounters r => simp [CallbackPc.within] at hin
  case visit =>
    split at hs
    · rename_i hnone
      have hle := List.getElem?_eq_none_iff.mp hnone
      split at hs
      all_goals
        simp only [Option.some.injEq, Prod.mk.injEq] at hs
        obtain ⟨rfl, rfl⟩ := hs
        exact fun hc => ⟨h hc, hle⟩
    · rename_i w hw'
      split at hs
      all_goals
        simp only [Option.some.injEq, Prod.mk.injEq] at hs
        obtain ⟨rfl, rfl⟩ := hs
      · trivial
      · simp only [Following, hp]
        exact fun hc => hf.step_visit hp hc hw hn hi hb hw' (by assumption)
  all_goals repeat' (split at hs)
  all_goals
    simp only [Option.some.injEq, Prod.mk.injEq] at hs
    obtain ⟨rfl, rfl⟩ := hs
  case steps => exact fun _ => agree_nil i _
  case stepHead.isTrue => exact fun hc => (h hc).visit sh.g.now
  case stepHead.isFalse => exact fun hc => h hc
  case stepEnd =>
    intro hc
    apply (h hc).1.stepEnd
    simpa [bytesOf] using (h hc).2
  case publish.isFalse =>
    have hpub : publishResults sh.g.nTestCase t.walk sh.cb = { sh.cb with
        jMeasurementResultsDownload := t.walk.results
        jMeasurementResultsDownloadStreams := t.walk.perStream } := by
      rw [hn]
      rfl
    rcases Classical.em (c = .report ∨ c = .finish) with hc | hc
    · have ha := h hc
      rcases hc with rfl | rfl
      all_goals
        simp only [Following, Call.stored, hpub]
        exact fun _ => ha
    · simp only [Following]
      exact fun h => absurd h hc
  case enter.isFalse hne => exact fun hc => absurd hc hne
  all_goals first
    | exact hres _ _
    | trivial
    | exact h
    | simp [Following]

theorem Following.step_timer (h : Following objects i sh.cb t) (hwf : t.Wf .download)
    (hw : Walked .download (maxSteps sh.g.walkInput) sh.cb t) (hn : sh.g.nTestCase = .download)
    (hi : i ≤ 2 * d.toNat) (hb : ∀ w ∈ objects, Binned d w.mDownload)
    (hi' : (∀ c p, t.pc ≠ .callback c p) ∨ sh'.g.timerIndex = i)
    (hs : CTimer.run env .download objects sh t = some (sh', t')) :
    Following objects sh'.g.timerIndex sh'.cb t' := by
  cases hp : t.pc <;> simp only [CTimer.run, hp, Timer.goto] at hs
  case callback c p =>
    have hsame := hi'.resolve_left (by simp [hp])
    rw [hsame]
    exact h.step_callback hp hwf hw hn hi hb hs
  all_goals repeat' (split at hs)
  all_goals try contradiction
  all_goals
    simp only [Option.some.injEq, Prod.mk.injEq] at hs
    obtain ⟨rfl, rfl⟩ := hs
    simp [Following, Timer.call]

/-- TIMER_INDEX and TIMER_DURATION do not decrease. -/
theorem Ticks.grows {n : Nat} (h : Ticks n sh.g t) (hw : Paced n sh.g t)
    (hclock : t.pc = .readTime → (sh.g.now - t.time1).toNat < 2 ^ 31)
    (hs : CTimer.run env k objects sh t = some (sh', t')) :
    sh.g.timerIndex ≤ sh'.g.timerIndex ∧ sh.g.timerDuration ≤ sh'.g.timerDuration := by
  cases CTimer.run_effect hs
  case duration hp _ =>
    have hsub : (sh.g.now - t.time1).toNat = sh.g.now.toNat - t.time1.toNat :=
      UInt64.toNat_sub_of_le _ _ h.time1
    have hread := toInt_of_lt (hclock hp)
    have htime := h.time1
    have hel := h.elapsed
    refine ⟨le_rfl, ?_⟩
    simp only
    omega
  case index hp _ =>
    simp only [Paced, hp] at hw
    have hdur := h.duration
    have hidx := h.index
    have hdiv : (t.timeDiff / 500000).toNat = t.timeDiff.toNat / 500000 := by
      rw [UInt64.toNat_div]
      rfl
    refine ⟨?_, le_rfl⟩
    simp only
    rw [toInt_of_lt (by omega), hdiv]
    omega
  case performed => simp
  all_goals exact ⟨le_rfl, le_rfl⟩

theorem maxSteps_mono {v v' : WalkInput} (hk : v.testCase = .download)
    (hk' : v'.testCase = .download) (h0 : 0 ≤ v.timerDuration) (h1 : v'.timerDuration < 2 ^ 31)
    (hd : v'.measurementDuration = v.measurementDuration)
    (hle : v.timerDuration ≤ v'.timerDuration) : maxSteps v ≤ maxSteps v' := by
  have hcap : capSteps v' = capSteps v := by simp only [capSteps, hk, hk', hd]
  rw [maxSteps_eq (.inl hk) h0 (by omega), maxSteps_eq (.inl hk') (by omega) h1, hcap]
  omega

theorem bytesOf_set {ws : List Worker} {j : Nat} {w w' : Worker} (hj : ws[j]? = some w)
    (hf : Frozen i w.mDownload w'.mDownload) {step : Nat} (h1 : 1 ≤ step) (hi : (step : Int) ≤ i) :
    bytesOf (ws.set j w') step = bytesOf ws step := by
  obtain ⟨hlt, rfl⟩ := List.getElem?_eq_some_iff.mp hj
  have hmap : j < (ws.map fun w => streamBytes step w.mDownload).length := by simpa using hlt
  have hget : streamBytes step ws[j].mDownload =
      (ws.map fun w => streamBytes step w.mDownload)[j] := by simp
  rw [bytesOf, List.map_set, hf step h1 hi, hget, List.set_getElem_self]
  rfl

end Timer

/-- The later message publishes what the earlier one does, and more. -/
def Message.Extends (later earlier : Message) : Prop :=
  earlier.downloadInfo.map (·.toBytes) <+: later.downloadInfo.map (·.toBytes) ∧
    earlier.downloadRawData.map (·.toBytes) <+: later.downloadRawData.map (·.toBytes)

/-- The state in which the main thread waits for `n` Download streams that it has started, with
MEASUREMENT_DURATION `d` and whatever other globals. -/
def downloadStart (env : Env) (g : Globals) (cb : CCallback) (d : UInt64) (n : Nat) (m : Int) :
    Observed :=
  { sys :=
      { sh :=
          { g := { constructTimer g with nTestCase := .download, measurementDuration := d }
            cb := { cb with mTestCase := .download }
            log := [] }
        main := .join .download 0
        phase :=
          { testCase := .download
            timer := { pc := .outerRunning, mInstances := m }
            workers := (List.range n).map fun j => newWorker env .download j cb
            stored := true }
        past := [] } }

/-- The streams and the timer take steps, and the clock is as `Clocked` says; the main thread only
waits. -/
def Downloading (o : Observed) (a : Action) : Prop :=
  (∀ created, a ≠ .main created) ∧ Clocked o.sys a

/-- The streams and the timer of a Download test of `d` seconds. -/
structure Live (d : UInt64) (s : Sys) : Prop where
  nTestCase : s.sh.g.nTestCase = .download
  mTestCase : s.sh.cb.mTestCase = .download
  duration : s.sh.g.measurementDuration = d
  testCase : s.phase.testCase = .download
  stored : s.phase.stored = true
  past : s.past = []
  wf : s.phase.timer.Wf .download
  opened : Opened s.sh.g s.phase.timer
  ticks : Ticks d.toNat s.sh.g s.phase.timer
  paced : Paced d.toNat s.sh.g s.phase.timer
  walked : Walked .download (maxSteps s.sh.g.walkInput) s.sh.cb s.phase.timer
  stocked : ∀ w ∈ s.phase.workers, w.Stocked d
  following : Following s.phase.workers s.sh.g.timerIndex s.sh.cb s.phase.timer

/-- The message holds some steps of the streams, all of them before TIMER_INDEX. -/
def Message.Holds (s : Sys) (m : Message) : Prop :=
  ∃ n : Nat, (n : Int) ≤ s.sh.g.timerIndex ∧ (n : Int) ≤ maxSteps s.sh.g.walkInput ∧
    m.downloadInfo.map (·.toBytes) = infoUpTo n (bytesOf s.phase.workers) ∧
    m.downloadRawData.map (·.toBytes) = rawUpTo n (bytesOf s.phase.workers)

section Phase

variable {s : Sys} {m : Message}

theorem downloadStart_live (env : Env) (g : Globals) (cb : CCallback) (d : UInt64) (n : Nat)
    (m : Int) : Live d (downloadStart env g cb d n m).sys := by
  refine ⟨rfl, rfl, rfl, rfl, rfl, rfl, ?_, ?_, ?_, ?_, ?_, ?_, ?_⟩
  · constructor <;> simp [downloadStart]
  · constructor <;>
      simp [downloadStart, constructTimer, TimerPc.windowOpen, TimerPc.reporting, TimerPc.inner,
        TimerPc.outer]
  · constructor <;> simp [downloadStart, constructTimer]
  · simp [Paced, downloadStart, constructTimer]
  · simp [Walked, downloadStart]
  · intro w hw
    obtain ⟨j, -, rfl⟩ := List.mem_map.mp hw
    refine ⟨⟨?_, .inl rfl⟩, rfl, rfl⟩
    simp [newWorker, OrdMap.empty]
  · simp [Following, downloadStart]

/-- What is handed over continues every message that holds some steps. -/
theorem Live.extends (h : Live d s) {c : Call} (hp : s.phase.timer.pc = .callback c .toPlatform)
    (hc : c = .report ∨ c = .finish) (hm : m.Holds s) :
    (message s.sh.g s.sh.cb c.cmd c.msg c.errorCode c.errorDescription).Extends m := by
  obtain ⟨n, hi, hmax, h1, h2⟩ := hm
  have ha := h.following
  have hw := h.walked
  simp only [Following, hp] at ha
  simp only [Walked, hp] at hw
  have hlen : (s.sh.cb.jMeasurementResultsDownload.length : Int) = maxSteps s.sh.g.walkInput :=
    hw hc
  rw [Message.Extends, h1, h2]
  exact (ha hc).extends hi (by omega)

/-- A report hands over steps before TIMER_INDEX. -/
theorem Live.report_holds (h : Live d s)
    (hp : s.phase.timer.pc = .callback .report .toPlatform) (cmd : Cmd) (msg : String) (code : Int)
    (description : String) : (message s.sh.g s.sh.cb cmd msg code description).Holds s := by
  have ha := h.following
  have hw := h.walked
  have hpace := h.paced
  simp only [Following, hp] at ha
  simp only [Walked, hp] at hw
  simp only [Paced, hp] at hpace
  have hlen : (s.sh.cb.jMeasurementResultsDownload.length : Int) = maxSteps s.sh.g.walkInput :=
    hw (.inl trivial)
  have hsteps := maxSteps_eq (v := s.sh.g.walkInput) (.inl h.nTestCase) h.ticks.duration.1
    h.ticks.duration.2
  have hidx : s.sh.g.timerIndex = s.sh.g.walkInput.timerDuration / 500000 := hpace.2.1
  have hle : (s.sh.cb.jMeasurementResultsDownload.length : Int) ≤ s.sh.g.timerIndex := by
    omega
  exact ⟨_, hle, hlen.le, (ha (.inl trivial)).within hle⟩

theorem Live.step_worker (h : Live d s) {j : Nat} {o : Outcome} {w w' : Worker} {g : Globals}
    (hj : s.phase.workers[j]? = some w)
    (hs : Worker.run env s.phase.testCase o s.sh.g w = some (g, w')) {s' : Sys}
    (hs' : s' = { s with
      sh := { s.sh with g := g }
      phase := { s.phase with workers := s.phase.workers.set j w' } }) :
    Live d s' ∧ (m.Holds s → m.Holds s') := by
  rw [h.testCase] at hs
  have he := Worker.run_effect hs
  obtain ⟨hstop, hdur, hidx⟩ := he.keeps_window (by simp)
  have hmeas := he.keeps_duration (by simp)
  have hmax : maxSteps g.walkInput = maxSteps s.sh.g.walkInput :=
    maxSteps_congr he.kept.nTestCase hdur hmeas
  obtain ⟨hstock, hfrozen⟩ :=
    (h.stocked w (List.mem_of_getElem? hj)).step h.duration h.ticks.index.1 hs
  have hbytes (step : Nat) (h1 : 1 ≤ step) (hi : (step : Int) ≤ s.sh.g.timerIndex) :
      bytesOf (s.phase.workers.set j w') step = bytesOf s.phase.workers step :=
    bytesOf_set hj hfrozen h1 hi
  subst hs'
  refine ⟨⟨he.kept.nTestCase.trans h.nTestCase, h.mTestCase, hmeas.trans h.duration, h.testCase,
    h.stored, h.past, h.wf, h.opened.congr hstop hidx he.grows.running,
    h.ticks.outside (by rw [he.keeps_now]) hdur hidx,
    h.paced.outside hdur hidx hstop he.keeps_timerRunning he.grows.running, ?_, ?_, ?_⟩, ?_⟩
  · simp only [hmax]
    exact h.walked
  · intro x hx
    rcases List.mem_or_eq_of_mem_set hx with hx | rfl
    · exact h.stocked x hx
    · exact hstock
  · simp only [hidx]
    exact h.following.congr (by simp) hbytes
  · rintro ⟨n, hi, hn, h1, h2⟩
    obtain ⟨h3, h4⟩ := upTo_congr hbytes hi
    simp only [Message.Holds, hidx, hmax]
    exact ⟨n, hi, hn, h1.trans h3.symm, h2.trans h4.symm⟩

/-- A step from outside: a stop, or a later reading of the clock. -/
theorem Live.outside (h : Live d s) {g : Globals} (hk : g.nTestCase = s.sh.g.nTestCase)
    (hd : g.measurementDuration = s.sh.g.measurementDuration)
    (hn : s.sh.g.now.toNat ≤ g.now.toNat) (hdur : g.timerDuration = s.sh.g.timerDuration)
    (hidx : g.timerIndex = s.sh.g.timerIndex) (hstop : g.timerStopped = s.sh.g.timerStopped)
    (hrun : g.timerRunning = s.sh.g.timerRunning)
    (hr : s.sh.g.running = false → g.running = false) {s' : Sys}
    (hs' : s' = { s with sh := { s.sh with g := g } }) :
    Live d s' ∧ (m.Holds s → m.Holds s') := by
  have hmax : maxSteps g.walkInput = maxSteps s.sh.g.walkInput := maxSteps_congr hk hdur hd
  subst hs'
  refine ⟨⟨hk.trans h.nTestCase, h.mTestCase, hd.trans h.duration, h.testCase, h.stored, h.past,
    h.wf, h.opened.congr hstop hidx hr, h.ticks.outside hn hdur hidx,
    h.paced.outside hdur hidx hstop hrun hr, ?_, h.stocked, ?_⟩, ?_⟩
  · simp only [hmax]
    exact h.walked
  · simp only [hidx]
    exact h.following
  · simp only [Message.Holds, hidx, hmax]
    exact id

theorem CTimer.run_index {sh sh' : Shared} {t t' : Timer} {objects : List Worker}
    (hs : CTimer.run env k objects sh t = some (sh', t')) :
    (∀ c p, t.pc ≠ .callback c p) ∨ sh'.g.timerIndex = sh.g.timerIndex := by
  cases CTimer.run_effect hs
  case index hp _ => exact .inl (by simp [hp])
  case performed => exact .inr (by simp)
  all_goals exact .inr rfl

theorem Live.step_timer (h : Live d s) {sh : Shared} {t : Timer} (hclock : Clocked s .timer)
    (hs : CTimer.run env s.phase.testCase s.phase.objects s.sh s.phase.timer = some (sh, t))
    {s' : Sys} (hs' : s' = { s with sh := sh, phase := { s.phase with timer := t } }) :
    Live d s' ∧ (m.Holds s → m.Holds s') := by
  have hobjects : s.phase.objects = s.phase.workers := by simp [Phase.objects, h.stored]
  rw [h.testCase, hobjects] at hs
  have hkept := (CTimer.run_effect hs).kept
  have hmeas := (CTimer.run_effect hs).keeps_duration
  obtain ⟨hidx, hdur⟩ := h.ticks.grows h.paced hclock hs
  obtain ⟨hticks, hpaced⟩ := h.ticks.step_timer h.paced (.inl rfl) h.wf h.opened
    (fun _ => congrArg UInt64.toNat h.duration) hclock hs
  have hmax : maxSteps s.sh.g.walkInput ≤ maxSteps sh.g.walkInput :=
    maxSteps_mono h.nTestCase (hkept.nTestCase.trans h.nTestCase) h.ticks.duration.1
      hticks.duration.2 hmeas hdur
  have hbound : s.sh.g.timerIndex ≤ 2 * d.toNat := by
    have := h.ticks.bound
    omega
  subst hs'
  refine ⟨⟨hkept.nTestCase.trans h.nTestCase, hkept.mTestCase.trans h.mTestCase,
    hmeas.trans h.duration, h.testCase, h.stored, h.past, CTimer.run_wf h.mTestCase h.wf hs,
    h.opened.step_timer (.inl rfl) h.wf hs, hticks, hpaced,
    h.walked.step_timer (.inl rfl) h.wf h.nTestCase hs, h.stocked,
    h.following.step_timer (d := d) h.wf h.walked h.nTestCase hbound
      (fun w hw => (h.stocked w hw).1) (CTimer.run_index hs) hs⟩, ?_⟩
  rintro ⟨n, hi, hn, hm⟩
  exact ⟨n, hi.trans hidx, hn.trans hmax, hm⟩

theorem Live.step (h : Live d s) {a : Action} (ha : ∀ created, a ≠ .main created)
    (hclock : Clocked s a) {s' : Sys} (hs : IasClient.step env a s = some s') :
    Live d s' ∧ (m.Holds s → m.Holds s') := by
  cases step_moved (by simp [h.past]) hs with
  | main hm => exact absurd rfl (ha _)
  | timer hstep => exact h.step_timer hclock hstep rfl
  | worker hj hstep => exact h.step_worker hj hstep rfl
  | stop =>
    exact h.outside (g := { s.sh.g with running := false }) rfl rfl le_rfl rfl rfl rfl rfl
      (fun _ => rfl) rfl
  | clock now =>
    exact h.outside (g := { s.sh.g with now := now }) rfl rfl (UInt64.le_iff_toNat_le.mp hclock)
      rfl rfl rfl rfl id rfl

/-- What the reports so far have handed over. -/
structure Recorded (d : UInt64) (o : Observed) : Prop where
  live : Live d o.sys
  reports : ∀ e ∈ o.reports, e.message.Holds o.sys
  finish : o.finishes ≠ [] → .finish ∈ o.sys.phase.timer.calls
  history : o.reports.Pairwise fun e f => f.message.Extends e.message
  finished : ∀ e ∈ o.reports, ∀ f ∈ o.finishes, f.message.Extends e.message

theorem Observed.next_cases {o : Observed} {a : Action} (ha : ∀ created, a ≠ .main created)
    (s : Sys) : o.next a s = { o with sys := s } ∨
      (o.sys.phase.timer.pc = .callback .report .toPlatform ∧
        o.next a s = { o with sys := s, reports := o.reports ++ [o.emission .report] }) ∨
      (o.sys.phase.timer.pc = .callback .finish .toPlatform ∧
        o.next a s = { o with sys := s, finishes := o.finishes ++ [o.emission .finish] }) := by
  unfold Observed.next
  split
  · split
    · exact .inr (.inl ⟨by assumption, rfl⟩)
    · exact .inr (.inr ⟨by assumption, rfl⟩)
    · exact .inl rfl
  · exact absurd rfl (ha _)
  · exact .inl rfl

/-- The timer does not forget its calls. -/
theorem Live.mem_calls (h : Live d s) {a : Action} (ha : ∀ created, a ≠ .main created) {s' : Sys}
    (hs : IasClient.step env a s = some s') {c : Call} (hc : c ∈ s.phase.timer.calls) :
    c ∈ s'.phase.timer.calls := by
  cases step_moved (by simp [h.past]) hs with
  | main hm => exact absurd rfl (ha _)
  | timer hstep =>
    rw [h.testCase] at hstep
    rcases CTimer.run_calls h.wf hstep with heq | ⟨c', heq, -⟩
    · exact heq ▸ hc
    · rw [heq]
      exact List.mem_append_left _ hc
  | worker | stop | clock => exact hc

theorem Recorded.step {o : Observed} {a : Action} {o' : Observed} (h : Recorded d o)
    (ha : Downloading o a) (hs : Observed.step env a o = some o') : Recorded d o' := by
  obtain ⟨hmain, hclock⟩ := ha
  simp only [Observed.step, Option.map_eq_some_iff] at hs
  obtain ⟨s, hs, rfl⟩ := hs
  have hstep (m : Message) : Live d s ∧ (m.Holds o.sys → m.Holds s) := h.live.step hmain hclock hs
  have hlive := (hstep (message o.sys.sh.g o.sys.sh.cb .report "" 0 "")).1
  have hold : ∀ e ∈ o.reports, e.message.Holds s := fun e he => (hstep _).2 (h.reports e he)
  have hcalls : .finish ∈ o.sys.phase.timer.calls → .finish ∈ s.phase.timer.calls :=
    h.live.mem_calls hmain hs
  rcases Observed.next_cases hmain s with heq | ⟨hp, heq⟩ | ⟨hp, heq⟩
  all_goals rw [heq]
  · exact ⟨hlive, hold, fun hf => hcalls (h.finish hf), h.history, h.finished⟩
  · have hnone : o.finishes = [] := by
      by_contra hne
      have hfin := h.live.wf.finish (h.finish hne)
      simp [hp, TimerPc.finishing] at hfin
    have hnew : ∀ e ∈ o.reports, (o.emission .report).message.Extends e.message :=
      fun e he => h.live.extends hp (.inl rfl) (h.reports e he)
    refine ⟨hlive, ?_, fun hf => absurd hnone hf, ?_, by simp [hnone]⟩
    · intro e he
      rcases List.mem_append.mp he with he | he
      · exact hold e he
      · rw [List.mem_singleton.mp he]
        exact (hstep _).2 (h.live.report_holds hp _ _ _ _)
    · refine List.pairwise_append.mpr ⟨h.history, List.pairwise_singleton _ _, ?_⟩
      intro e he f hf
      rw [List.mem_singleton.mp hf]
      exact hnew e he
  · refine ⟨hlive, hold, fun _ => hcalls (h.live.wf.called _ _ hp).1, h.history, ?_⟩
    intro e he f hf
    rcases List.mem_append.mp hf with hf | hf
    · exact h.finished e he f hf
    · rw [List.mem_singleton.mp hf]
      exact h.live.extends hp (.inr rfl) (h.reports e he)

end Phase

/-- In every run of the streams and the timer of a Download test in which the timer reads less than
2^31 microseconds, each report and the finish begin with the entries and raw entries of every
earlier report. -/
theorem published_history (env : Env) (g : Globals) (cb : CCallback) (d : UInt64) (n : Nat) (m : Int)
    {o : Observed}
    (h : Run (Observed.step env) Downloading (downloadStart env g cb d n m) o) :
    o.reports.Pairwise (fun e f => f.message.Extends e.message) ∧
      ∀ e ∈ o.reports, ∀ f ∈ o.finishes, f.message.Extends e.message := by
  have hr : Recorded d o := by
    refine Run.invariant (fun _ _ _ hr ha hs => hr.step ha hs) ?_ h
    exact ⟨downloadStart_live env g cb d n m, by simp [downloadStart], by simp [downloadStart],
      by simp [downloadStart], by simp [downloadStart]⟩
  exact ⟨hr.history, hr.finished⟩

instance (o : Observed) : DecidablePred (Downloading o)
  | .main created => isFalse fun h => h.1 created rfl
  | .timer => decidable_of_iff (Clocked o.sys .timer) ⟨fun h => ⟨by simp, h⟩, fun h => h.2⟩
  | .clock now => decidable_of_iff (Clocked o.sys (.clock now)) ⟨fun h => ⟨by simp, h⟩, fun h => h.2⟩
  | .worker .. | .pastTimer .. | .pastWorker .. | .stop => isTrue ⟨by simp, trivial⟩

/-- 5 bytes before the window, 7 bytes in its first half second, and the report after 1.6 s. -/
def threeSteps : List Action :=
  List.replicate 9 (Action.worker 0 {}) ++ [Action.worker 0 { code := 5 }] ++
    List.replicate 3 (Action.worker 0 {}) ++ List.replicate 19 Action.timer ++
    List.replicate 3 (Action.worker 0 {}) ++ [Action.worker 0 { code := 7 }] ++
    List.replicate 5 (Action.worker 0 {}) ++ [Action.clock 1600000] ++
    List.replicate 24 Action.timer

/-- One stream, for two seconds. -/
def oneDownload : Observed :=
  downloadStart Env.default Globals.default { mTestCase := .download } 2 1 1

set_option maxRecDepth 4000 in
theorem published_history_threeSteps : ∃ o : Observed,
    o.reports.map (·.message.downloadInfo.length) = [3] ∧
    o.finishes.map (·.message.downloadInfo.length) = [4] ∧
    ∀ e ∈ o.reports, ∀ f ∈ o.finishes, f.message.Extends e.message := by
  obtain ⟨o, hrun, h1, h2⟩ : ∃ o, Run (Observed.step Env.default) Downloading oneDownload o ∧
      o.reports.map (·.message.downloadInfo.length) = [3] ∧
      o.finishes.map (·.message.downloadInfo.length) = [4] :=
    ⟨_, run_of_exec (threeSteps ++ .clock 2100000 :: List.replicate 34 .timer) rfl, by decide,
      by decide⟩
  exact ⟨o, h1, h2, (published_history Env.default Globals.default _ 2 1 1 hrun).2⟩

/-- The streams and the timer take steps, and the clock does not run backwards. -/
def Forwards (o : Observed) : Action → Prop
  | .main _ => False
  | .clock now => o.sys.sh.g.now ≤ now
  | _ => True

instance (o : Observed) : DecidablePred (Forwards o)
  | .main _ => isFalse id
  | .clock _ => inferInstanceAs (Decidable (_ ≤ _))
  | .timer | .worker .. | .pastTimer .. | .pastWorker .. | .stop => isTrue trivial

set_option maxRecDepth 4000 in
/-- TIMER_DURATION is an `int`: when the timer reads 4295567296 microseconds, the finish publishes
one step, after a report that published three. -/
theorem history_lost : ∃ o : Observed, Run (Observed.step Env.default) Forwards oneDownload o ∧
    ∃ e ∈ o.reports, ∃ f ∈ o.finishes, ¬ f.message.Extends e.message := by
  obtain ⟨o, hrun, h1, h2⟩ : ∃ o, Run (Observed.step Env.default) Forwards oneDownload o ∧
      o.reports.map (·.message.downloadInfo.length) = [3] ∧
      o.finishes.map (·.message.downloadInfo.length) = [1] :=
    ⟨_, run_of_exec (threeSteps ++ .clock 4295567296 :: List.replicate 22 .timer) rfl, by decide,
      by decide⟩
  obtain ⟨e, he⟩ : ∃ e, e ∈ o.reports := by
    cases hr : o.reports with
    | nil => simp [hr] at h1
    | cons e _ => exact ⟨e, by simp⟩
  obtain ⟨f, hf⟩ : ∃ f, f ∈ o.finishes := by
    cases hr : o.finishes with
    | nil => simp [hr] at h2
    | cons f _ => exact ⟨f, by simp⟩
  have h3 : e.message.downloadInfo.length = 3 := by
    simpa [h1] using List.mem_map_of_mem (f := fun e => e.message.downloadInfo.length) he
  have h4 : f.message.downloadInfo.length = 1 := by
    simpa [h2] using List.mem_map_of_mem (f := fun e => e.message.downloadInfo.length) hf
  refine ⟨o, hrun, e, he, f, hf, fun hext => ?_⟩
  have hlen := hext.1.length_le
  simp [h3, h4] at hlen

end IasClient
