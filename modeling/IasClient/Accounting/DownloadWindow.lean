import IasClient.Model.Download
import IasClient.Model.Libtool
import IasClient.Framework.Run
import IasClient.Framework.Totals
import Mathlib.Data.UInt
import Mathlib.Tactic.Abel

namespace IasClient

open Framework

/-- The positions of Download once the request is answered. -/
def WorkerPc.downloading : WorkerPc → Bool
  | .prepare | .whileRunning | .whileActive | .whileStopped | .receive | .setSynced | .received
  | .ifTimerRunning | .ifHasError | .addBin | .latch | .returned => true
  | _ => false

/-- The positions at which the bits of the iteration are in the total only, or not yet in the
slow-start size. -/
def WorkerPc.accounting : WorkerPc → Bool
  | .ifTimerRunning | .ifHasError | .addBin | .latch => true
  | _ => false

namespace Worker

/-- The total without the bits of an iteration that is still being accounted. -/
def settledTotal (w : Worker) : UInt64 :=
  w.mDownload.datasizeTotal - if w.pc.accounting then UInt64.ofInt w.mResponse else 0

/-- The bins without the bits of an iteration that is still being accounted. -/
def settledBins (w : Worker) : UInt64 :=
  w.mDownload.results.sumWhere (fun _ => true) -
    if w.pc = .latch then UInt64.ofInt w.mResponse else 0

end Worker

/-- A Download stream among the other threads, with the bits of its iterations: early ones that
found TIMER_RUNNING false, and measured ones with their second reading of TIMER_INDEX. -/
structure DownloadStream where
  g : Globals
  w : Worker
  early : List UInt64 := []
  measured : List (UInt64 × Int) := []

/-- A step of the stream, or what the other threads do to the globals. -/
inductive DownloadAction
  | worker (o : Outcome)
  | others (g : Globals)

namespace DownloadStream

def step (a : DownloadAction) (s : DownloadStream) : Option DownloadStream :=
  match a with
  | .worker o => (Download.run o s.g s.w).map fun r =>
    { g := r.1
      w := r.2
      early := if s.w.pc = .ifTimerRunning ∧ s.g.timerRunning = false then
        s.early ++ [UInt64.ofInt s.w.mResponse] else s.early
      measured := if s.w.pc = .latch then
        s.measured ++ [(UInt64.ofInt s.w.mResponse, s.g.timerIndex)] else s.measured }
  | .others g => some { s with g := g }

/-- TIMER_RUNNING turns true only, TIMER_INDEX never decreases, and there is no error. -/
def Admitted (s : DownloadStream) : DownloadAction → Prop
  | .worker _ => True
  | .others g => g.hasError = false ∧ (s.g.timerRunning = true → g.timerRunning = true) ∧
    s.g.timerIndex ≤ g.timerIndex

/-- A stream whose request has been answered, before the window. -/
def start (g : Globals) (w : Worker) : DownloadStream :=
  { g := { g with timerRunning := false, timerIndex := 0, hasError := false }
    w := { w with pc := .prepare, mDownload := {} } }

/-- The bits before each measured iteration whose second reading of TIMER_INDEX was 0. -/
def totals (s : DownloadStream) : List UInt64 :=
  totalsAt (fun m => decide (m.2 = 0)) (·.1) s.early.sum s.measured

/-- Slow-start bits and measured bits are all bits. -/
def Conserved (s : DownloadStream) : Prop :=
  s.w.mDownload.datasizeSlowStart + s.w.mDownload.results.sumWhere (fun _ => true) =
    s.w.mDownload.datasizeTotal

instance (s : DownloadStream) : Decidable s.Conserved := inferInstanceAs (Decidable (_ = _))

instance (s : DownloadStream) : DecidablePred (Admitted s)
  | .worker _ => .isTrue trivial
  | .others _ => inferInstanceAs (Decidable (_ ∧ _ ∧ _))

/-- What holds while the stream receives. -/
structure Counted (s : DownloadStream) : Prop where
  pc : s.w.pc.downloading = true
  hasError : s.g.hasError = false
  index : 0 ≤ s.g.timerIndex
  sorted : s.measured.Pairwise fun m n => m.2 ≤ n.2
  indices : ∀ m ∈ s.measured, 0 ≤ m.2 ∧ m.2 ≤ s.g.timerIndex
  started : s.measured ≠ [] ∨ s.w.pc = .ifHasError ∨ s.w.pc = .addBin ∨ s.w.pc = .latch →
    s.g.timerRunning = true
  fresh : s.w.pc = .prepare → s.early = [] ∧ s.measured = [] ∧ s.w.mDownload.results = .empty
  total : s.w.settledTotal = s.early.sum + (s.measured.map (·.1)).sum
  bins : s.w.settledBins = (s.measured.map (·.1)).sum
  slow : s.w.mDownload.datasizeSlowStart = firstNonzero s.totals

variable {s s' : DownloadStream} {a : DownloadAction}

theorem start_counted (g : Globals) (w : Worker) : Counted (start g w) := by
  constructor <;>
    simp [start, Worker.settledTotal, Worker.settledBins, WorkerPc.downloading,
      WorkerPc.accounting, totals, totalsAt, firstNonzero]

theorem initResults_sum (d : UInt64) :
    (Download.initResults d .empty).sumWhere (fun _ => true) = 0 := by
  apply OrdMap.sumWhere_eq_zero
  intro k _
  rw [Download.initResults, OrdMap.get_foldl_insert_zero, OrdMap.get_empty]
  split_ifs <;> rfl

/-- A step that settles nothing. -/
theorem Counted.move (h : Counted s) {g : Globals} {w : Worker} (he : g.hasError = s.g.hasError)
    (hr : g.timerRunning = s.g.timerRunning) (hi : g.timerIndex = s.g.timerIndex)
    (hdown : w.pc.downloading = true) (hprep : w.pc ≠ .prepare)
    (hstart : w.pc = .ifHasError ∨ w.pc = .addBin ∨ w.pc = .latch → s.g.timerRunning = true)
    (htotal : w.settledTotal = s.w.settledTotal) (hbins : w.settledBins = s.w.settledBins)
    (hslow : w.mDownload.datasizeSlowStart = s.w.mDownload.datasizeSlowStart) :
    Counted { s with g := g, w := w } where
  pc := hdown
  hasError := he.trans h.hasError
  index := hi ▸ h.index
  sorted := h.sorted
  indices := hi ▸ h.indices
  started hs := by
    rw [hr]
    exact hs.elim (fun hm => h.started (.inl hm)) hstart
  fresh hp := absurd hp hprep
  total := htotal.trans h.total
  bins := hbins.trans h.bins
  slow := hslow.trans h.slow

theorem settledTotal_congr {w w' : Worker} (hd : w'.mDownload = w.mDownload)
    (hp : w.pc.accounting = false) (hp' : w'.pc.accounting = false) :
    w'.settledTotal = w.settledTotal ∧ w'.settledBins = w.settledBins := by
  have hl : w.pc ≠ .latch := by
    intro hl
    simp [hl, WorkerPc.accounting] at hp
  have hl' : w'.pc ≠ .latch := by
    intro hl
    simp [hl, WorkerPc.accounting] at hp'
  simp [Worker.settledTotal, Worker.settledBins, hd, hp, hp', hl, hl']

/-- A step outside the accounting. -/
theorem Counted.pass (h : Counted s) {g : Globals} {w : Worker} (he : g.hasError = s.g.hasError)
    (hr : g.timerRunning = s.g.timerRunning) (hi : g.timerIndex = s.g.timerIndex)
    (hd : w.mDownload = s.w.mDownload) (hp : s.w.pc.accounting = false)
    (hp' : w.pc.accounting = false) (hdown : w.pc.downloading = true) (hprep : w.pc ≠ .prepare) :
    Counted { s with g := g, w := w } := by
  obtain ⟨htotal, hbins⟩ := settledTotal_congr hd hp hp'
  refine h.move he hr hi hdown hprep ?_ htotal hbins (by rw [hd])
  rintro (hp | hp | hp) <;> simp [hp, WorkerPc.accounting] at hp'

/-- An iteration that finds TIMER_RUNNING false. -/
theorem Counted.skip (h : Counted s) (hp : s.w.pc = .ifTimerRunning)
    (hr : s.g.timerRunning = false) : Counted { s with
      w := { s.w with pc := .whileRunning }
      early := s.early ++ [UInt64.ofInt s.w.mResponse] } := by
  have hnil : s.measured = [] := by
    by_contra hne
    simp [h.started (.inl hne)] at hr
  have htotal := h.total
  have hbins := h.bins
  simp only [Worker.settledTotal, Worker.settledBins, hp, WorkerPc.accounting, if_true,
    reduceCtorEq, if_false] at htotal hbins
  refine ⟨rfl, h.hasError, h.index, h.sorted, h.indices, ?_, ?_, ?_, ?_, ?_⟩
  · simp [hnil]
  · simp
  · simp only [Worker.settledTotal, WorkerPc.accounting, Bool.false_eq_true, if_false, sub_zero]
    rw [sub_eq_iff_eq_add.mp htotal, hnil]
    simp
  · simpa [Worker.settledBins] using hbins
  · rw [h.slow]
    simp [totals, hnil, totalsAt]

theorem latch_total (index r : Int) (d : MeasurementData) :
    (Download.latch index r d).datasizeTotal = d.datasizeTotal ∧
      (Download.latch index r d).results = d.results := by
  unfold Download.latch
  split_ifs <;> exact ⟨rfl, rfl⟩

/-- The end of a measured iteration. -/
theorem Counted.latch (h : Counted s) (hp : s.w.pc = .latch) : Counted { s with
    w := { s.w with
      mDownload := Download.latch s.g.timerIndex s.w.mResponse s.w.mDownload
      pc := .whileRunning }
    measured := s.measured ++ [(UInt64.ofInt s.w.mResponse, s.g.timerIndex)] } := by
  have htotal := h.total
  have hbins := h.bins
  have hslow := h.slow
  simp only [Worker.settledTotal, Worker.settledBins, hp, WorkerPc.accounting, if_true]
    at htotal hbins
  obtain ⟨hsame, hres⟩ := latch_total s.g.timerIndex s.w.mResponse s.w.mDownload
  refine ⟨rfl, h.hasError, h.index, ?_, ?_, ?_, ?_, ?_, ?_, ?_⟩
  · rw [List.pairwise_append]
    refine ⟨h.sorted, by simp, fun m hm n hn => ?_⟩
    rw [List.mem_singleton.mp hn]
    exact (h.indices m hm).2
  · intro m hm
    rcases List.mem_append.mp hm with hm | hm
    · exact h.indices m hm
    · rw [List.mem_singleton.mp hm]
      exact ⟨h.index, Int.le_refl _⟩
  · exact fun _ => h.started (.inr (.inr (.inr hp)))
  · simp
  · simp only [Worker.settledTotal, WorkerPc.accounting, Bool.false_eq_true, if_false, sub_zero]
    rw [hsame, sub_eq_iff_eq_add.mp htotal]
    simp [add_assoc]
  · simp only [Worker.settledBins, reduceCtorEq, if_false, sub_zero]
    rw [hres, sub_eq_iff_eq_add.mp hbins]
    simp
  · simp only [totals, totalsAt_append]
    by_cases hi : s.g.timerIndex = 0
    · rw [if_pos (by simp [hi]), firstNonzero_append, ← htotal, ← totals, ← hslow, Download.latch]
      by_cases hz : s.w.mDownload.datasizeSlowStart = 0 <;> simp [hi, hz]
    · simp [hi, Download.latch, hslow, totals]

theorem Counted.step_worker (h : Counted s) {o : Outcome} (hs : step (.worker o) s = some s') :
    Counted s' := by
  have hdown := h.pc
  simp only [step, Option.map_eq_some_iff] at hs
  obtain ⟨⟨g, w⟩, hrun, rfl⟩ := hs
  cases hp : s.w.pc <;> simp only [hp, WorkerPc.downloading] at hdown <;> try contradiction
  case prepare =>
    obtain ⟨he, hm, hres⟩ := h.fresh hp
    simp only [Download.run, hp, Option.some.injEq, Prod.mk.injEq] at hrun
    obtain ⟨rfl, rfl⟩ := hrun
    have hzero := initResults_sum s.g.measurementDuration
    refine ⟨rfl, h.hasError, h.index, ?_, ?_, ?_, ?_, ?_, ?_, ?_⟩ <;>
      simp [he, hm, hres, hzero, Worker.settledTotal, Worker.settledBins, WorkerPc.accounting,
        totals, totalsAt, firstNonzero]
  case received =>
    simp only [Download.run, hp, Worker.goto] at hrun
    split at hrun <;> simp only [Option.some.injEq, Prod.mk.injEq] at hrun
    · obtain ⟨rfl, rfl⟩ := hrun
      simp only [reduceCtorEq, false_and, if_false]
      exact h.pass rfl rfl rfl rfl (by rw [hp]; rfl) rfl rfl (by simp)
    · obtain ⟨rfl, rfl⟩ := hrun
      simp only [reduceCtorEq, false_and, if_false]
      refine h.move rfl rfl rfl rfl (by simp) (by simp) ?_ ?_ rfl
      · simp [Worker.settledTotal, Download.addTotal, WorkerPc.accounting, hp]
      · simp [Worker.settledBins, Download.addTotal, hp]
  case ifTimerRunning =>
    simp only [Download.run, hp, Worker.goto, Option.some.injEq, Prod.mk.injEq] at hrun
    obtain ⟨rfl, rfl⟩ := hrun
    cases hr : s.g.timerRunning
    · simp only [true_and, if_true, reduceCtorEq, if_false, Bool.false_eq_true]
      exact h.skip hp hr
    · simp only [reduceCtorEq, and_false, if_false, if_true, Bool.true_eq_false]
      refine h.move rfl rfl rfl rfl (by simp) (fun _ => hr) ?_ ?_ rfl
      · simp [Worker.settledTotal, WorkerPc.accounting, hp]
      · simp [Worker.settledBins, hp]
  case ifHasError =>
    simp only [Download.run, hp, Worker.goto, h.hasError, Bool.false_eq_true, if_false,
      Option.some.injEq, Prod.mk.injEq] at hrun
    obtain ⟨rfl, rfl⟩ := hrun
    simp only [reduceCtorEq, false_and, if_false]
    refine h.move rfl rfl rfl rfl (by simp) (fun _ => h.started (.inr (.inl hp))) ?_ ?_ rfl
    · simp [Worker.settledTotal, WorkerPc.accounting, hp]
    · simp [Worker.settledBins, hp]
  case addBin =>
    simp only [Download.run, hp, Option.some.injEq, Prod.mk.injEq] at hrun
    obtain ⟨rfl, rfl⟩ := hrun
    simp only [reduceCtorEq, false_and, if_false]
    refine h.move rfl rfl rfl rfl (by simp) (fun _ => h.started (.inr (.inr (.inl hp)))) ?_ ?_ rfl
    · simp [Worker.settledTotal, Download.addBin, WorkerPc.accounting, hp]
    · simp [Worker.settledBins, Download.addBin, OrdMap.sumWhere_add, hp]
  case latch =>
    simp only [Download.run, hp, Option.some.injEq, Prod.mk.injEq] at hrun
    obtain ⟨rfl, rfl⟩ := hrun
    simp only [reduceCtorEq, false_and, if_false, if_true]
    exact h.latch hp
  all_goals
    simp only [Download.run, receiveLoop, connect, hp, Worker.goto] at hrun
    repeat' (split at hrun)
  all_goals try contradiction
  all_goals
    simp only [Option.some.injEq, Prod.mk.injEq] at hrun
    obtain ⟨rfl, rfl⟩ := hrun
    simp only [reduceCtorEq, false_and, if_false]
    exact h.pass rfl rfl rfl rfl (by rw [hp]; rfl) rfl rfl (by simp)

theorem Counted.step (h : Counted s) (ha : s.Admitted a) (hs : DownloadStream.step a s = some s') :
    Counted s' := by
  cases a with
  | worker o => exact h.step_worker hs
  | others g =>
    obtain ⟨he, hr, hi⟩ := ha
    simp only [DownloadStream.step, Option.some.injEq] at hs
    subst hs
    refine ⟨h.pc, he, Int.le_trans h.index hi, h.sorted, ?_, fun hs => hr (h.started hs), h.fresh,
      h.total, h.bins, h.slow⟩
    exact fun m hm => ⟨(h.indices m hm).1, Int.le_trans (h.indices m hm).2 hi⟩

theorem run_counted {g : Globals} {w : Worker}
    (h : Run DownloadStream.step Admitted (start g w) s) : Counted s :=
  Run.invariant (fun _ _ _ hc ha hs => hc.step ha hs) (start_counted g w) h

/-- The first measured iteration read the index 0 if any did. -/
theorem Counted.totals_eq (h : Counted s) :
    s.totals = [] ∧ (∀ m ∈ s.measured.head?, m.2 ≠ 0) ∨
      (∃ m ∈ s.measured.head?, m.2 = 0) ∧ ∃ l, s.totals = s.early.sum :: l := by
  cases hm : s.measured with
  | nil => simp [totals, hm, totalsAt]
  | cons m ms =>
    by_cases h0 : m.2 = 0
    · refine .inr ⟨⟨m, by simp, h0⟩,
        totalsAt (fun m => decide (m.2 = 0)) (·.1) (s.early.sum + m.1) ms, ?_⟩
      simp [totals, hm, totalsAt, h0]
    · refine .inl ⟨?_, by simpa using h0⟩
      by_contra hne
      obtain ⟨n, hn, hn0⟩ := exists_of_totalsAt_ne_nil hne
      have hidx := h.indices m (by simp [hm])
      have hle : m.2 ≤ n.2 := by
        have hsorted := h.sorted
        rw [hm] at hn hsorted
        rcases List.mem_cons.mp hn with rfl | hn
        · exact Int.le_refl _
        · exact (List.pairwise_cons.mp hsorted).1 n hn
      simp only [decide_eq_true_eq] at hn0
      omega

/-- In every run, between two iterations: the slow-start bits and the measured bits are all bits
exactly when either bits came before the window and the first measured iteration read TIMER_INDEX 0
last, or none came, nor any before a measured iteration that read it so. -/
theorem download_conserved_iff (g : Globals) (w : Worker)
    (h : Run DownloadStream.step Admitted (start g w) s) (hpc : s.w.pc.accounting = false) :
    s.Conserved ↔ (s.early.sum ≠ 0 ∧ ∃ m ∈ s.measured.head?, m.2 = 0) ∨
      (s.early.sum = 0 ∧ ∀ p ∈ s.totals, p = 0) := by
  have hc := run_counted h
  have hne : s.w.pc ≠ .latch := by
    intro hp
    simp [hp, WorkerPc.accounting] at hpc
  have htotal := hc.total
  have hbins := hc.bins
  simp only [Worker.settledTotal, Worker.settledBins, hpc, hne, Bool.false_eq_true, if_false,
    sub_zero] at htotal hbins
  unfold Conserved
  rw [htotal, hbins, hc.slow, add_left_inj]
  rcases hc.totals_eq with ⟨hnil, hno⟩ | ⟨hfirst, l, hl⟩
  · rw [hnil]
    constructor
    · intro hz
      exact .inr ⟨by simpa [firstNonzero] using hz.symm, by simp⟩
    · rintro (⟨-, m, hm, hm0⟩ | ⟨hz, -⟩)
      · exact absurd hm0 (hno m hm)
      · simp [firstNonzero, hz]
  · by_cases hz : s.early.sum = 0
    · rw [hz, firstNonzero_eq_zero_iff]
      simp
    · have hfn : firstNonzero s.totals = s.early.sum := by simp [hl, firstNonzero, hz]
      constructor
      · exact fun _ => .inl ⟨hz, hfirst⟩
      · exact fun _ => hfn

/-- The steps of an iteration that receives `code` bytes, up to its read of TIMER_RUNNING. -/
def chunk (code : Int) : List DownloadAction :=
  List.replicate 3 (DownloadAction.worker {}) ++ .worker { code := code } ::
    List.replicate 2 (DownloadAction.worker {})

/-- The globals of a running test, at the index `index` of the window. -/
def inWindow (running : Bool) (index : Int) : DownloadAction :=
  .others { Globals.default with timerActive := true, timerRunning := running, timerIndex := index }

/-- 5 bytes before the window, then 7 bytes at the index `index`. -/
def earlyThenMeasured (index : Int) : List DownloadAction :=
  inWindow false 0 :: .worker {} ::
    (List.replicate 3 (DownloadAction.worker {}) ++
      .worker { code := 5 } :: List.replicate 3 (DownloadAction.worker {}) ++
      inWindow true index :: (chunk 7 ++ List.replicate 3 (.worker {})))

theorem download_conserved_iff_firstHalfSecond : ∃ s : DownloadStream,
    s.early = [40] ∧ s.measured = [(56, 0)] ∧ s.Conserved := by
  have h := download_conserved_iff Globals.default { pc := .prepare, pid := 0 }
    (run_of_exec (earlyThenMeasured 0) rfl) (by decide)
  exact ⟨_, by decide, by decide, h.mpr (.inl ⟨by decide, by decide⟩)⟩

/-- The first measured chunk comes after the first half second: the slow start is lost. -/
theorem secondHalfSecond_not_conserved : ∃ s : DownloadStream,
    Run DownloadStream.step Admitted (start Globals.default { pc := .prepare, pid := 0 }) s ∧
    s.w.pc.accounting = false ∧ s.early = [40] ∧ s.measured = [(56, 1)] ∧ ¬ s.Conserved :=
  ⟨_, run_of_exec (earlyThenMeasured 1) rfl, by decide, by decide, by decide, by decide⟩

end DownloadStream

end IasClient
