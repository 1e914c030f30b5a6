import IasClient.Framework.Multiples
import IasClient.Accounting.Walk
import IasClient.Control.Series
import Mathlib.Tactic.Ring

namespace IasClient

open Framework

theorem eight_dvd_wrapInt {x : Int} (h : 8 ∣ x) : 8 ∣ wrapInt x := by
  have hmod : (8 : Int) ∣ ((4294967296 : Nat) : Int) := by decide
  have hwrap : 8 ∣ wrapInt x - x := hmod.trans Int.dvd_bmod_sub_self
  have hsum := dvd_add hwrap h
  rwa [Int.sub_add_cancel] at hsum

/-- Bits that overflow are still a multiple of 8. -/
theorem Download.eight_dvd_bits (r records overhead : Int) :
    8 ∣ Download.bits r records overhead := by
  apply eight_dvd_wrapInt
  exact Int.dvd_mul_left _ 8

theorem eight_dvd_ofInt {x : Int} (h : 8 ∣ x) : (8 : UInt64) ∣ UInt64.ofInt x := by
  obtain ⟨c, rfl⟩ := h
  rw [UInt64.ofInt_mul]
  exact dvd_mul_right _ _

/-- A response counted in bits that Download has not stored yet. -/
def WorkerPc.inBits : WorkerPc → Bool
  | .ifTimerRunning | .ifHasError | .addBin => true
  | _ => false

/-- The sizes that a stream has stored, or is about to store, are whole bytes. -/
structure Worker.WholeBytes (w : Worker) : Prop where
  download : w.mDownload.results.Multiples 8
  upload : w.upload.mUpload.results.Multiples 8
  nDataRecv : 8 ∣ w.upload.nDataRecv
  mResponse : w.pc.inBits = true → 8 ∣ w.mResponse

variable {env : Env} {k : TestCase} {o : Outcome} {g g' : Globals} {w w' : Worker}

theorem newWorker_wholeBytes (env : Env) (k : TestCase) (j : Nat) (cb : CCallback) :
    (newWorker env k j cb).WholeBytes := by
  refine ⟨.empty 8, .empty 8, dvd_zero 8, ?_⟩
  cases k <;> nofun

namespace Worker.WholeBytes

/-- Where the sizes are not touched. -/
theorem keep (h : w.WholeBytes) (hd : w'.mDownload = w.mDownload) (hu : w'.upload = w.upload)
    (hp : w'.pc.inBits = false) : w'.WholeBytes := by
  refine ⟨hd ▸ h.download, hu ▸ h.upload, hu ▸ h.nDataRecv, fun hin => ?_⟩
  rw [hp] at hin
  contradiction

theorem connect {forbids : Bool} {next : WorkerPc} (h : w.WholeBytes) (hn : next.inBits = false)
    (hs : connect forbids next o g w = some (g', w')) : w'.WholeBytes := by
  cases hp : w.pc <;> simp only [IasClient.connect, hp, Worker.goto] at hs
  all_goals try contradiction
  all_goals repeat' (split at hs)
  all_goals
    obtain ⟨-, rfl⟩ := Prod.mk.inj (Option.some.inj hs)
    refine h.keep rfl rfl ?_
    first | rfl | exact hn

theorem receiveLoop {leave : WorkerPc} (h : w.WholeBytes) (hl : leave.inBits = false)
    (hs : receiveLoop leave o g w = some (g', w')) : w'.WholeBytes := by
  cases hp : w.pc <;> simp only [IasClient.receiveLoop, hp, Worker.goto] at hs
  all_goals try contradiction
  all_goals
    obtain ⟨-, rfl⟩ := Prod.mk.inj (Option.some.inj hs)
    refine h.keep rfl rfl ?_
    first | rfl | (split <;> first | exact hl | rfl)

theorem download_run (h : w.WholeBytes) (hs : Download.run o g w = some (g', w')) :
    w'.WholeBytes := by
  cases hp : w.pc <;> simp only [Download.run, hp, Worker.goto] at hs
  all_goals try with_reducible exact h.connect rfl hs
  all_goals try with_reducible exact h.receiveLoop rfl hs
  case received =>
    split at hs <;> obtain ⟨-, rfl⟩ := Prod.mk.inj (Option.some.inj hs)
    · exact h.keep rfl rfl rfl
    · exact ⟨h.download, h.upload, h.nDataRecv, fun _ => Download.eight_dvd_bits _ _ _⟩
  all_goals obtain ⟨-, rfl⟩ := Prod.mk.inj (Option.some.inj hs)
  case prepare =>
    exact ⟨h.download.foldl_insert_zero _, h.upload, h.nDataRecv,
      fun hin => absurd hin Bool.false_ne_true⟩
  case ifTimerRunning =>
    exact ⟨h.download, h.upload, h.nDataRecv, fun _ => h.mResponse (by rw [hp]; rfl)⟩
  case ifHasError =>
    exact ⟨h.download, h.upload, h.nDataRecv, fun _ => h.mResponse (by rw [hp]; rfl)⟩
  case addBin =>
    have hbits : (8 : UInt64) ∣ UInt64.ofInt w.mResponse :=
      eight_dvd_ofInt (h.mResponse (by rw [hp]; rfl))
    exact ⟨h.download.add hbits _, h.upload, h.nDataRecv, fun hin => absurd hin Bool.false_ne_true⟩
  case latch =>
    refine ⟨?_, h.upload, h.nDataRecv, fun hin => absurd hin Bool.false_ne_true⟩
    simp only [Download.latch]
    split <;> exact h.download

theorem upload_run (h : w.WholeBytes) (hs : Upload.run env o g w = some (g', w')) :
    w'.WholeBytes := by
  have unchanged {u : UploadData} {pc : WorkerPc} (hu : u.mUpload.results.Multiples 8)
      (hn : 8 ∣ u.nDataRecv) (hpc : pc.inBits = false) :
      Worker.WholeBytes { w with upload := u, pc := pc } :=
    ⟨h.download, hu, hn, fun hin => by rw [hpc] at hin; contradiction⟩
  cases hp : w.pc <;> simp only [Upload.run, hp, Worker.goto] at hs
  all_goals try with_reducible exact h.connect rfl hs
  all_goals try with_reducible exact h.receiveLoop rfl hs
  case store =>
    split at hs <;> obtain ⟨-, rfl⟩ := Prod.mk.inj (Option.some.inj hs)
    · exact unchanged (h.upload.insert h.nDataRecv _) h.nDataRecv rfl
    · exact unchanged (h.upload.add h.nDataRecv _) h.nDataRecv rfl
  case grid =>
    obtain ⟨-, rfl⟩ := Prod.mk.inj (Option.some.inj hs)
    exact unchanged (h.upload.foldl_insert_zero _) h.nDataRecv rfl
  case latchFirst =>
    obtain ⟨-, rfl⟩ := Prod.mk.inj (Option.some.inj hs)
    simp only [Upload.latch]
    split <;> exact unchanged h.upload h.nDataRecv rfl
  case prepare =>
    obtain ⟨-, rfl⟩ := Prod.mk.inj (Option.some.inj hs)
    exact unchanged h.upload h.nDataRecv rfl
  case nextToken =>
    split at hs
    · obtain ⟨-, rfl⟩ := Prod.mk.inj (Option.some.inj hs)
      exact h.keep rfl rfl rfl
    · split at hs <;> obtain ⟨-, rfl⟩ := Prod.mk.inj (Option.some.inj hs)
      case h_2 data stamp _ =>
        exact ⟨h.download, h.upload, Dvd.intro_left data rfl,
          fun hin => absurd hin Bool.false_ne_true⟩
      all_goals exact h.keep rfl rfl rfl
  all_goals repeat' (split at hs)
  all_goals try contradiction
  all_goals obtain ⟨-, rfl⟩ := Prod.mk.inj (Option.some.inj hs)
  all_goals exact h.keep rfl rfl rfl

/-- The invariant of the sizes is one of every step of a thread. -/
theorem step (h : w.WholeBytes) (hs : Worker.run env k o g w = some (g', w')) :
    w'.WholeBytes := by
  rcases Worker.run_cases hs with ⟨-, rfl, rfl⟩ | hs | ⟨-, hs⟩
  · exact h.keep rfl rfl rfl
  · cases hp : w.pc <;> simp only [catchException, hp, Worker.goto] at hs
    all_goals try contradiction
    all_goals
      obtain ⟨-, rfl⟩ := Prod.mk.inj (Option.some.inj hs)
      exact h.keep rfl rfl rfl
  · cases k with
    | ip =>
      replace hs : Ip.run env o g w = some (g', w') := hs
      cases hp : w.pc <;> simp only [Ip.run, hp, Worker.goto] at hs
      all_goals try with_reducible exact h.connect rfl hs
      all_goals try with_reducible exact h.receiveLoop rfl hs
      all_goals repeat' (split at hs)
      all_goals
        obtain ⟨-, rfl⟩ := Prod.mk.inj (Option.some.inj hs)
        exact h.keep rfl rfl rfl
    | rttUdp =>
      replace hs : Ping.run env o g w = some (g', w') := hs
      cases hp : w.pc <;> simp only [Ping.run, hp, Worker.goto] at hs
      all_goals try contradiction
      all_goals repeat' (split at hs)
      all_goals
        obtain ⟨-, rfl⟩ := Prod.mk.inj (Option.some.inj hs)
        exact h.keep rfl rfl rfl
    | download => exact h.download_run hs
    | upload => exact h.upload_run hs

end Worker.WholeBytes

section Walk

variable {v : WalkInput} {step steps : Int} {skip : Int → Bool}

/-- What the walk over the bins of a stream does with the one of ordinal `i`. -/
def BinSums.count (step i : Int) (bits : UInt64) (b : BinSums) : BinSums :=
  let b :=
    if i ≤ step then { b with bins := b.bins.add i bits, bytes := b.bytes + bits / 8 } else b
  if i = step then { b with bytesDistinct := bits / 8 } else b

theorem walkBins_cons (l : List (Int × UInt64)) (i : Int) (b : BinSums) (e : Int × UInt64) :
    walkBins skip step steps (e :: l) i b =
      if skip e.1 then walkBins skip step steps l i b
      else if i = steps then b.count step i e.2
      else walkBins skip step steps l (i + 1) (b.count step i e.2) :=
  rfl

/-- Of whole bytes the bits added to the bins are the eightfold of the bytes. -/
theorem BinSums.count_sum {bits : UInt64} (h : 8 ∣ bits) (i : Int) (b : BinSums) :
    ∃ n, (b.count step i bits).bytes = b.bytes + n ∧
      (b.count step i bits).bins.values.sum = b.bins.values.sum + n * 8 := by
  have hbits : bits / 8 * 8 = bits := div_mul_of_dvd (by decide) h
  by_cases hi : i ≤ step
  · refine ⟨bits / 8, ?_, ?_⟩
    · simp only [count, hi, if_true]
      split <;> rfl
    · rw [hbits, ← OrdMap.sum_values_add b.bins i bits]
      simp only [count, hi, if_true]
      split <;> rfl
  · have hne : i ≠ step := fun h => hi (Int.le_of_eq h)
    refine ⟨0, ?_, ?_⟩
    · simp only [count, hi, hne, if_false, add_zero]
    · simp only [count, hi, hne, if_false, zero_mul, add_zero]

theorem BinSums.count_keys {i : Int} {b : BinSums} (bits : UInt64) (hi : 1 ≤ i)
    (hb : ∀ e ∈ b.bins.entries, 1 ≤ e.1 ∧ e.1 ≤ step) :
    ∀ e ∈ (b.count step i bits).bins.entries, 1 ≤ e.1 ∧ e.1 ≤ step := by
  have hadd : i ≤ step → ∀ e ∈ (b.bins.add i bits).entries, 1 ≤ e.1 ∧ e.1 ≤ step := by
    intro hle e he
    rcases OrdMap.mem_insertList he with rfl | he
    · exact ⟨hi, hle⟩
    · exact hb e he
  by_cases hle : i ≤ step
  · simp only [count, hle, if_true]
    split <;> exact hadd hle
  · have hne : i ≠ step := fun h => hle (Int.le_of_eq h)
    simp only [count, hle, hne, if_false]
    exact hb

/-- What the walk over the bins of a stream adds to the bins is the eightfold of the bytes. -/
theorem walkBins_sum {l : List (Int × UInt64)} (hl : ∀ e ∈ l, 8 ∣ e.2) (i : Int) (b : BinSums) :
    ∃ n, (walkBins skip step steps l i b).bytes = b.bytes + n ∧
      (walkBins skip step steps l i b).bins.values.sum = b.bins.values.sum + n * 8 := by
  induction l generalizing i b with
  | nil => exact ⟨0, (add_zero _).symm, by rw [zero_mul, add_zero]; rfl⟩
  | cons e l ih =>
    have hrest : ∀ e ∈ l, 8 ∣ e.2 := fun e he => hl e (List.mem_cons_of_mem _ he)
    obtain ⟨n, hbytes, hsum⟩ := BinSums.count_sum (hl e List.mem_cons_self) i b
    rw [walkBins_cons]
    split
    · exact ih hrest i b
    · split
      · exact ⟨n, hbytes, hsum⟩
      · obtain ⟨m, hbytes', hsum'⟩ := ih hrest (i + 1) (b.count step i e.2)
        refine ⟨n + m, ?_, ?_⟩
        · rw [hbytes', hbytes, add_assoc]
        · rw [hsum', hsum, add_mul, add_assoc]

/-- The walk writes under the ordinals 1 to `step` alone. -/
theorem walkBins_keys {l : List (Int × UInt64)} {i : Int} {b : BinSums} (hi : 1 ≤ i)
    (hb : ∀ e ∈ b.bins.entries, 1 ≤ e.1 ∧ e.1 ≤ step) :
    ∀ e ∈ (walkBins skip step steps l i b).bins.entries, 1 ≤ e.1 ∧ e.1 ≤ step := by
  induction l generalizing i b with
  | nil => exact hb
  | cons e l ih =>
    have hcount := BinSums.count_keys e.2 hi hb
    rw [walkBins_cons]
    split
    · exact ih hi hb
    · split
      · exact hcount
      · exact ih (by omega) hcount

/-- `measurement_aggregate.download.datasize` or `upload.datasize` of a step. -/
def StepSums.datasize (a : StepSums) : UInt64 := a.bytes * 8

/-- The sums of a step while its streams are visited. -/
structure StepSums.Balanced (step : Int) (a : StepSums) : Prop where
  keys : ∀ e ∈ a.bins.entries, 1 ≤ e.1 ∧ e.1 ≤ step
  sum : a.bins.values.sum = a.datasize

theorem StepSums.balanced_start (step : Int) (now : UInt64) :
    StepSums.Balanced step { currentTimestamp := now } :=
  ⟨nofun, rfl⟩

variable {j : Nat} {x : Stream} {a a' : StepSums} {p : PerStream}

theorem StepSums.Balanced.visitStream (ha : a.Balanced step) (hx : x.data.results.Multiples 8)
    (h : visitStream v step steps j x a = some (a', p)) : a'.Balanced step := by
  simp only [IasClient.visitStream, Option.bind_eq_bind, Option.bind_eq_some_iff,
    Option.some.injEq, Prod.mk.injEq, Option.pure_def] at h
  obtain ⟨bytes, hb, -, -, -, -, -, -, -, -, -, -, rfl, -⟩ := h
  have hb := eq_of_stoll hb
  refine ⟨walkBins_keys (le_refl 1) ha.keys, ?_⟩
  obtain ⟨n, hbytes, hsum⟩ := walkBins_sum hx 1 { bins := a.bins }
  rw [hbytes, zero_add] at hb
  show _ = (a.bytes + bytes) * 8
  rw [hsum, ha.sum, StepSums.datasize, hb, add_mul]

theorem StepSums.Balanced.visitStreams {xs : List Stream} {ps : List PerStream}
    (ha : a.Balanced step) (hxs : ∀ x ∈ xs, x.data.results.Multiples 8)
    (h : visitStreams v step steps j xs a = some (a', ps)) : a'.Balanced step := by
  induction xs generalizing j a ps with
  | nil =>
    simp only [IasClient.visitStreams, Option.some.injEq, Prod.mk.injEq] at h
    exact h.1 ▸ ha
  | cons x xs ih =>
    simp only [IasClient.visitStreams, Option.bind_eq_bind, Option.bind_eq_some_iff,
      Option.some.injEq, Prod.mk.injEq, Option.pure_def, Prod.exists] at h
    obtain ⟨a₁, p, hx, a₂, ps', hrest, rfl, -⟩ := h
    have ha₁ := ha.visitStream (hxs x List.mem_cons_self) hx
    exact ih ha₁ (fun y hy => hxs y (List.mem_cons_of_mem _ hy)) hrest

/-- The bins handed to `CTool::calculateResults` in the step `step` against the sizes of the entry
published for it. -/
structure StepSums.Agrees (v : WalkInput) (step : Int) (a : StepSums) : Prop where
  keys : ∀ e ∈ a.bins.entries, 1 ≤ e.1 ∧ e.1 ≤ step
  sum : a.bins.values.sum = a.datasize
  datasize : a.datasize = 8 * (stepResult v a).bytes
  exact : (a.bins.values.map UInt64.toNat).sum < 2 ^ 64 →
    (a.bins.values.map UInt64.toNat).sum = 8 * (stepResult v a).bytes.toNat

theorem StepSums.Balanced.agrees (ha : a.Balanced step) (v : WalkInput) : a.Agrees v step := by
  have hdvd : (8 : UInt64) ∣ a.datasize := Dvd.intro_left a.bytes rfl
  have hbytes : (stepResult v a).bytes = a.datasize / 8 := rfl
  refine ⟨ha.keys, ha.sum, ?_, fun hlt => ?_⟩
  · rw [hbytes, mul_comm, div_mul_of_dvd (by decide) hdvd]
  · have hnat : 8 ∣ a.datasize.toNat := (dvd_iff_toNat_dvd (by decide)).mp hdvd
    calc (a.bins.values.map UInt64.toNat).sum = a.bins.values.sum.toNat := (toNat_sum hlt).symm
      _ = a.datasize.toNat := by rw [ha.sum]
      _ = 8 * (a.datasize.toNat / 8) := (Nat.mul_div_cancel' hnat).symm
      _ = 8 * (stepResult v a).bytes.toNat := by rw [hbytes, UInt64.toNat_div]; rfl

end Walk

/-- The sums of a callback inside a step, with the entries of the steps before it. -/
def Timer.Balanced (t : Timer) : Prop :=
  match t.pc with
  | .callback _ .stepHead => (t.walk.results.length : Int) + 1 = t.walk.currentStep
  | .callback _ .visit | .callback _ .dropError | .callback _ .dropFlag | .callback _ .stepEnd =>
    (t.walk.results.length : Int) + 1 = t.walk.currentStep ∧
      t.walk.sums.Balanced t.walk.currentStep
  | _ => True

theorem Worker.WholeBytes.stream (h : w.WholeBytes) (k : TestCase) :
    (w.stream k).data.results.Multiples 8 := by
  simp only [Worker.stream]
  split
  · exact h.upload
  · exact h.download

variable {sender : TestCase} {objects : List Worker} {sh sh' : Shared} {t t' : Timer}

theorem Timer.Balanced.callback {c : Call} {p : CallbackPc} (h : t.Balanced)
    (hobjects : ∀ w ∈ objects, w.WholeBytes) (hp : t.pc = .callback c p)
    (hs : CCallback.callback env sender objects c p sh t = some (sh', t')) : t'.Balanced := by
  cases p <;> simp only [CCallback.callback, Timer.goto] at hs <;>
    simp only [Timer.Balanced, hp] at h
  case enter =>
    split at hs
    · split at hs <;> obtain ⟨-, rfl⟩ := Prod.mk.inj (Option.some.inj hs) <;> trivial
    · obtain ⟨-, rfl⟩ := Prod.mk.inj (Option.some.inj hs)
      trivial
  case steps =>
    obtain ⟨-, rfl⟩ := Prod.mk.inj (Option.some.inj hs)
    rfl
  case stepHead =>
    split at hs <;> obtain ⟨-, rfl⟩ := Prod.mk.inj (Option.some.inj hs)
    · exact ⟨h, StepSums.balanced_start _ _⟩
    · trivial
  case visit =>
    split at hs
    · split at hs <;> obtain ⟨-, rfl⟩ := Prod.mk.inj (Option.some.inj hs) <;> exact h
    · rename_i w hw
      have hw := (hobjects w (List.mem_of_getElem? hw)).stream sh.g.nTestCase
      split at hs
      · obtain ⟨-, rfl⟩ := Prod.mk.inj (Option.some.inj hs)
        trivial
      · rename_i hvisit
        obtain ⟨-, rfl⟩ := Prod.mk.inj (Option.some.inj hs)
        simp only [Timer.Balanced, hp]
        exact ⟨h.1, h.2.visitStream hw hvisit⟩
  case stepEnd =>
    obtain ⟨-, rfl⟩ := Prod.mk.inj (Option.some.inj hs)
    simp only [Timer.Balanced, List.length_append, List.length_singleton]
    omega
  case dropError | dropFlag =>
    obtain ⟨-, rfl⟩ := Prod.mk.inj (Option.some.inj hs)
    exact h
  case toPlatform | ifCompleted =>
    split at hs <;> obtain ⟨-, rfl⟩ := Prod.mk.inj (Option.some.inj hs)
    · trivial
    · cases c <;> trivial
  case completed =>
    obtain ⟨-, rfl⟩ := Prod.mk.inj (Option.some.inj hs)
    cases c <;> trivial
  all_goals repeat' (split at hs)
  all_goals obtain ⟨-, rfl⟩ := Prod.mk.inj (Option.some.inj hs)
  all_goals first | trivial | (cases c <;> trivial)

/-- A step of a timer over streams of whole bytes. -/
theorem Timer.Balanced.step (h : t.Balanced) (hobjects : ∀ w ∈ objects, w.WholeBytes)
    (hs : CTimer.run env sender objects sh t = some (sh', t')) : t'.Balanced := by
  cases hp : t.pc <;> simp only [CTimer.run, hp, Timer.goto] at hs
  case callback c p => exact h.callback hobjects hp hs
  all_goals repeat' (split at hs)
  all_goals try contradiction
  all_goals
    obtain ⟨-, rfl⟩ := Prod.mk.inj (Option.some.inj hs)
    simp only [Timer.Balanced]
  all_goals trivial

/-- The threads of a test case. -/
structure Phase.WholeBytes (p : Phase) : Prop where
  workers : ∀ w ∈ p.workers, w.WholeBytes
  timer : p.timer.Balanced

/-- The test cases of a measurement, the current one first. -/
def Sys.phases (s : Sys) : List Phase := s.phase :: s.past

def Sys.WholeBytes (s : Sys) : Prop := ∀ p ∈ s.phases, p.WholeBytes

variable {s s' : Sys} {p p' : Phase}

theorem Phase.wholeBytes_of_empty (hw : p.workers = []) (ht : p.timer.pc = .returned) :
    p.WholeBytes := by
  constructor
  · rw [hw]
    exact List.forall_mem_nil _
  · simp only [Timer.Balanced, ht]

theorem Phase.WholeBytes.of_mem_objects (h : p.WholeBytes) : ∀ w ∈ p.objects, w.WholeBytes := by
  intro w hw
  rw [Phase.objects] at hw
  split at hw
  · exact h.workers w hw
  · cases hw

theorem Phase.WholeBytes.timerStep (h : p.WholeBytes) (hobjects : ∀ w ∈ objects, w.WholeBytes)
    (hs : timerStep env objects sh p = some (sh', p')) : p'.WholeBytes := by
  simp only [IasClient.timerStep, Option.map_eq_some_iff, Prod.mk.injEq] at hs
  obtain ⟨⟨sh₁, t⟩, hrun, -, rfl⟩ := hs
  exact ⟨h.workers, h.timer.step hobjects hrun⟩

theorem Phase.WholeBytes.workerStep {j : Nat} (h : p.WholeBytes)
    (hs : workerStep env j o sh p = some (sh', p')) : p'.WholeBytes := by
  simp only [IasClient.workerStep, Option.bind_eq_some_iff, Option.map_eq_some_iff,
    Prod.mk.injEq] at hs
  obtain ⟨w, hw, ⟨g, w'⟩, hrun, -, rfl⟩ := hs
  refine ⟨fun v hv => ?_, h.timer⟩
  rcases List.mem_or_eq_of_mem_set hv with hv | rfl
  · exact h.workers v hv
  · exact (h.workers w (List.mem_of_getElem? hw)).step hrun

namespace Sys.WholeBytes

theorem congr (h : s.WholeBytes) (hphase : s'.phase = s.phase) (hpast : s'.past = s.past) :
    s'.WholeBytes := by
  intro p hmem
  rw [Sys.phases, hphase, hpast] at hmem
  exact h p hmem

/-- The current test case changes. -/
theorem set_phase (h : s.WholeBytes) (hp : s'.phase.WholeBytes) (hpast : s'.past = s.past) :
    s'.WholeBytes := by
  intro p hmem
  rcases List.mem_cons.mp hmem with rfl | hmem
  · exact hp
  · exact h p (List.mem_cons_of_mem _ (hpast ▸ hmem))

/-- A test case of the past changes. -/
theorem set_past (h : s.WholeBytes) (hp : p.WholeBytes) {i : Nat} (hphase : s'.phase = s.phase)
    (hpast : s'.past = s.past.set i p) : s'.WholeBytes := by
  intro q hmem
  rcases List.mem_cons.mp hmem with rfl | hmem
  · exact hphase ▸ h s.phase List.mem_cons_self
  · rcases List.mem_or_eq_of_mem_set (hpast ▸ hmem) with hq | rfl
    · exact h q (List.mem_cons_of_mem _ hq)
    · exact hp

theorem mainStep {created : Bool} (h : s.WholeBytes)
    (hs : mainStep env created s = some s') : s'.WholeBytes := by
  have hphase : s.phase.WholeBytes := h s.phase List.mem_cons_self
  cases hm : s.main <;> simp only [IasClient.mainStep, hm] at hs
  case startTestCase k =>
    obtain rfl := Option.some.inj hs
    intro p hmem
    rcases List.mem_cons.mp hmem with rfl | hmem
    · exact Phase.wholeBytes_of_empty rfl rfl
    · rcases List.mem_append.mp hmem with hmem | hmem
      · exact h p (List.mem_cons_of_mem _ hmem)
      · exact List.mem_singleton.mp hmem ▸ hphase
  case construct k =>
    obtain rfl := Option.some.inj hs
    exact h.set_phase ⟨hphase.workers, trivial⟩ rfl
  case create k =>
    repeat' (split at hs)
    all_goals try contradiction
    all_goals obtain rfl := Option.some.inj hs
    · refine h.set_phase ⟨fun w hw => ?_, hphase.timer⟩ rfl
      rcases List.mem_append.mp hw with hw | hw
      · exact hphase.workers w hw
      · rw [List.mem_singleton.mp hw]
        exact newWorker_wholeBytes _ _ _ _
    all_goals exact h.congr rfl rfl
  case destroy k i =>
    split at hs <;> obtain rfl := Option.some.inj hs
    · exact h.congr rfl rfl
    · rename_i w hw
      have hsize := hphase.workers w (List.mem_of_getElem? hw)
      refine h.set_phase ⟨fun v hv => ?_, hphase.timer⟩ rfl
      rcases List.mem_or_eq_of_mem_set hv with hv | rfl
      · exact hphase.workers v hv
      · exact ⟨hsize.download, hsize.upload, hsize.nDataRecv, hsize.mResponse⟩
  case store k =>
    obtain rfl := Option.some.inj hs
    exact h.set_phase ⟨hphase.workers, hphase.timer⟩ rfl
  all_goals repeat' (split at hs)
  all_goals try contradiction
  all_goals
    obtain rfl := Option.some.inj hs
    exact h.congr rfl rfl

/-- Every step of a measurement keeps the sizes whole bytes. -/
theorem step {a : Action} (h : s.WholeBytes) (hs : step env a s = some s') : s'.WholeBytes := by
  have hphase : s.phase.WholeBytes := h s.phase List.mem_cons_self
  cases a with
  | main created => exact h.mainStep hs
  | timer =>
    simp only [IasClient.step, Option.map_eq_some_iff] at hs
    obtain ⟨⟨sh, p⟩, hrun, rfl⟩ := hs
    exact h.set_phase (hphase.timerStep hphase.of_mem_objects hrun) rfl
  | worker j o =>
    simp only [IasClient.step, Option.map_eq_some_iff] at hs
    obtain ⟨⟨sh, p⟩, hrun, rfl⟩ := hs
    exact h.set_phase (hphase.workerStep hrun) rfl
  | pastTimer i =>
    simp only [IasClient.step, Option.bind_eq_some_iff, Option.map_eq_some_iff] at hs
    obtain ⟨p, hi, ⟨sh, q⟩, hrun, rfl⟩ := hs
    have hp := h p (List.mem_cons_of_mem _ (List.mem_of_getElem? hi))
    exact h.set_past (hp.timerStep hphase.of_mem_objects hrun) rfl rfl
  | pastWorker i j o =>
    simp only [IasClient.step, Option.bind_eq_some_iff, Option.map_eq_some_iff] at hs
    obtain ⟨p, hi, ⟨sh, q⟩, hrun, rfl⟩ := hs
    have hp := h p (List.mem_cons_of_mem _ (List.mem_of_getElem? hi))
    exact h.set_past (hp.workerStep hrun) rfl rfl
  | stop | clock =>
    obtain rfl := Option.some.inj hs
    exact h.congr rfl rfl

theorem start (rtt download upload : Bool) (old : Globals) :
    (measurementStart rtt download upload old).WholeBytes := by
  intro p hmem
  rw [List.mem_singleton.mp hmem]
  exact Phase.wholeBytes_of_empty rfl rfl

end Sys.WholeBytes

/-- In every state of a measurement all bins are whole bytes. So the bins handed to
`CTool::calculateResults` agree with the published sizes, in every step over streams of that state
in any order, and in every step of a callback that has visited the streams while they went on. -/
theorem handed_bins_agree (env : Env) (rtt download upload : Bool) (old : Globals) {s : Sys}
    (hrun : Run (step env) (fun _ _ => True) (measurementStart rtt download upload old) s) :
    (∀ p ∈ s.phases, ∀ w ∈ p.workers, ∀ k, ∀ e ∈ (w.stream k).data.results.entries,
      8 ∣ e.2.toNat) ∧
    (∀ (v : WalkInput) (now : Int → UInt64) (ws : List Worker),
      (∀ w ∈ ws, ∃ p ∈ s.phases, w ∈ p.workers) →
      ∀ rs ps, calculateMeasurementResultsDownloadUpload v now (ws.map (Worker.stream v.testCase)) =
        some (rs, ps) →
      ∀ (n : Nat) (r : Aggregate), rs[n]? = some r → ∃ a qs,
        visitStreams v (n + 1) (maxSteps v) 0 (ws.map (Worker.stream v.testCase))
          { currentTimestamp := now (n + 1) } = some (a, qs) ∧
        r = stepResult v a ∧ a.Agrees v (n + 1)) ∧
    ∀ p ∈ s.phases, ∀ c, p.timer.pc = .callback c .stepEnd →
      (p.timer.walk.results.length : Int) + 1 = p.timer.walk.currentStep ∧
      p.timer.walk.sums.Agrees s.sh.g.walkInput p.timer.walk.currentStep := by
  have hwhole : s.WholeBytes :=
    hrun.invariant (fun _ _ _ h _ hs => h.step hs) (.start rtt download upload old)
  refine ⟨?_, ?_, ?_⟩
  · intro p hp w hw k e he
    have hdvd := ((hwhole p hp).workers w hw).stream k e he
    exact (dvd_iff_toNat_dvd (by decide)).mp hdvd
  · intro v now ws hws rs ps h n r hr
    have hstreams : ∀ x ∈ ws.map (Worker.stream v.testCase), x.data.results.Multiples 8 := by
      intro x hx
      obtain ⟨w, hw, rfl⟩ := List.mem_map.mp hx
      obtain ⟨p, hp, hmem⟩ := hws w hw
      exact ((hwhole p hp).workers w hmem).stream v.testCase
    have hn : n < (maxSteps v).toNat := length_walkSteps h ▸ (List.getElem?_eq_some_iff.mp hr).1
    obtain ⟨a, qs, hvisit, hr'⟩ := walkSteps_getElem? h hn
    rw [Int.add_comm] at hvisit
    have hbalanced := (StepSums.balanced_start _ (now (n + 1))).visitStreams hstreams hvisit
    exact ⟨a, qs, hvisit, Option.some.inj (hr.symm.trans hr'), hbalanced.agrees v⟩
  · intro p hp c hpc
    have hbalanced := (hwhole p hp).timer
    simp only [Timer.Balanced, hpc] at hbalanced
    exact ⟨hbalanced.1, hbalanced.2.agrees _⟩

/-- The download up to TIMER_RUNNING, 7 bytes in its first half second, and the first step of the
report. -/
def sevenBytes : List Action :=
  oneReport.take 112 ++ List.replicate 3 (Action.worker 0 {}) ++ [Action.worker 0 { code := 7 }] ++
    List.replicate 5 (Action.worker 0 {}) ++ [Action.clock 1200000] ++
    List.replicate 13 Action.timer

set_option maxRecDepth 4000 in
theorem handed_bins_agree_sevenBytes : ∃ s : Sys,
    s.phase.timer.walk.sums.bins.entries = [(1, 56)] ∧
      s.phase.timer.walk.sums.Agrees s.sh.g.walkInput 1 := by
  obtain ⟨s, hrun, hpc, hbins, hstep⟩ : ∃ s,
      Run (step oneStreamEnv) (fun _ _ => True)
        (measurementStart false true false Globals.default) s ∧
      s.phase.timer.pc = .callback .report .stepEnd ∧
      s.phase.timer.walk.sums.bins.entries = [(1, 56)] ∧ s.phase.timer.walk.currentStep = 1 :=
    ⟨_, run_of_exec sevenBytes rfl, by decide, by rfl, by rfl⟩
  have h := handed_bins_agree oneStreamEnv false true false Globals.default hrun
  have hagrees := (h.2.2 s.phase List.mem_cons_self .report hpc).2
  rw [hstep] at hagrees
  exact ⟨s, hbins, hagrees⟩

end IasClient
