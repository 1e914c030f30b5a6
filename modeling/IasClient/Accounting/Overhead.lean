import IasClient.Control.TlsParameters
import IasClient.Accounting.DownloadWindow

namespace IasClient

open Framework

/-- The values of `int`. -/
def InInt (x : Int) : Prop := -2147483648 ≤ x ∧ x ≤ 2147483647

/-- A Download object made with an overhead that the ip test has accepted. -/
structure HandedOver (env : Env) (text : String) (w : Worker) : Prop where
  tls : env.readLong "TLS" 1 = 1
  accepted : env.Positive text
  handed : ∃ j cb, cb.jMeasurementResultsIp.tlsOverhead = some text ∧
    w.mTlsOverhead = (newWorker env .download j cb).mTlsOverhead

theorem Ip.positive_of_tlsParameters {env : Env} {j : Json} (h : tlsParameters env j = true) :
    env.Positive (j "tls_overhead") := by
  simp only [tlsParameters, Bool.and_eq_true, bne_iff_ne, decide_eq_true_eq] at h
  exact ⟨h.1.2, h.2⟩

/-- In every run the streams of the download test have the overhead of the ip test. -/
theorem handedOver_of_run {env : Env} (htls : env.readLong "TLS" 1 = 1)
    {rtt download upload : Bool} {old : Globals} {s : Sys}
    (h : Run (step env) (fun _ a => Created a) (measurementStart rtt download upload old) s)
    {text : String} (htext : s.sh.cb.jMeasurementResultsIp.tlsOverhead = some text)
    (hd : s.phase.testCase = .download) : ∀ w ∈ s.phase.workers, HandedOver env text w := by
  intro w hw
  have hhanding := Handing.run (fun _ _ h => h) h
  refine ⟨htls, hhanding.copied text htext, 0, s.sh.cb, htext, ?_⟩
  rw [hhanding.download hd w hw, newWorker, if_pos rfl]

theorem HandedOver.mTlsOverhead_eq {env : Env} {text : String} {w : Worker}
    (h : HandedOver env text w) : w.mTlsOverhead = env.toInt text := by
  obtain ⟨j, cb, htext, hw⟩ := h.handed
  obtain ⟨hne, hpos⟩ := h.accepted
  simp [hw, newWorker, tlsOverhead, htext, h.tls, hne, hpos]

namespace Download

/-- The bits of an iteration, as the exact product. -/
def exactBits (w : Worker) : Int := (w.mResponse + w.tlsRecords * w.mTlsOverhead) * 8

/-- The steps of an iteration after its receive; the other threads choose the globals. -/
def iterate (a : Outcome × Globals) (w : Worker) : Option Worker :=
  if w.pc = .received ∨ w.pc.accounting = true then (run a.1 a.2 w).map (·.2) else none

/-- What an iteration has done to the stream with the bits `v`. -/
structure Grown (w : Worker) (v : Int) (w' : Worker) : Prop where
  response : w'.mResponse = v
  total : w'.mDownload.datasizeTotal = w.mDownload.datasizeTotal + UInt64.ofInt v
  results : w'.mDownload.results = w.mDownload.results ∨
    ∃ i, w'.mDownload.results = w.mDownload.results.add i (UInt64.ofInt v)

/-- The iteration computes its bits within `int` and accounts them exactly. -/
structure Exact (w : Worker) : Prop where
  product : InInt (w.tlsRecords * w.mTlsOverhead)
  sum : InInt (w.mResponse + w.tlsRecords * w.mTlsOverhead)
  bits : InInt (exactBits w)
  live : 0 < exactBits w
  amount : ((UInt64.ofInt (exactBits w)).toNat : Int) = exactBits w
  grown : ∀ w', Run iterate (fun _ _ => True) w w' → w' ≠ w → Grown w (exactBits w) w'

/-- An iteration that has computed its bits. -/
structure Iterated (w : Worker) (v : Int) (w' : Worker) : Prop where
  pc : w'.pc.accounting = true ∨ w'.pc = .whileRunning
  grown : Grown w v w'
  before : w'.pc = .ifTimerRunning ∨ w'.pc = .ifHasError ∨ w'.pc = .addBin →
    w'.mDownload.results = w.mDownload.results

variable {w w' w'' : Worker} {a : Outcome × Globals}

theorem iterate_received (hpc : w.pc = .received) (hm : 1 ≤ w.mResponse)
    (h : iterate a w = some w') :
    Iterated w (Download.bits w.mResponse w.tlsRecords w.mTlsOverhead) w' := by
  have hlive : ¬ (w.mResponse = -1 ∨ w.mResponse = 0) := by omega
  simp only [iterate, hpc, true_or, if_true, run, if_neg hlive, Option.map_some,
    Option.some.injEq] at h
  subst h
  exact ⟨.inl rfl, ⟨rfl, rfl, .inl rfl⟩, fun _ => rfl⟩

theorem iterate_accounting {v : Int} (hi : Iterated w v w') (h : iterate a w' = some w'') :
    Iterated w v w'' := by
  obtain ⟨hresponse, htotal, hresults⟩ := hi.grown
  have hbefore := hi.before
  obtain hacc | hend := hi.pc
  · cases hp : w'.pc <;> rw [hp] at hacc <;> try contradiction
    case ifTimerRunning =>
      simp only [iterate, hp, WorkerPc.accounting, or_true, if_true, run, Worker.goto,
        Option.map_some, Option.some.injEq] at h
      subst h
      refine ⟨?_, ⟨hresponse, htotal, hresults⟩, fun _ => hbefore (.inl hp)⟩
      by_cases hr : a.2.timerRunning = true <;> simp [hr, WorkerPc.accounting]
    case ifHasError =>
      simp only [iterate, hp, WorkerPc.accounting, or_true, if_true, run, Worker.goto,
        Option.map_some, Option.some.injEq] at h
      subst h
      refine ⟨?_, ⟨hresponse, htotal, hresults⟩, fun _ => hbefore (.inr (.inl hp))⟩
      by_cases hr : a.2.hasError = true <;> simp [hr, WorkerPc.accounting]
    case addBin =>
      simp only [iterate, hp, WorkerPc.accounting, or_true, if_true, run, Option.map_some,
        Option.some.injEq] at h
      subst h
      refine ⟨.inl rfl, ⟨hresponse, htotal, .inr ⟨a.2.timerIndex, ?_⟩⟩, ?_⟩
      · show w'.mDownload.results.add _ _ = _
        rw [hbefore (.inr (.inr hp)), hresponse]
      · rintro (hq | hq | hq) <;> contradiction
    case latch =>
      simp only [iterate, hp, WorkerPc.accounting, or_true, if_true, run, Option.map_some,
        Option.some.injEq] at h
      subst h
      have hlatch (i r : Int) (d : MeasurementData) :
          (latch i r d).datasizeTotal = d.datasizeTotal ∧ (latch i r d).results = d.results := by
        unfold latch
        split <;> exact ⟨rfl, rfl⟩
      obtain ⟨hkeep, hbins⟩ := hlatch a.2.timerIndex w'.mResponse w'.mDownload
      refine ⟨.inr rfl, ⟨hresponse, hkeep.trans htotal, ?_⟩, ?_⟩
      · rw [hbins]
        exact hresults
      · rintro (hq | hq | hq) <;> contradiction
  · simp [iterate, hend, WorkerPc.accounting] at h

/-- The rest of an iteration accounts the bits it has computed. -/
theorem iterated_of_run (hpc : w.pc = .received) (hm : 1 ≤ w.mResponse)
    (h : Run iterate (fun _ _ => True) w w') :
    w' = w ∨ Iterated w (Download.bits w.mResponse w.tlsRecords w.mTlsOverhead) w' := by
  refine Run.invariant (I := fun u => u = w ∨
    Iterated w (Download.bits w.mResponse w.tlsRecords w.mTlsOverhead) u) ?_ (.inl rfl) h
  intro u a v hu _ hs
  obtain rfl | hu := hu
  · exact .inr (iterate_received hpc hm hs)
  · exact .inr (iterate_accounting hu hs)

theorem bits_eq_exact (hp : InInt (w.tlsRecords * w.mTlsOverhead))
    (hs : InInt (w.mResponse + w.tlsRecords * w.mTlsOverhead)) (hb : InInt (exactBits w)) :
    Download.bits w.mResponse w.tlsRecords w.mTlsOverhead = exactBits w := by
  rw [Download.bits, wrapInt_of_within hp.1 hp.2, wrapInt_of_within hs.1 hs.2]
  exact wrapInt_of_within hb.1 hb.2

/-- An iteration with TLS records computes and accounts its bits exactly if and only if bytes and
overhead are at most 268435455; otherwise the value computed is another. -/
theorem overhead_exact_iff {env : Env} {text : String} {w : Worker} (ho : HandedOver env text w)
    (hpc : w.pc = .received) (hm : 1 ≤ w.mResponse) (hr : 0 ≤ w.tlsRecords) :
    (Exact w ↔ w.mResponse + w.tlsRecords * env.toInt text ≤ 268435455) ∧
      (268435455 < w.mResponse + w.tlsRecords * env.toInt text →
        Download.bits w.mResponse w.tlsRecords w.mTlsOverhead ≠ exactBits w) := by
  have hover := ho.mTlsOverhead_eq
  have hnonneg : 0 ≤ w.tlsRecords * env.toInt text :=
    Int.mul_nonneg hr (Int.le_of_lt ho.accepted.2)
  have hexact : exactBits w = (w.mResponse + w.tlsRecords * env.toInt text) * 8 := by
    rw [exactBits, hover]
  refine ⟨⟨fun h => ?_, fun h => ?_⟩, fun h => ?_⟩
  · have hbits := h.bits
    rw [hexact] at hbits
    obtain ⟨-, hle⟩ := hbits
    omega
  · have hproduct : InInt (w.tlsRecords * w.mTlsOverhead) := by
      rw [hover]
      constructor <;> omega
    have hsum : InInt (w.mResponse + w.tlsRecords * w.mTlsOverhead) := by
      rw [hover]
      constructor <;> omega
    have hbits : InInt (exactBits w) := by
      rw [hexact]
      constructor <;> omega
    have hvalue := bits_eq_exact hproduct hsum hbits
    refine ⟨hproduct, hsum, hbits, by omega, ofInt_toNat (by omega) (by omega), ?_⟩
    intro w' hrun hne
    have hiter := (iterated_of_run hpc hm hrun).resolve_left hne
    rw [hvalue] at hiter
    exact hiter.grown
  · intro heq
    have hle : Download.bits w.mResponse w.tlsRecords w.mTlsOverhead ≤ 2147483647 := wrapInt_le _
    omega

/-- A report with the given overhead. -/
def reportWith (overhead : String) : Json := fun key =>
  if key = "tls_overhead" then overhead else "x"

/-- A stream at the receive of one full packet with one record and an overhead of 29. -/
def onePacket : Worker :=
  { pc := .received, pid := 0, mResponse := 1448, tlsRecords := 1, mTlsOverhead := 29 }

theorem overhead_exact_onePacket : Exact onePacket := by
  have hover : HandedOver tlsEnv "29" onePacket :=
    { tls := rfl
      accepted := Ip.positive_of_tlsParameters (j := reportWith "29") (by decide)
      handed := ⟨0, { mTestCase := .download
                      jMeasurementResultsIp := { tlsOverhead := some "29" } }, rfl, by decide⟩ }
  exact (overhead_exact_iff hover rfl (by decide) (by decide)).1.mpr (by decide)

/-- One byte with one record of the overhead 300000000. -/
def largeOverhead : Worker :=
  { pc := .received, pid := 0, mResponse := 1, tlsRecords := 1, mTlsOverhead := 300000000 }

/-- Ip accepts this overhead, and the stream computes a negative size. -/
theorem largeOverhead_not_exact :
    Ip.tlsParameters tlsEnv (reportWith "300000000") = true ∧
      HandedOver tlsEnv "300000000" largeOverhead ∧
      Download.bits 1 1 300000000 = -1894967288 ∧ ¬ Exact largeOverhead := by
  refine ⟨by decide, ?_, by decide, ?_⟩
  · exact {
      tls := rfl
      accepted := Ip.positive_of_tlsParameters (j := reportWith "300000000") (by decide)
      handed := ⟨0, { mTestCase := .download
                      jMeasurementResultsIp := { tlsOverhead := some "300000000" } }, rfl,
        by decide⟩ }
  · intro h
    have hbits := h.bits.2
    exact absurd hbits (by decide)

end Download

end IasClient
