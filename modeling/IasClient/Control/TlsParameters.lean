import IasClient.Control.Dropped
import IasClient.Control.Polled

namespace IasClient

open Framework

/-- The finish of the ip test reads a worker that has passed the check of its TLS parameters. -/
def Checked (s : Sys) : Action → Prop
  | .timer => s.phase.timer.pc = .callback .finish .ipResults →
      ∃ w ∈ s.phase.objects, w.jMeasurementResultsIp.tlsOverhead.isSome = true
  | _ => True

instance (s : Sys) : DecidablePred (Checked s)
  | .timer => inferInstanceAs (Decidable (s.phase.timer.pc = .callback .finish .ipResults →
      ∃ w ∈ s.phase.objects, w.jMeasurementResultsIp.tlsOverhead.isSome = true))
  | .main _ | .worker .. | .pastTimer .. | .pastWorker .. | .stop | .clock .. => isTrue trivial

/-- The ip test has stored a positive overhead, and the download test gets it. -/
structure WithOverhead (env : Env) (s : Sys) : Prop where
  stored : ∃ v, s.sh.cb.jMeasurementResultsIp.tlsOverhead = some v ∧ 0 < env.toInt v
  download : s.phase.testCase = .download → ∀ w ∈ s.phase.workers, 0 < w.mTlsOverhead

/-- The measurement ends with the ip test; if its worker has received anything and RUNNING stays
true, TLS_PARAMETERS_MISSING is the reason. -/
structure WithoutTls (s : Sys) : Prop where
  last : ∀ k ∈ starts s.sh.log, k = .ip
  missing : s.phase.Ended → s.sh.g.running = true →
    (∃ w ∈ s.phase.workers, w.dataReceived = true) → s.sh.g.tlsParametersMissing = true

/-- What the check of the ip worker and the download test ask of an overhead. -/
def Env.Positive (env : Env) (v : String) : Prop := v ≠ "" ∧ 0 < env.toInt v

namespace TimerPc

/-- The positions of a finish after its read of the ip worker. -/
def afterIpRead : TimerPc → Bool
  | .callback .finish .ipStopped | .callback .finish .performed | .callback .finish .toPlatform
  | .callback .finish .ifCompleted | .callback .finish .completed => true
  | _ => false

/-- The positions from which the ip worker is not read again. -/
def ipRead : TimerPc → Bool
  | .clearActive | .returned => true
  | pc => pc.afterIpRead

end TimerPc

/-- The main thread is past the start of the ip test. -/
def MainPc.leftIp : MainPc → Bool
  | .gate k | .gateRunning k | .gateError k | .startTestCase k | .construct k => k != .ip
  | _ => true

variable {env : Env} {k : TestCase} {o : Outcome} {g g' : Globals} {w w' : Worker}

/-- Only the check writes `tls_overhead` of the worker's object. -/
theorem Worker.run_ipInfo (h : Worker.run env k o g w = some (g', w')) :
    w'.mTlsOverhead = w.mTlsOverhead ∧
      (w'.jMeasurementResultsIp.tlsOverhead = w.jMeasurementResultsIp.tlsOverhead ∨
        ∃ v, w'.jMeasurementResultsIp.tlsOverhead = some v ∧ env.Positive v) := by
  rcases Worker.run_cases h with ⟨-, rfl, rfl⟩ | h | ⟨-, h⟩
  · exact ⟨rfl, .inl rfl⟩
  · cases hp : w.pc <;> simp only [catchException, hp, Worker.goto] at h
    all_goals try contradiction
    all_goals
      simp only [Option.some.injEq, Prod.mk.injEq] at h
      obtain ⟨rfl, rfl⟩ := h
      exact ⟨rfl, .inl rfl⟩
  · cases k <;> cases hp : w.pc <;>
      simp only [Worker.tryBlock, Ip.run, Ping.run, Download.run, Upload.run, connect, receiveLoop,
        hp, Worker.goto] at h
    all_goals try contradiction
    all_goals repeat' (split at h)
    all_goals try contradiction
    all_goals
      simp only [Option.some.injEq, Prod.mk.injEq] at h
      obtain ⟨rfl, rfl⟩ := h
    case ip.ipTls.isTrue hc =>
      simp only [Ip.tlsParameters, Bool.and_eq_true, bne_iff_ne, ne_eq, decide_eq_true_eq] at hc
      exact ⟨rfl, .inr ⟨_, rfl, hc.1.2, hc.2⟩⟩
    all_goals exact ⟨rfl, .inl rfl⟩

/-- How a worker of the ip test comes to write `hasError`. -/
theorem Worker.run_blames (h : Worker.run env .ip o g w = some (g', w'))
    (he : g'.hasError = true) : g.hasError = true ∨ w'.pc = .catchRunning ∨ w.pc = .tlsHasError ∨
      w.pc.silent = true ∧ w'.pc.refused = true ∧ w'.dataReceived = w.dataReceived := by
  rcases Worker.run_cases h with ⟨-, rfl, rfl⟩ | h | ⟨-, h⟩
  · exact .inl he
  · cases hp : w.pc <;> simp only [catchException, hp, Worker.goto] at h
    all_goals try contradiction
    all_goals
      simp only [Option.some.injEq, Prod.mk.injEq] at h
      obtain ⟨rfl, rfl⟩ := h
      first | exact .inl he | exact .inr (.inl rfl)
  · cases hp : w.pc <;> simp only [Worker.tryBlock, Ip.run, connect, receiveLoop, hp,
      Worker.goto] at h
    all_goals try contradiction
    all_goals repeat' (split at h)
    all_goals
      simp only [Option.some.injEq, Prod.mk.injEq] at h
      obtain ⟨rfl, rfl⟩ := h
      first | exact .inl he | exact .inr (.inr (.inl rfl)) | exact .inr (.inr (.inr ⟨rfl, rfl, rfl⟩))

theorem Worker.run_tlsHasError (h : Worker.run env k o g w = some (g', w'))
    (hp : w'.pc = .tlsHasError) : g'.tlsParametersMissing = true := by
  rcases Worker.run_cases h with ⟨-, rfl, rfl⟩ | h | ⟨-, h⟩
  · contradiction
  · cases hw : w.pc <;> simp only [catchException, hw, Worker.goto] at h
    all_goals try contradiction
    all_goals
      simp only [Option.some.injEq, Prod.mk.injEq] at h
      obtain ⟨rfl, rfl⟩ := h
      contradiction
  · cases k <;> cases hw : w.pc <;>
      simp only [Worker.tryBlock, Ip.run, Ping.run, Download.run, Upload.run, connect, receiveLoop,
        hw, Worker.goto] at h
    all_goals try contradiction
    all_goals repeat' (split at h)
    all_goals try contradiction
    all_goals
      simp only [Option.some.injEq, Prod.mk.injEq] at h
      obtain ⟨rfl, rfl⟩ := h
      first | contradiction | rfl

theorem Worker.run_catchRunning (h : Worker.run env k o g w = some (g', w'))
    (hp : w.pc = .catchRunning) : g'.running = false := by
  rcases Worker.run_cases h with ⟨hin, -, -⟩ | h | ⟨-, h⟩
  · simp [hp, WorkerPc.inTry] at hin
  · simp only [catchException, hp, Worker.goto, Option.some.injEq, Prod.mk.injEq] at h
    exact h.1 ▸ rfl
  · cases k <;> simp [Worker.tryBlock, Ip.run, Ping.run, Download.run, Upload.run, connect, hp] at h

section

variable {objects : List Worker} {sh sh' : Shared} {t t' : Timer}

theorem publishResults_ipInfo (k : TestCase) (w : Walk) (cb : CCallback) :
    (publishResults k w cb).jMeasurementResultsIp = cb.jMeasurementResultsIp := by
  cases k <;> rfl

/-- `ipCallback` alone writes `jMeasurementResultsIp`, as a copy of the worker's object. -/
theorem CTimer.run_ipInfo (h : CTimer.run env k objects sh t = some (sh', t')) :
    sh'.cb.jMeasurementResultsIp = sh.cb.jMeasurementResultsIp ∨
      ∃ c, ∃ w : Worker, t.pc = .callback c .ipResults ∧ t'.pc = .callback c .ipStopped ∧
        objects[0]? = some w ∧ sh'.cb.jMeasurementResultsIp =
          copyIp sh.cb.jMeasurementResultsIp w.jMeasurementResultsIp := by
  cases hp : t.pc <;> simp only [CTimer.run, hp, Timer.goto] at h
  case callback c p =>
    cases p <;> simp only [CCallback.callback, Timer.goto] at h
    all_goals repeat' (split at h)
    all_goals
      simp only [Option.some.injEq, Prod.mk.injEq] at h
      obtain ⟨rfl, rfl⟩ := h
      with_reducible first
        | exact .inl rfl
        | exact .inl (publishResults_ipInfo _ _ _)
        | exact .inr ⟨c, _, rfl, rfl, ‹_›, rfl⟩
  all_goals repeat' (split at h)
  all_goals try contradiction
  all_goals
    simp only [Option.some.injEq, Prod.mk.injEq] at h
    obtain ⟨rfl, rfl⟩ := h
    exact .inl rfl

theorem copyIp_tlsOverhead (old new : IpInfo) :
    (copyIp old new).tlsOverhead = new.tlsOverhead := by
  unfold copyIp
  split <;> rfl

/-- The copy is made when the worker's object holds an overhead. -/
theorem CTimer.run_ipResults {c : Call} (hp : t.pc = .callback c .ipResults)
    (hw : objects[0]? = some w) (hv : w.jMeasurementResultsIp.tlsOverhead.isSome = true)
    (h : CTimer.run env k objects sh t = some (sh', t')) :
    sh'.cb.jMeasurementResultsIp =
      copyIp sh.cb.jMeasurementResultsIp w.jMeasurementResultsIp := by
  have hne : w.jMeasurementResultsIp.nonempty = true := by simp [IpInfo.nonempty, hv]
  simp only [CTimer.run, hp, CCallback.callback, hw, hne, if_true, Timer.goto, Option.some.injEq,
    Prod.mk.injEq] at h
  rw [← h.1]

theorem CTimer.run_toIpRead (hw : t.Wf .ip)
    (h : CTimer.run env .ip objects sh t = some (sh', t')) (hr : t'.pc.afterIpRead = true) :
    t.pc.afterIpRead = true ∨ t.pc = .callback .finish .ipResults := by
  cases hp : t.pc <;> simp only [CTimer.run, hp, Timer.goto] at h
  case callback c p =>
    have hin := (hw.called c p hp).2
    cases p <;> simp only [CCallback.callback, Timer.goto] at h
    all_goals repeat' (split at h)
    all_goals
      simp only [Option.some.injEq, Prod.mk.injEq] at h
      obtain ⟨rfl, rfl⟩ := h
      cases c <;>
        simp_all [TimerPc.afterIpRead, CallbackPc.within, Timer.resume, Timer.call, Call.stored]
  all_goals repeat' (split at h)
  all_goals try contradiction
  all_goals
    simp only [Option.some.injEq, Prod.mk.injEq] at h
    obtain ⟨rfl, rfl⟩ := h
    contradiction

theorem CTimer.run_ipRead (hr : t.pc.ipRead = true)
    (h : CTimer.run env k objects sh t = some (sh', t')) : t'.pc.ipRead = true := by
  cases hp : t.pc <;> simp only [CTimer.run, hp, Timer.goto] at h
  case callback c p =>
    rw [hp] at hr
    cases c <;> cases p <;> simp only [TimerPc.ipRead, TimerPc.afterIpRead, Bool.false_eq_true] at hr
    all_goals simp only [CCallback.callback, Timer.goto] at h
    all_goals repeat' (split at h)
    all_goals
      simp only [Option.some.injEq, Prod.mk.injEq] at h
      obtain ⟨rfl, rfl⟩ := h
      rfl
  case clearActive =>
    simp only [Option.some.injEq, Prod.mk.injEq] at h
    obtain ⟨rfl, rfl⟩ := h
    rfl
  all_goals simp [hp, TimerPc.ipRead, TimerPc.afterIpRead] at hr h

/-- Why a timer ends. -/
theorem CTimer.run_cleared (hw : t.Wf k) (h : CTimer.run env k objects sh t = some (sh', t'))
    (hr : t'.pc = .clearActive ∨ t'.pc = .returned) : t.pc = .clearActive ∨
      .finish ∈ t'.calls ∨ sh'.g.hasError = true ∨ sh'.g.running = false := by
  cases hp : t.pc <;> simp only [CTimer.run, hp, Timer.goto] at h
  case callback c p =>
    have hc := (hw.called c p hp).1
    cases p <;> simp only [CCallback.callback, Timer.goto] at h
    all_goals repeat' (split at h)
    all_goals
      simp only [Option.some.injEq, Prod.mk.injEq] at h
      obtain ⟨rfl, rfl⟩ := h
      cases c <;> simp_all [Timer.resume, Timer.call]
  all_goals repeat' (split at h)
  all_goals try contradiction
  all_goals
    simp only [Option.some.injEq, Prod.mk.injEq] at h
    obtain ⟨rfl, rfl⟩ := h
    simp_all [Timer.call]

end

variable {s s' : Sys} {a : Action}

/-- Where an overhead in CCallback comes from. -/
structure Handing (env : Env) (s : Sys) : Prop where
  object : ∀ w ∈ s.phase.workers, ∀ v, w.jMeasurementResultsIp.tlsOverhead = some v → env.Positive v
  copied : ∀ v, s.sh.cb.jMeasurementResultsIp.tlsOverhead = some v → env.Positive v
  fresh : s.main.leftIp = false → s.sh.cb.jMeasurementResultsIp.tlsOverhead = none
  source : s.phase.testCase = .ip → s.sh.cb.jMeasurementResultsIp.tlsOverhead.isSome = true →
    ∃ w ∈ s.phase.objects, w.jMeasurementResultsIp.tlsOverhead.isSome = true
  download : s.phase.testCase = .download →
    ∀ w ∈ s.phase.workers, w.mTlsOverhead = tlsOverhead env s.sh.cb

theorem afterTestCase_leftIp (k : TestCase) : (afterTestCase k).leftIp = true := by
  cases k <;> rfl

theorem mainStep_leftIp {created : Bool} (h : mainStep env created s = some s')
    (hl : s.main.leftIp = true) : s'.main.leftIp = true := by
  cases hm : s.main <;> rw [hm] at hl <;> simp only [mainStep, hm] at h
  all_goals repeat' (split at h)
  all_goals try contradiction
  all_goals
    simp only [Option.some.injEq] at h
    subst h
    first | exact hl | exact afterTestCase_leftIp _ | rfl

/-- Looking for the overhead does not change it. -/
theorem readTlsOverhead_tlsOverhead (env : Env) (k : TestCase) (cb : CCallback) :
    (readTlsOverhead env k cb).jMeasurementResultsIp.tlsOverhead =
      cb.jMeasurementResultsIp.tlsOverhead := by
  simp only [readTlsOverhead, IpInfo.touchTlsOverhead]
  split
  · split <;> rfl
  · rfl

theorem mainStep_overhead {created : Bool} (h : mainStep env created s = some s') :
    s'.sh.cb.jMeasurementResultsIp.tlsOverhead = s.sh.cb.jMeasurementResultsIp.tlsOverhead := by
  cases hm : s.main <;> simp only [mainStep, hm] at h
  case startTestCase k =>
    simp only [Option.some.injEq] at h
    subst h
    simp only
    split <;> rfl
  case startMeasurement k =>
    split at h <;> obtain rfl := Option.some.inj h
    · rfl
    · exact readTlsOverhead_tlsOverhead ..
  all_goals repeat' (split at h)
  all_goals try contradiction
  all_goals
    simp only [Option.some.injEq] at h
    subst h
    rfl

/-- The objects that CCallback reaches stay reachable. -/
theorem mainStep_objects {created : Bool} (h : mainStep env created s = some s')
    (hc : ∀ k, s.main ≠ .construct k) (hs : ∀ k, s.main ≠ .startTestCase k) {w : Worker}
    (hw : w ∈ s.phase.objects) :
    w ∈ s'.phase.objects ∨ { w with destroyed := true } ∈ s'.phase.objects := by
  have hst : s.phase.stored = true := by
    rw [← Bool.not_eq_false]
    intro hf
    simp [Phase.objects, hf] at hw
  have hst' := (mainStep_inside h hc hs).2.2.2 hst
  simp only [Phase.objects, hst, hst', if_true] at hw ⊢
  exact mainStep_keeps h hs hw

/-- The workers of a test case are started in it. -/
theorem mainStep_testCase {created : Bool} (h : mainStep env created s = some s') :
    s'.phase.testCase = s.phase.testCase ∨ s'.phase.workers = [] := by
  by_cases hs : ∃ k, s.main = .startTestCase k
  · obtain ⟨k, hs⟩ := hs
    simp only [mainStep, hs, Option.some.injEq] at h
    subst h
    exact .inr rfl
  by_cases hc : ∃ k, s.main = .construct k
  · obtain ⟨k, hc⟩ := hc
    simp only [mainStep, hc, Option.some.injEq] at h
    subst h
    exact .inl rfl
  · rw [not_exists] at hs hc
    exact .inl (mainStep_grows h hc hs).2.2.2

theorem newWorker_ipInfo (env : Env) (k : TestCase) (j : Nat) (cb : CCallback) :
    (newWorker env k j cb).jMeasurementResultsIp.tlsOverhead = none := rfl

theorem Handing.step_main (h : Handing env s) (ht : Threads env s)
    (hm : mainStep env true s = some s') : Handing env s' := by
  have hcb := mainStep_overhead hm
  have hov : tlsOverhead env s'.sh.cb = tlsOverhead env s.sh.cb := by
    simp only [tlsOverhead, hcb]
  refine ⟨?_, ?_, ?_, ?_, ?_⟩
  · intro w' hw' v hv
    rcases mainStep_workers hm hw' with ⟨w, hw, rfl | ⟨-, rfl⟩⟩ | ⟨k, -, rfl⟩
    · exact h.object w' hw v hv
    · exact h.object w hw v hv
    · rw [newWorker_ipInfo] at hv
      contradiction
  · intro v hv
    exact h.copied v (hcb ▸ hv)
  · intro hl
    rw [hcb]
    apply h.fresh
    rw [← Bool.not_eq_true]
    intro hl'
    rw [mainStep_leftIp hm hl'] at hl
    contradiction
  · intro hk hv
    rw [hcb] at hv
    by_cases hl : s.main.leftIp = true
    · by_cases hs : ∃ k, s.main = .startTestCase k
      · obtain ⟨k, hs⟩ := hs
        simp only [mainStep, hs, Option.some.injEq] at hm
        subst hm
        simp only [hs, MainPc.leftIp, bne_iff_ne, ne_eq] at hl
        exact absurd hk hl
      by_cases hc : ∃ k, s.main = .construct k
      · obtain ⟨k, hc⟩ := hc
        simp only [mainStep, hc, Option.some.injEq] at hm
        subst hm
        exact h.source hk hv
      · rw [not_exists] at hs hc
        have hk' : s.phase.testCase = .ip := (mainStep_grows hm hc hs).2.2.2.symm.trans hk
        obtain ⟨w, hw, hv⟩ := h.source hk' hv
        rcases mainStep_objects hm hc hs hw with hw | hw
        · exact ⟨w, hw, hv⟩
        · exact ⟨{ w with destroyed := true }, hw, hv⟩
    · rw [h.fresh ((Bool.not_eq_true _).mp hl)] at hv
      contradiction
  · intro hk w' hw'
    rw [hov]
    rcases mainStep_testCase hm with htc | hnil
    · rcases mainStep_workers hm hw' with ⟨w, hw, rfl | ⟨-, rfl⟩⟩ | ⟨k, hc, rfl⟩
      · exact h.download (htc ▸ hk) w' hw
      · exact h.download (htc ▸ hk) w hw
      · have hkd : k = .download := by
          rw [← (ht.testCase k (by simp [hc, MainPc.inside])).1, ← htc, hk]
        simp [newWorker, hkd]
    · simp [hnil] at hw'

theorem Threads.leftIp (ht : Threads env s) (hp : s.phase.timer.pc ≠ .returned) :
    s.main.leftIp = true := by
  obtain ⟨k, hin, hc⟩ := ht.timer_inside hp
  cases hm : s.main <;> simp_all [MainPc.inside, MainPc.leftIp]

theorem Handing.step_timer (h : Handing env s) (ht : Threads env s) {sh : Shared} {t : Timer}
    (hs : CTimer.run env s.phase.testCase s.phase.objects s.sh s.phase.timer = some (sh, t)) :
    Handing env { s with sh := sh, phase := { s.phase with timer := t } } := by
  have hleft := ht.leftIp (CTimer.run_moves hs)
  rcases CTimer.run_ipInfo hs with hcb | ⟨c, w, hp, -, hw, hcb⟩
  · have hov : tlsOverhead env sh.cb = tlsOverhead env s.sh.cb := by
      simp only [tlsOverhead, hcb]
    refine ⟨h.object, ?_, fun hf => absurd hf (by simp [hleft]), ?_, ?_⟩
    · intro v hv
      exact h.copied v (hcb ▸ hv)
    · intro hk hv
      exact h.source hk (hcb ▸ hv)
    · intro hk w hw
      exact (h.download hk w hw).trans hov.symm
  · have hmem := List.mem_of_getElem? hw
    have hin : w ∈ s.phase.workers := by
      unfold Phase.objects at hmem
      split at hmem
      · exact hmem
      · simp at hmem
    have hip : s.phase.testCase = .ip := by
      have hwithin := (ht.timer.called c _ hp).2
      simp only [CallbackPc.within, Bool.and_eq_true, beq_iff_eq] at hwithin
      exact hwithin.2
    have hnew : sh.cb.jMeasurementResultsIp.tlsOverhead = w.jMeasurementResultsIp.tlsOverhead := by
      rw [hcb, copyIp_tlsOverhead]
    refine ⟨h.object, ?_, fun hf => absurd hf (by simp [hleft]), ?_, ?_⟩
    · intro v hv
      exact h.object w hin v (hnew ▸ hv)
    · intro _ hv
      exact ⟨w, hmem, hnew ▸ hv⟩
    · intro hk
      simp [hip] at hk

theorem Handing.step_worker (h : Handing env s) {j : Nat} {o : Outcome}
    {w w' : Worker} {g : Globals} (hw : s.phase.workers[j]? = some w)
    (hs : Worker.run env s.phase.testCase o s.sh.g w = some (g, w')) :
    Handing env { s with
      sh := { s.sh with g := g }
      phase := { s.phase with workers := s.phase.workers.set j w' } } := by
  have hmem := List.mem_of_getElem? hw
  obtain ⟨hov, hinfo⟩ := Worker.run_ipInfo hs
  refine ⟨?_, h.copied, h.fresh, ?_, ?_⟩
  · intro v hv x hx
    rcases List.mem_or_eq_of_mem_set hv with hv | rfl
    · exact h.object v hv x hx
    · rcases hinfo with hsame | ⟨y, hy, hpos⟩
      · exact h.object w hmem x (hsame ▸ hx)
      · rw [hy, Option.some.injEq] at hx
        exact hx ▸ hpos
  · intro hk hv
    obtain ⟨x, hx, hsome⟩ := h.source hk hv
    unfold Phase.objects at hx ⊢
    simp only at hx ⊢
    split at hx
    · rename_i hst
      rw [if_pos hst]
      rcases mem_set_of_mem w' hw hx with rfl | hx
      · refine ⟨w', mem_set_self w' hw, ?_⟩
        rcases hinfo with hsame | ⟨y, hy, -⟩
        · exact hsame ▸ hsome
        · rw [hy]
          rfl
      · exact ⟨x, hx, hsome⟩
    · simp at hx
  · intro hk v hv
    rcases List.mem_or_eq_of_mem_set hv with hv | rfl
    · exact h.download hk v hv
    · exact hov.trans (h.download hk w hmem)

theorem Handing.step (h : Handing env s) (ht : Threads env s) (hc : Created a)
    (hs : IasClient.step env a s = some s') : Handing env s' := by
  cases step_moved ht.past hs with
  | main hm =>
    subst hc
    exact h.step_main ht hm
  | timer hstep => exact h.step_timer ht hstep
  | worker hw hstep => exact h.step_worker hw hstep
  | stop => exact ⟨h.object, h.copied, h.fresh, h.source, h.download⟩
  | clock now => exact ⟨h.object, h.copied, h.fresh, h.source, h.download⟩

theorem Handing.run {rtt download upload : Bool} {old : Globals} {ok : Sys → Action → Prop}
    (hok : ∀ t a, ok t a → Created a)
    (h : Run (IasClient.step env) ok (measurementStart rtt download upload old) s) :
    Handing env s := by
  refine Run.invariant_of (fun _ hr => Threads.run hok hr) ?_ ?_ h
  · exact fun _ _ _ ht _ hi ha hs => hi.step ht (hok _ _ ha) hs
  · constructor <;> simp [measurementStart]

/-- A processed finish of the ip test has stored an overhead. -/
def Finished (s : Sys) : Prop :=
  s.sh.g.performedIp = true ∨ s.phase.testCase = .ip ∧ s.phase.timer.pc.afterIpRead = true →
    s.sh.cb.jMeasurementResultsIp.tlsOverhead.isSome = true

theorem Finished.step_main (h : Finished s) {created : Bool}
    (hm : mainStep env created s = some s') : Finished s' := by
  intro hf
  rw [mainStep_overhead hm]
  apply h
  rcases hf with hf | ⟨hk, hpc⟩
  · have hperf : s.sh.g.performed .ip = true := by
      rw [← mainStep_performed hm]
      exact hf
    exact .inl hperf
  · rcases mainStep_timer hm with ⟨ht, htc, -⟩ | ⟨-, -, hp | hp⟩
    · exact .inr ⟨htc ▸ hk, ht ▸ hpc⟩
    · simp [hp, TimerPc.afterIpRead] at hpc
    · simp [hp, TimerPc.afterIpRead] at hpc

theorem Phase.objects_zero {p : Phase} (hlen : p.workers.length ≤ 1) {w : Worker}
    (hw : w ∈ p.objects) : p.objects[0]? = some w := by
  have hlen' : p.objects.length ≤ 1 := by
    unfold Phase.objects
    split
    · exact hlen
    · simp
  match hl : p.objects with
  | [] => simp [hl] at hw
  | [x] =>
    rw [hl] at hw
    simp [List.mem_singleton.mp hw]
  | _ :: _ :: _ => simp [hl] at hlen'

theorem Finished.step_timer (h : Finished s) (ht : Threads env s) (hp : Performing s)
    (hck : Checked s .timer) {sh : Shared} {t : Timer}
    (hs : CTimer.run env s.phase.testCase s.phase.objects s.sh s.phase.timer = some (sh, t)) :
    Finished { s with sh := sh, phase := { s.phase with timer := t } } := by
  obtain ⟨k, hin, hc⟩ := ht.timer_inside (CTimer.run_moves hs)
  obtain ⟨htc, -, hcb⟩ := ht.testCase k hin
  intro hf
  simp only at hf ⊢
  by_cases hread : s.phase.timer.pc = .callback .finish .ipResults
  · -- the finish reads the worker
    have hip : s.phase.testCase = .ip := by
      have hwithin := (ht.timer.called _ _ hread).2
      simp only [CallbackPc.within, Bool.and_eq_true, beq_iff_eq] at hwithin
      exact hwithin.2
    have hlen := ht.single hin hc (.inl (htc.symm.trans hip))
    obtain ⟨w, hw, hv⟩ := hck hread
    rw [CTimer.run_ipResults hread (Phase.objects_zero hlen hw) hv hs, copyIp_tlsOverhead]
    exact hv
  have hold : s.sh.g.performedIp = true ∨
      s.phase.testCase = .ip ∧ s.phase.timer.pc.afterIpRead = true := by
    rcases hf with hf | ⟨hk, hpc⟩
    · rcases (CTimer.run_effect hs).newly_performed (j := .ip) hf with hf | ⟨hmt, c, hpc, -⟩
      · exact .inl hf
      · have hfin : c = .finish := by simpa [CallbackPc.within] using (ht.timer.called c _ hpc).2
        refine .inr ⟨htc.trans (hcb.symm.trans hmt.symm), ?_⟩
        rw [hpc, hfin]
        rfl
    · have hwf := ht.timer
      rw [hk] at hwf hs
      exact .inr ⟨hk, (CTimer.run_toIpRead hwf hs hpc).resolve_right hread⟩
  rcases CTimer.run_ipInfo hs with hsame | ⟨c, w, hpc, -⟩
  · rw [hsame]
    exact h hold
  · -- a report is made before the finish
    exfalso
    obtain ⟨hmem, hwithin⟩ := ht.timer.called c _ hpc
    simp only [CallbackPc.within, Bool.and_eq_true, beq_iff_eq] at hwithin
    rcases hold with hold | ⟨-, hold⟩
    · have hperf : s.sh.g.performed s.phase.testCase = true := by
        rw [hwithin.2]
        exact hold
      have hfin := ht.timer.finish (hp.called hperf)
      cases c <;> simp_all [TimerPc.finishing]
    · rw [hpc] at hold
      cases c <;> simp [TimerPc.afterIpRead] at hold

/-- The ip worker is not read any more. -/
structure IpRead (s : Sys) : Prop where
  left : s.main.leftIp = true
  timer : s.phase.testCase = .ip → s.phase.timer.pc.ipRead = true

/-- From then on the overhead that CCallback stores stays. -/
theorem IpRead.step (h : IpRead s) (ht : Threads env s) (hs : IasClient.step env a s = some s') :
    IpRead s' ∧
      s'.sh.cb.jMeasurementResultsIp.tlsOverhead = s.sh.cb.jMeasurementResultsIp.tlsOverhead := by
  cases step_moved ht.past hs with
  | main hm =>
    refine ⟨⟨mainStep_leftIp hm h.left, fun hk => ?_⟩, mainStep_overhead hm⟩
    by_cases hst : ∃ k, s.main = .startTestCase k
    · obtain ⟨k, hst⟩ := hst
      simp only [mainStep, hst, Option.some.injEq] at hm
      subst hm
      rfl
    by_cases hcn : ∃ k, s.main = .construct k
    · obtain ⟨k, hcn⟩ := hcn
      have hip := (ht.testCase k (by simp [hcn, MainPc.inside])).1
      have hleft := h.left
      simp only [mainStep, hcn, Option.some.injEq] at hm
      subst hm
      simp only [hcn, MainPc.leftIp, bne_iff_ne, ne_eq] at hleft
      exact absurd (hip.symm.trans hk) hleft
    · rw [not_exists] at hst hcn
      obtain ⟨-, -, htm, htc⟩ := mainStep_grows hm hcn hst
      rw [htm]
      exact h.timer (htc ▸ hk)
  | timer hstep =>
    refine ⟨⟨h.left, fun hk => CTimer.run_ipRead (h.timer hk) hstep⟩, ?_⟩
    rcases CTimer.run_ipInfo hstep with hsame | ⟨c, w, hp, -⟩
    · exact congrArg IpInfo.tlsOverhead hsame
    · have hwithin := (ht.timer.called c _ hp).2
      simp only [CallbackPc.within, Bool.and_eq_true, beq_iff_eq] at hwithin
      have hread := h.timer hwithin.2
      rw [hp] at hread
      cases c <;> simp [TimerPc.ipRead, TimerPc.afterIpRead] at hread
  | worker => exact ⟨⟨h.left, h.timer⟩, rfl⟩
  | stop => exact ⟨⟨h.left, h.timer⟩, rfl⟩
  | clock => exact ⟨⟨h.left, h.timer⟩, rfl⟩

theorem IpRead.run (h : IpRead s) {ok : Sys → Action → Prop}
    (hall : ∀ t, Run (IasClient.step env) ok s t → Threads env t) {t : Sys}
    (hr : Run (IasClient.step env) ok s t) :
    t.sh.cb.jMeasurementResultsIp.tlsOverhead = s.sh.cb.jMeasurementResultsIp.tlsOverhead := by
  have hboth : IpRead t ∧
      t.sh.cb.jMeasurementResultsIp.tlsOverhead = s.sh.cb.jMeasurementResultsIp.tlsOverhead := by
    induction hr with
    | refl => exact ⟨h, rfl⟩
    | tail hu _ hs ih =>
      obtain ⟨hread, hsame⟩ := ih.1.step (hall _ hu) hs
      exact ⟨hread, hsame.trans ih.2⟩
  exact hboth.2

/-- Why a worker of the ip test or its timer ends the measurement. -/
structure Blaming (s : Sys) : Prop where
  flagged : ∀ w ∈ s.phase.workers, w.pc = .tlsHasError → s.sh.g.tlsParametersMissing = true
  blamed : s.phase.testCase = .ip → s.sh.g.hasError = true → ∀ w ∈ s.phase.workers,
    s.sh.g.running = false ∨ s.sh.g.tlsParametersMissing = true ∨ w.pc = .catchRunning ∨
      w.pc.refused = true ∧ w.dataReceived = false
  cleared : s.phase.workers ≠ [] →
    s.phase.timer.pc = .clearActive ∨ s.phase.timer.pc = .returned →
      .finish ∈ s.phase.timer.calls ∨ s.sh.g.hasError = true ∨ s.sh.g.running = false
  later : s.phase.testCase ≠ .ip → s.sh.g.performedIp = true

/-- The first worker of a test case finds `hasError` false, and a timer that has not ended unless
RUNNING is false. -/
theorem Opening.first_worker (hop : Opening s) (ht : Threads env s)
    (hm : mainStep env true s = some s') (hnil : s.phase.workers = [])
    (hne : s'.phase.workers ≠ []) : s.sh.g.hasError = false ∧ s'.phase.timer = s.phase.timer ∧
      s.phase.timer.pc.unstaffed s.sh.g.running := by
  obtain ⟨w, hw⟩ := List.exists_mem_of_ne_nil _ hne
  obtain ⟨k, hk⟩ : ∃ k, s.main = .create k := by
    rcases mainStep_workers hm hw with ⟨v, hv, -⟩ | ⟨k, hk, -⟩
    · simp [hnil] at hv
    · exact ⟨k, hk⟩
  have hin := (ht.instances k (by simp [hk, MainPc.inside]) (by simp [hk]))
  simp only [mainStep, hk, if_true] at hm
  split at hm
  all_goals
    simp only [Option.some.injEq] at hm
    subst hm
  · rename_i hlt
    simp only [Opening, hk] at hop
    have hone : 1 ≤ s.phase.timer.mInstances := by
      rw [hnil] at hlt
      simp only [List.length_nil, Int.ofNat_zero] at hlt
      omega
    have hu := hop.2 hnil hone
    exact ⟨hu.hasError, rfl, hu.timer⟩
  · exact absurd hnil hne

theorem Blaming.step_main (h : Blaming s) (ht : Threads env s) (hop : Opening s) (hx : InOrder s)
    (hm : mainStep env true s = some s') : Blaming s' := by
  have hg := mainStep_persists hm
  have herr := (mainStep_reason hm).2
  refine ⟨?_, ?_, ?_, ?_⟩
  · intro w' hw' hp
    rcases mainStep_workers hm hw' with ⟨w, hw, rfl | ⟨-, rfl⟩⟩ | ⟨k, -, rfl⟩
    · exact hg.tlsParametersMissing (h.flagged w' hw hp)
    · exact hg.tlsParametersMissing (h.flagged w hw hp)
    · cases k <;> contradiction
  · intro hk he w' hw'
    rw [herr] at he
    have hne := List.ne_nil_of_mem hw'
    have htc := (mainStep_testCase hm).resolve_right hne
    have hold (w : Worker) (hw : w ∈ s.phase.workers) :=
      (h.blamed (htc ▸ hk) he w hw).imp hg.running (Or.imp_left hg.tlsParametersMissing)
    rcases mainStep_workers hm hw' with ⟨w, hw, rfl | ⟨-, rfl⟩⟩ | ⟨k, hc, -⟩
    · exact hold w' hw
    · exact hold w hw
    · by_cases hnil : s.phase.workers = []
      · simp [(hop.first_worker ht hm hnil hne).1] at he
      · -- the ip test has its one worker
        have hin : s.main.inside = some k := by simp [hc, MainPc.inside]
        have hkip : k = .ip := by rw [← (ht.testCase k hin).1, ← htc, hk]
        have hone : s.sh.g.instances = 1 := by
          rw [(ht.instances k hin (by simp [hc])).1, hkip]
          rfl
        have hpos := List.length_pos_iff.mpr hnil
        have hfull : ¬ (s.phase.workers.length : Int) < s.sh.g.instances := by omega
        simp only [mainStep, hc, if_neg hfull, Option.some.injEq] at hm
        subst hm
        exact hold w' hw'
  · intro hne hp
    by_cases hst : ∃ k, s.main = .startTestCase k
    · obtain ⟨k, hst⟩ := hst
      simp only [mainStep, hst, Option.some.injEq] at hm
      subst hm
      simp at hne
    by_cases hcn : ∃ k, s.main = .construct k
    · obtain ⟨k, hcn⟩ := hcn
      simp only [mainStep, hcn, Option.some.injEq] at hm
      subst hm
      simp at hp
    · rw [not_exists] at hst hcn
      have htm := (mainStep_grows hm hcn hst).2.2.1
      rw [htm] at hp ⊢
      by_cases hnil : s.phase.workers = []
      · have hu := (hop.first_worker ht hm hnil hne).2.2
        rcases hp with hp | hp <;> rw [hp] at hu <;> exact .inr (.inr (hg.running hu))
      · exact (h.cleared hnil hp).imp_right (Or.imp hg.hasError hg.running)
  · intro hk
    by_cases hst : ∃ k, s.main = .startTestCase k
    · obtain ⟨k, hst⟩ := hst
      have hperf := (hx.before k (.inl hst) .ip rfl)
      simp only [mainStep, hst, Option.some.injEq] at hm
      subst hm
      have hlt : TestCase.ip.number < k.number := by
        cases k <;> simp [TestCase.number] at hk ⊢
      exact hg.performed .ip (hperf hlt).1
    · have htc : s'.phase.testCase = s.phase.testCase := by
        by_cases hcn : ∃ k, s.main = .construct k
        · obtain ⟨k, hcn⟩ := hcn
          simp only [mainStep, hcn, Option.some.injEq] at hm
          subst hm
          rfl
        · rw [not_exists] at hst hcn
          exact (mainStep_grows hm hcn hst).2.2.2
      exact hg.performed .ip (h.later (htc ▸ hk))

theorem Blaming.step_timer (h : Blaming s) (ht : Threads env s) {sh : Shared} {t : Timer}
    (hs : CTimer.run env s.phase.testCase s.phase.objects s.sh s.phase.timer = some (sh, t)) :
    Blaming { s with sh := sh, phase := { s.phase with timer := t } } := by
  have he := CTimer.run_effect hs
  have hg := he.grows.1.toPersists
  refine ⟨?_, ?_, ?_, fun hk => hg.performed .ip (h.later hk)⟩
  · intro w hw hp
    exact hg.tlsParametersMissing (h.flagged w hw hp)
  · intro hk herr w hw
    have hold : s.sh.g.hasError = true := by
      cases he
      case hasError c hp _ =>
        have hwithin := (ht.timer.called c _ hp).2
        rw [show s.phase.testCase = .ip from hk] at hwithin
        simp [CallbackPc.within] at hwithin
      case performed => cases hmt : s.sh.cb.mTestCase <;> rw [hmt] at herr <;> exact herr
      all_goals exact herr
    exact (h.blamed hk hold w hw).imp hg.running (Or.imp_left hg.tlsParametersMissing)
  · intro hne hp
    rcases CTimer.run_cleared ht.timer hs hp with hp | hnew
    · exact (h.cleared hne (.inl hp)).imp (CTimer.calls_subset ht.timer hs _)
        (Or.imp hg.hasError hg.running)
    · exact hnew

theorem Blaming.step_worker (h : Blaming s) (ht : Threads env s) (hsil : Silent s) {j : Nat}
    {o : Outcome} {w w' : Worker} {g : Globals} (hw : s.phase.workers[j]? = some w)
    (hs : Worker.run env s.phase.testCase o s.sh.g w = some (g, w')) :
    Blaming { s with
      sh := { s.sh with g := g }
      phase := { s.phase with workers := s.phase.workers.set j w' } } := by
  have hg := (Worker.run_effect hs).grows.toPersists
  have hmem := List.mem_of_getElem? hw
  refine ⟨?_, ?_, ?_, fun hk => hg.performed .ip (h.later hk)⟩
  · intro v hv hp
    rcases List.mem_or_eq_of_mem_set hv with hv | rfl
    · exact hg.tlsParametersMissing (h.flagged v hv hp)
    · exact Worker.run_tlsHasError hs hp
  · intro hk herr v hv
    have hk : s.phase.testCase = .ip := hk
    obtain ⟨k, hin, hc⟩ := ht.worker_inside hmem (Worker.run_kept hs).moves
    have hlen := ht.single hin hc (.inl ((ht.testCase k hin).1.symm.trans hk))
    -- there is no other worker
    have hvw : v = w' := by
      apply eq_of_mem_of_length_le_one _ hv (mem_set_self w' hw)
      rw [List.length_set]
      exact hlen
    subst hvw
    rw [hk] at hs
    rcases Worker.run_blames hs herr with hold | hp | hp | ⟨hsl, href, hd⟩
    · rcases h.blamed hk hold w hmem with hr | hf | hp | ⟨hp, hd⟩
      · exact .inl (hg.running hr)
      · exact .inr (.inl (hg.tlsParametersMissing hf))
      · exact .inl (Worker.run_catchRunning hs hp)
      · obtain ⟨hp', hd', -⟩ := Worker.run_refused hs hp
        exact .inr (.inr (.inr ⟨hp', hd'.trans hd⟩))
    · exact .inr (.inr (.inl hp))
    · exact .inr (.inl (hg.tlsParametersMissing (h.flagged w hmem hp)))
    · exact .inr (.inr (.inr ⟨href, hd.trans (hsil w hmem hsl)⟩))
  · intro _ hp
    exact (h.cleared (List.ne_nil_of_mem hmem) hp).imp_right (Or.imp hg.hasError hg.running)

theorem Blaming.step (h : Blaming s) (ht : Threads env s) (hop : Opening s) (hx : InOrder s)
    (hsil : Silent s) (hc : Created a) (hs : IasClient.step env a s = some s') : Blaming s' := by
  cases step_moved ht.past hs with
  | main hm =>
    subst hc
    exact h.step_main ht hop hx hm
  | timer hstep => exact h.step_timer ht hstep
  | worker hw hstep => exact h.step_worker ht hsil hw hstep
  | stop =>
    exact ⟨h.flagged, fun _ _ _ _ => .inl rfl, fun _ _ => .inr (.inr rfl), h.later⟩
  | clock now => exact ⟨h.flagged, h.blamed, h.cleared, h.later⟩

theorem CTimer.run_readsIp {objects : List Worker} {sh sh' : Shared} {t t' : Timer}
    (hp : t.pc = .callback .finish .ipResults)
    (h : CTimer.run env k objects sh t = some (sh', t')) : t'.pc.ipRead = true := by
  simp only [CTimer.run, hp, CCallback.callback, Timer.goto] at h
  repeat' (split at h)
  all_goals
    simp only [Option.some.injEq, Prod.mk.injEq] at h
    obtain ⟨rfl, rfl⟩ := h
    rfl

theorem mem_starts {k : TestCase} {log : List Event} (h : k ∈ starts log) :
    .startTestCase k ∈ log := by
  obtain ⟨e, he, hk⟩ := List.mem_filterMap.mp h
  cases e <;> simp at hk
  exact hk ▸ he

/-- What the ip test comes to without a processed finish. -/
theorem Blaming.withoutTls (h : Blaming s) (hx : InOrder s) (hp : Performing s)
    (hperf : s.sh.g.performedIp = false) : WithoutTls s := by
  have hk : s.phase.testCase = .ip := by
    by_contra hne
    simp [h.later hne] at hperf
  refine ⟨?_, ?_⟩
  · intro k hst
    by_contra hne
    obtain ⟨l₁, l₂, hl⟩ := List.append_of_mem (mem_starts hst)
    have hlt : TestCase.ip.number < k.number := by
      cases k <;> simp [TestCase.number] at hne ⊢
    have hsent := hx.ordered l₁ k l₂ hl .ip rfl hlt
    have hperf' := hp.sent .ip (hl ▸ hsent.append _)
    simp only [Globals.performed, hperf] at hperf'
    contradiction
  · rintro hend hrun ⟨w, hw, hd⟩
    rcases h.cleared (List.ne_nil_of_mem hw) (.inr hend.1) with hfin | herr | hr
    · have hperf' := hp.flag hfin (by rw [hend.1]; rfl)
      rw [hk] at hperf'
      simp only [Globals.performed, hperf] at hperf'
      contradiction
    · rcases h.blamed hk herr w hw with hr | hf | hcatch | ⟨-, hd'⟩
      · simp [hrun] at hr
      · exact hf
      · simp [hend.2 w hw] at hcatch
      · simp [hd] at hd'
    · simp [hrun] at hr

/-- What the proofs about the overhead know of every state of a run. -/
structure TlsKnown (env : Env) (s : Sys) : Prop where
  threads : Threads env s
  opening : Opening s
  inOrder : InOrder s
  performing : Performing s
  silent : Silent s
  handing : Handing env s

theorem TlsKnown.run (hpid : ∀ k, Function.Injective (env.pid k)) {rtt download upload : Bool}
    {old : Globals} (h : Run (IasClient.step env) (fun _ a => Created a)
      (measurementStart rtt download upload old) s) : TlsKnown env s :=
  ⟨Threads.run (fun _ _ h => h) h, Opening.run (fun _ _ h => h) h, (Performing.run h).1,
    (Performing.run h).2, Silent.run hpid (fun _ _ h => h) h, Handing.run (fun _ _ h => h) h⟩

theorem Blaming.run (hpid : ∀ k, Function.Injective (env.pid k)) {rtt download upload : Bool}
    {old : Globals} (h : Run (IasClient.step env) (fun _ a => Created a)
      (measurementStart rtt download upload old) s) : Blaming s := by
  refine Run.invariant_of (fun _ hr => TlsKnown.run hpid hr) ?_ ?_ h
  · exact fun _ _ _ hk _ hi hc hs =>
      hi.step hk.threads hk.opening hk.inOrder hk.silent hc hs
  · constructor <;> simp [measurementStart]

theorem Finished.run (hpid : ∀ k, Function.Injective (env.pid k)) {rtt download upload : Bool}
    {old : Globals} (h : Run (IasClient.step env) (fun s a => Created a ∧ Checked s a)
      (measurementStart rtt download upload old) s) : Finished s := by
  refine Run.invariant_of
    (fun _ hr => TlsKnown.run hpid (hr.mono fun _ _ h => h.1)) ?_ ?_ h
  · intro u a v hk _ hi hck hs
    cases step_moved hk.threads.past hs with
    | main hm => exact hi.step_main hm
    | timer hstep => exact hi.step_timer hk.threads hk.performing hck.2 hstep
    | worker hw hstep =>
      have he := (Worker.run_effect hstep).keeps_performed
      intro hf
      exact hi (hf.imp_left fun hp => (congrFun he .ip).symm.trans hp)
    | stop => exact hi
    | clock now => exact hi
  · simp [Finished, measurementStart, TimerPc.afterIpRead]

/-- With TLS on, a processed finish of the ip test has stored a positive overhead and otherwise the
measurement ends there with TLS_PARAMETERS_MISSING, if and only if the finish reads a worker that
has passed the check. -/
theorem ip_finish_has_overhead (env : Env) (hpid : ∀ k, Function.Injective (env.pid k))
    (htls : env.readLong "TLS" 1 = 1) (rtt download upload : Bool) (old : Globals) :
    (∀ s, Run (step env) (fun s a => Created a ∧ Checked s a)
        (measurementStart rtt download upload old) s →
      (s.sh.g.performedIp = true → WithOverhead env s) ∧
        (s.sh.g.performedIp = false → WithoutTls s)) ∧
    ∀ s s' t, Run (step env) (fun _ a => Created a) (measurementStart rtt download upload old) s →
      ¬ Checked s .timer → step env .timer s = some s' →
        Run (step env) (fun _ a => Created a) s' t → ¬ WithOverhead env t := by
  refine ⟨fun s h => ?_, fun s s' t h hck hs ht hwith => ?_⟩
  · have hk := TlsKnown.run hpid (h.mono fun _ _ h => h.1)
    refine ⟨fun hperf => ?_, ?_⟩
    · obtain ⟨v, hv⟩ := Option.isSome_iff_exists.mp (Finished.run hpid h (.inl hperf))
      obtain ⟨hne, hpos⟩ := hk.handing.copied v hv
      refine ⟨⟨v, hv, hpos⟩, fun hd w hw => ?_⟩
      rw [hk.handing.download hd w hw]
      simp [tlsOverhead, htls, hv, hne, hpos]
    · exact (Blaming.run hpid (h.mono fun _ _ h => h.1)).withoutTls hk.inOrder hk.performing
  · have hk := TlsKnown.run hpid h
    have h' : Run (step env) (fun _ a => Created a) (measurementStart rtt download upload old) s' :=
      .tail h (show Created .timer from trivial) hs
    have hall (u : Sys) (hu : Run (step env) (fun _ a => Created a) s' u) : Threads env u :=
      Threads.run (fun _ _ h => h) (h'.trans hu)
    simp only [Checked, Classical.not_imp] at hck
    obtain ⟨hp, hno⟩ := hck
    have hip : s.phase.testCase = .ip := by
      have hwithin := (hk.threads.timer.called _ _ hp).2
      simp only [CallbackPc.within, Bool.and_eq_true, beq_iff_eq] at hwithin
      exact hwithin.2
    have hnone : s.sh.cb.jMeasurementResultsIp.tlsOverhead = none := by
      rw [← Option.not_isSome_iff_eq_none]
      exact fun hv => hno (hk.handing.source hip hv)
    have hafter : IpRead s' ∧ s'.sh.cb.jMeasurementResultsIp.tlsOverhead = none := by
      cases step_moved hk.threads.past hs with
      | timer hstep =>
        have hleft := hk.threads.leftIp (CTimer.run_moves hstep)
        refine ⟨⟨hleft, fun _ => CTimer.run_readsIp hp hstep⟩, ?_⟩
        rcases CTimer.run_ipInfo hstep with hcb | ⟨c, w, -, -, hw, hcb⟩
        · simp only [hcb, hnone]
        · simp only [hcb, copyIp_tlsOverhead]
          rw [← Option.not_isSome_iff_eq_none]
          exact fun hv => hno ⟨w, List.mem_of_getElem? hw, hv⟩
    obtain ⟨v, hv, -⟩ := hwith.stored
    rw [hafter.1.run hall ht, hafter.2] at hv
    contradiction

/-- An ip report with all TLS parameters. -/
def fullReport : List Char :=
  ("\x7b\"cmd\":\"ip_report\",\"client\":\"192.0.2.1\",\"tls_version\":\"TLSv1.3\"," ++
    "\"tls_cipher_suite\":\"AES\",\"tls_overhead\":\"29\"\x7d").toList

/-- The ip test up to the receive of its worker. -/
def ipReceive : List Action :=
  List.replicate 8 (Action.main true) ++ List.replicate 8 (Action.worker 0 {})

/-- The ip test with that report, and the first stream of the download test. -/
def reportedOverhead : List Action :=
  ipReceive ++ [Action.worker 0 { code := fullReport.length, text := fullReport }] ++
    List.replicate 5 (Action.worker 0 {}) ++ List.replicate 17 Action.timer ++
    [Action.clock 600000] ++ List.replicate 27 Action.timer ++
    List.replicate 14 (Action.main true)

set_option maxRecDepth 4000 in
theorem ip_finish_has_overhead_reported : ∃ s : Sys, s.sh.g.performedIp = true ∧
    s.phase.testCase = .download ∧ s.phase.workers.map Worker.mTlsOverhead = [29] ∧
    WithOverhead tlsEnv s := by
  have h := (ip_finish_has_overhead tlsEnv (fun _ i j h => Int.ofNat.inj h) rfl false true false
    Globals.default).1 _ (run_of_exec reportedOverhead rfl)
  exact ⟨_, by decide, by decide, by decide, h.1 (by decide)⟩

/-- The peer closes the connection of the ip test instead; the timer ends it after a minute. -/
def closedIp : List Action :=
  ipReceive ++ List.replicate 3 (Action.worker 0 {}) ++ List.replicate 17 Action.timer ++
    [Action.clock 61000000] ++ List.replicate 20 Action.timer ++
    List.replicate 14 (Action.main true)

set_option maxRecDepth 4000 in
/-- The download test follows without an overhead, and TLS_PARAMETERS_MISSING is false. -/
theorem closedIp_finishes : ∃ s, Run (step tlsEnv) (fun _ a => Created a)
      (measurementStart false true false Globals.default) s ∧ s.sh.g.performedIp = true ∧
    s.sh.g.running = true ∧ s.sh.g.tlsParametersMissing = false ∧ s.phase.testCase = .download ∧
    s.phase.workers.map Worker.mTlsOverhead = [0] ∧ ¬ WithOverhead tlsEnv s := by
  obtain ⟨s, hs, hperf, hrun, htls, htc, hw, hnone⟩ : ∃ s, Run (step tlsEnv) (fun _ a => Created a)
        (measurementStart false true false Globals.default) s ∧ s.sh.g.performedIp = true ∧
      s.sh.g.running = true ∧ s.sh.g.tlsParametersMissing = false ∧ s.phase.testCase = .download ∧
      s.phase.workers.map Worker.mTlsOverhead = [0] ∧
      s.sh.cb.jMeasurementResultsIp.tlsOverhead = none :=
    ⟨_, run_of_exec closedIp rfl, by decide, by decide, by decide, by decide, by decide, by decide⟩
  refine ⟨s, hs, hperf, hrun, htls, htc, hw, fun h => ?_⟩
  obtain ⟨v, hv, -⟩ := h.stored
  rw [hnone] at hv
  contradiction

end IasClient
