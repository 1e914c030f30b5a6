import IasClient.Control.Order
import IasClient.Control.Reason
import IasClient.Model.Libtool

namespace IasClient

open Framework

/-- A test case is started, or the measurement is reported as completed. -/
def Event.goesOn : Event → Bool
  | .startTestCase _ => true
  | .platform _ m => m.cmd == .completed

/-- Every stream thread has been waited for and its object destroyed, and in no continuation does
the measurement go on. -/
structure LeavesNothing (env : Env) (s : Sys) : Prop where
  destroyed : ∀ w ∈ s.phase.workers, w.pc = .returned ∧ w.destroyed = true
  ends : ∀ s', Run (IasClient.step env) (fun _ _ => True) s s' →
    ∀ e ∈ s'.sh.log.drop s.sh.log.length, e.goesOn = false

/-- The positions of a timer that has seen no worker: its outer loop, and the way out of it after a
stop. -/
def TimerPc.unstaffed (running : Bool) : TimerPc → Prop
  | .outerRunning | .outerStopped | .ifUnreachable | .ifForbidden | .ifTlsParametersMissing
  | .ifTimerRunning | .countSynced => True
  | .finishRunning | .clearActive | .returned => running = false
  | _ => False

/-- The timer runs in a test case that has no worker. -/
structure Unstaffed (s : Sys) : Prop where
  workers : s.phase.workers = []
  instances : 1 ≤ s.phase.timer.mInstances
  hasError : s.sh.g.hasError = false
  reason : ¬ s.sh.g.reason
  synced : s.sh.g.syncingThreads = .empty
  timerRunning : s.sh.g.timerRunning = false
  timerStopped : s.sh.g.timerStopped = false
  timer : s.phase.timer.pc.unstaffed s.sh.g.running

/-- No test case after the current one is going to start. -/
def Shut (s : Sys) : Prop :=
  match s.main with
  | .gate .upload => s.sh.g.upload = false ∨ s.sh.g.running = false
  | .gateRunning .upload => s.sh.g.running = false
  | .endPhase | .shutdown | .finished => True
  | _ => False

variable {env : Env} {s s' : Sys} {a : Action}

theorem Unstaffed.moveTo (h : Unstaffed s) {pc : TimerPc} (hpc : pc.unstaffed s.sh.g.running) :
    Unstaffed { s with phase := { s.phase with timer := { s.phase.timer with pc := pc } } } :=
  ⟨h.workers, h.instances, h.hasError, h.reason, h.synced, h.timerRunning, h.timerStopped, hpc⟩

/-- The timer of a test case without a worker counts nobody and sends nothing. -/
theorem Unstaffed.step_timer (h : Unstaffed s) {sh : Shared} {t : Timer}
    (hs : CTimer.run env s.phase.testCase s.phase.objects s.sh s.phase.timer = some (sh, t)) :
    Unstaffed { s with sh := sh, phase := { s.phase with timer := t } } ∧ sh.log = s.sh.log := by
  have hcount : s.sh.g.syncCounter = 0 := by
    simp [Globals.syncCounter, h.synced, OrdMap.empty]
  have hn := h.instances
  have hne : ¬ (s.sh.g.syncCounter : Int) = s.phase.timer.mInstances := by omega
  have hr := h.reason
  simp only [Globals.reason, not_or] at hr
  obtain ⟨hunreachable, hforbidden, htls, -⟩ := hr
  have ht := h.timer
  have hgo {pc : TimerPc} (hs : some (s.sh, { s.phase.timer with pc := pc }) = some (sh, t))
      (hpc : pc.unstaffed s.sh.g.running) :
      Unstaffed { s with sh := sh, phase := { s.phase with timer := t } } ∧ sh.log = s.sh.log := by
    simp only [Option.some.injEq, Prod.mk.injEq] at hs
    obtain ⟨rfl, rfl⟩ := hs
    exact ⟨h.moveTo hpc, rfl⟩
  cases hp : s.phase.timer.pc <;> simp only [TimerPc.unstaffed, hp] at ht <;>
    simp only [CTimer.run, hp, Timer.goto] at hs
  case outerRunning =>
    split at hs
    · exact hgo hs trivial
    · rename_i hrun
      exact hgo hs ((Bool.not_eq_true _).mp hrun)
  case outerStopped =>
    rw [h.timerStopped] at hs
    exact hgo hs trivial
  case ifUnreachable =>
    rw [if_neg fun hc => hunreachable hc.1] at hs
    exact hgo hs trivial
  case ifForbidden =>
    rw [if_neg fun hc => hforbidden hc.1] at hs
    exact hgo hs trivial
  case ifTlsParametersMissing =>
    rw [if_neg fun hc => htls hc.1] at hs
    exact hgo hs trivial
  case ifTimerRunning =>
    rw [h.timerRunning] at hs
    exact hgo hs trivial
  case countSynced =>
    rw [if_neg hne] at hs
    exact hgo hs trivial
  case finishRunning =>
    rw [ht] at hs
    exact hgo hs ht
  case clearActive =>
    simp only [Option.some.injEq, Prod.mk.injEq] at hs
    obtain ⟨rfl, rfl⟩ := hs
    exact ⟨⟨h.workers, hn, h.hasError, h.reason, h.synced, h.timerRunning, h.timerStopped, ht⟩, rfl⟩
  all_goals contradiction

theorem Unstaffed.congr (h : Unstaffed s) (hp : s'.phase = s.phase)
    (he : s'.sh.g.hasError = s.sh.g.hasError) (hr : s'.sh.g.reason ↔ s.sh.g.reason)
    (hs : s'.sh.g.syncingThreads = s.sh.g.syncingThreads)
    (ht : s'.sh.g.timerRunning = s.sh.g.timerRunning)
    (hst : s'.sh.g.timerStopped = s.sh.g.timerStopped)
    (hrun : s.sh.g.running = false → s'.sh.g.running = false) : Unstaffed s' where
  workers := by rw [hp]; exact h.workers
  instances := by rw [hp]; exact h.instances
  hasError := he.trans h.hasError
  reason := fun h' => h.reason (hr.mp h')
  synced := hs.trans h.synced
  timerRunning := ht.trans h.timerRunning
  timerStopped := hst.trans h.timerStopped
  timer := by
    have hu := h.timer
    rw [hp]
    cases hpc : s.phase.timer.pc <;> simp_all [TimerPc.unstaffed]

/-- The measurement does not go on: what every continuation of a failed start keeps. -/
structure Closing (s : Sys) : Prop where
  past : ∀ p ∈ s.past, p.Ended
  unstaffed : Unstaffed s
  shut : Shut s

theorem Closing.step_main (h : Closing s) {created : Bool} (hs : mainStep env created s = some s') :
    Closing s' ∧ s'.sh.log = s.sh.log := by
  obtain ⟨hpast, hu, hshut⟩ := h
  have hgo {pc : MainPc} (hpc : Shut { s with main := pc }) : Closing { s with main := pc } :=
    ⟨hpast, hu.congr rfl rfl .rfl rfl rfl rfl id, hpc⟩
  cases hm : s.main <;> simp only [Shut, hm] at hshut <;>
    simp only [mainStep, hm, Option.some.injEq] at hs
  all_goals try contradiction
  case gate k =>
    cases k <;> simp only at hshut
    subst hs
    split
    · rename_i hen
      refine ⟨hgo ?_, rfl⟩
      exact hshut.resolve_left (by simpa [Globals.enabled] using hen)
    · exact ⟨hgo trivial, rfl⟩
  case gateRunning k =>
    cases k <;> simp only at hshut
    subst hs
    rw [hshut]
    exact ⟨hgo trivial, rfl⟩
  case endPhase =>
    subst hs
    exact ⟨⟨hpast, hu.congr rfl rfl .rfl rfl rfl rfl id, trivial⟩, rfl⟩
  case shutdown =>
    subst hs
    exact ⟨⟨hpast, hu.congr rfl rfl .rfl rfl rfl rfl (fun _ => rfl), trivial⟩, rfl⟩

theorem Shut.persists (h : Shut s) (hm : s'.main = s.main) (hg : s.sh.g.Persists s'.sh.g) :
    Shut s' := by
  have hupload : s'.sh.g.upload = s.sh.g.upload := hg.enabled .upload
  unfold Shut at h ⊢
  rw [hm]
  split at h
  · rw [hupload]
    exact h.imp_right hg.running
  · exact hg.running h
  all_goals exact h

theorem Closing.step (h : Closing s) (hs : IasClient.step env a s = some s') :
    Closing s' ∧ s'.sh.log = s.sh.log := by
  have hshut (hm : s'.main = s.main) : Shut s' := h.shut.persists hm (step_persists h.past hs)
  cases step_moved h.past hs with
  | main hm => exact h.step_main hm
  | timer hstep =>
    obtain ⟨hu, hlog⟩ := h.unstaffed.step_timer hstep
    exact ⟨⟨h.past, hu, hshut rfl⟩, hlog⟩
  | worker hj hstep =>
    rw [h.unstaffed.workers] at hj
    simp at hj
  | stop =>
    exact ⟨⟨h.past, h.unstaffed.congr rfl rfl .rfl rfl rfl rfl (fun _ => rfl), hshut rfl⟩, rfl⟩
  | clock now => exact ⟨⟨h.past, h.unstaffed.congr rfl rfl .rfl rfl rfl rfl id, hshut rfl⟩, rfl⟩

/-- What the main thread finds on its way to the first worker of a test case. -/
def Opening (s : Sys) : Prop :=
  match s.main with
  | .gate .ip | .gateRunning .ip | .startTestCase _ => s.sh.g.hasError = false
  | .construct _ => s.sh.g.hasError = false ∧ s.sh.g.syncingThreads = .empty
  | .startMeasurement _ | .create _ => (∀ w ∈ s.phase.workers, w.destroyed = false) ∧
      (s.phase.workers = [] → 1 ≤ s.phase.timer.mInstances → Unstaffed s)
  | _ => True

theorem Opening.step_main (h : Opening s) (ht : Threads env s) (ho : Owing s)
    (hs : mainStep env true s = some s') : Opening s' := by
  have hj := ht.joined
  have hafter (k : TestCase) (s : Sys) : Opening { s with main := afterTestCase k } := by
    cases k <;> trivial
  cases hm : s.main <;> simp only [mainStep, hm] at hs
  all_goals simp only [Opening, hm] at h
  case gate k =>
    simp only [Option.some.injEq] at hs
    subst hs
    split
    · cases k <;> exact h
    · exact hafter k s
  case gateRunning k =>
    simp only [Option.some.injEq] at hs
    subst hs
    split
    · cases k
      · exact h
      all_goals trivial
    · exact hafter k s
  case gateError k =>
    simp only [Option.some.injEq] at hs
    subst hs
    split
    · exact hafter k s
    · rename_i he
      simpa [Opening] using he
  case startTestCase k =>
    simp only [Option.some.injEq] at hs
    subst hs
    simp only [Opening]
    split <;> exact ⟨h, rfl⟩
  case construct k =>
    simp only [Joined, hm] at hj
    simp only [Option.some.injEq] at hs
    subst hs
    have hreason : ¬ s.sh.g.reason := by
      intro hr
      have := ho.hasError hj.1.2 hr
      simp [h.1] at this
    refine ⟨by simp [hj.2.1], fun hw hn => ?_⟩
    exact ⟨hw, hn, h.1, hreason, h.2, rfl, rfl, trivial⟩
  case startMeasurement k =>
    split at hs
    all_goals
      simp only [Option.some.injEq] at hs
      subst hs
    · exact ⟨h.1, fun hw hn => (h.2 hw hn).congr rfl rfl .rfl rfl rfl rfl id⟩
    · exact ⟨h.1, fun hw hn => (h.2 hw hn).congr rfl rfl .rfl rfl rfl rfl id⟩
  case create k =>
    split at hs
    all_goals
      simp only [if_true, Option.some.injEq] at hs
      subst hs
    · refine ⟨fun w hw => ?_, by simp⟩
      rcases List.mem_append.mp hw with hw | hw
      · exact h.1 w hw
      · rw [List.mem_singleton.mp hw]
        rfl
    · trivial
  all_goals repeat' (split at hs)
  all_goals try contradiction
  all_goals
    simp only [Option.some.injEq] at hs
    subst hs
    first | exact hafter _ s | trivial

theorem Opening.step_timer (h : Opening s) (ht : Threads env s) {sh : Shared} {t : Timer}
    (hs : CTimer.run env s.phase.testCase s.phase.objects s.sh s.phase.timer = some (sh, t)) :
    Opening { s with sh := sh, phase := { s.phase with timer := t } } := by
  obtain ⟨k, hin, hc⟩ := ht.timer_inside (CTimer.run_moves hs)
  have hn := CTimer.run_mInstances hs
  cases hm : s.main <;> simp only [hm, MainPc.inside, reduceCtorEq] at hin <;>
    simp only [Opening, hm] at h ⊢
  case construct l =>
    simp only [Option.some.injEq] at hin
    exact absurd (hin ▸ hm) hc
  case startMeasurement l =>
    refine ⟨h.1, fun hw h1 => ?_⟩
    exact ((h.2 hw (hn ▸ h1)).step_timer hs).1.congr rfl rfl .rfl rfl rfl rfl id
  case create l =>
    refine ⟨h.1, fun hw h1 => ?_⟩
    exact ((h.2 hw (hn ▸ h1)).step_timer hs).1.congr rfl rfl .rfl rfl rfl rfl id

theorem Opening.step_worker (h : Opening s) (ht : Threads env s) {j : Nat} {o : Outcome}
    {w w' : Worker} {g : Globals} (hw : s.phase.workers[j]? = some w)
    (hs : Worker.run env s.phase.testCase o s.sh.g w = some (g, w')) :
    Opening { s with
      sh := { s.sh with g := g }
      phase := { s.phase with workers := s.phase.workers.set j w' } } := by
  have hj := ht.joined
  have hkept := Worker.run_kept hs
  have hmem := List.mem_of_getElem? hw
  have hne : ¬ s.phase.WorkersReturned := fun hr => hkept.moves (hr w hmem)
  cases hm : s.main <;> simp only [Joined, hm] at hj <;> simp only [Opening, hm] at h ⊢
  case gate => exact absurd hj.2 hne
  case gateRunning => exact absurd hj.2 hne
  case startTestCase => exact absurd hj.2 hne
  case construct => exact absurd hj.1.2 hne
  case startMeasurement =>
    rw [hj.1] at hmem
    simp at hmem
  case create =>
    refine ⟨fun x hx => ?_, fun hnil => ?_⟩
    · rcases List.mem_or_eq_of_mem_set hx with hx | rfl
      · exact h.1 x hx
      · exact hkept.destroyed.trans (h.1 w hmem)
    · have hold : s.phase.workers = [] := by simpa using congrArg List.length hnil
      rw [hold] at hmem
      simp at hmem

/-- A step that moves no thread. -/
theorem Opening.outside (h : Opening s) {g : Globals} (he : g.hasError = s.sh.g.hasError)
    (hr : g.reason ↔ s.sh.g.reason) (hs : g.syncingThreads = s.sh.g.syncingThreads)
    (ht : g.timerRunning = s.sh.g.timerRunning) (hst : g.timerStopped = s.sh.g.timerStopped)
    (hrun : s.sh.g.running = false → g.running = false) :
    Opening { s with sh := { s.sh with g := g } } := by
  have hu (h : Unstaffed s) : Unstaffed { s with sh := { s.sh with g := g } } :=
    h.congr rfl he hr hs ht hst hrun
  cases hm : s.main <;> simp only [Opening, hm, he, hs] at h ⊢
  case startMeasurement | create =>
    exact ⟨h.1, fun hw hn => (hu (h.2 hw hn)).congr rfl rfl .rfl rfl rfl rfl id⟩
  case gate k => cases k <;> exact h
  case gateRunning k => cases k <;> exact h
  all_goals exact h

theorem Opening.step (h : Opening s) (ht : Threads env s) (ho : Owing s) (hc : Created a)
    (hs : IasClient.step env a s = some s') : Opening s' := by
  cases step_moved ht.past hs with
  | main hm =>
    subst hc
    exact h.step_main ht ho hm
  | timer hstep => exact h.step_timer ht hstep
  | worker hj hstep => exact h.step_worker ht hj hstep
  | stop => exact h.outside rfl .rfl rfl rfl rfl (fun _ => rfl)
  | clock now => exact h.outside rfl .rfl rfl rfl rfl id

theorem Opening.run {rtt download upload : Bool} {old : Globals} {ok : Sys → Action → Prop}
    (hok : ∀ t a, ok t a → Created a)
    (h : Run (IasClient.step env) ok (measurementStart rtt download upload old) s) : Opening s :=
  Run.invariant_of (fun _ hr => And.intro (Threads.run hok hr) (Owing.run hok hr))
    (fun _ _ _ ht _ ho ha hs => ho.step ht.1 ht.2 (hok _ _ ha) hs) rfl h

/-- With no worker, nothing that follows the failure goes on. -/
theorem Closing.ends (h : Closing s)
    (hr : Run (IasClient.step env) (fun _ _ => True) s s') : s'.sh.log = s.sh.log := by
  have hall : Closing s' ∧ s'.sh.log = s.sh.log := by
    induction hr with
    | refl => exact ⟨h, rfl⟩
    | tail _ _ hs ih =>
      obtain ⟨hc, hlog⟩ := ih.1.step hs
      exact ⟨hc, hlog.trans ih.2⟩
  exact hall.2

/-- The main thread passes the three tests in front of the upload test and starts it. -/
theorem starts_upload (env : Env) (hm : s.main = .gate .upload) (hu : s.sh.g.upload = true)
    (hr : s.sh.g.running = true) (he : s.sh.g.hasError = false) :
    ∃ s', Run (IasClient.step env) (fun _ _ => True) s s' ∧
      .startTestCase .upload ∈ s'.sh.log.drop s.sh.log.length := by
  have h1 : IasClient.step env (.main true) s = some { s with main := .gateRunning .upload } := by
    simp [IasClient.step, mainStep, hm, Globals.enabled, hu]
  have h2 : IasClient.step env (.main true) { s with main := .gateRunning .upload } =
      some { s with main := .gateError .upload } := by
    simp [IasClient.step, mainStep, hr]
  have h3 : IasClient.step env (.main true) { s with main := .gateError .upload } =
      some { s with main := .startTestCase .upload } := by
    simp [IasClient.step, mainStep, he]
  obtain ⟨s', h4, hlog⟩ : ∃ s', IasClient.step env (.main true)
      { s with main := .startTestCase .upload } = some s' ∧
      .startTestCase .upload ∈ s'.sh.log.drop s.sh.log.length := by
    refine ⟨_, rfl, ?_⟩
    split <;> simp [callbackToPlatform]
  exact ⟨s', .tail (.tail (.tail (.tail .refl trivial h1) trivial h2) trivial h3) trivial h4, hlog⟩

/-- When a `createThread` of the download or upload test fails, nothing is left behind exactly when
it is the first one and no test case after it is going to start. -/
theorem failed_start_iff (env : Env) (rtt download upload : Bool) (old : Globals) {k : TestCase}
    (hk : k = .download ∨ k = .upload)
    (h : Run (IasClient.step env) (fun _ a => Created a)
      (measurementStart rtt download upload old) s)
    (hm : s.main = .create k) (hs : IasClient.step env (.main false) s = some s')
    (hlt : (s.phase.workers.length : Int) < s.sh.g.instances) : LeavesNothing env s' ↔
      s.phase.workers = [] ∧
        (k = .upload ∨ s.sh.g.upload = false ∨ s.sh.g.running = false) := by
  have ht := Threads.run (fun _ _ h => h) h
  have hopen := Opening.run (fun _ _ h => h) h
  simp only [Opening, hm] at hopen
  have hs' : s' = { s with main := afterTestCase k } := by
    simp only [IasClient.step, mainStep, hm, hlt, hk, if_true, Bool.false_eq_true, if_false,
      Option.some.injEq] at hs
    exact hs.symm
  obtain ⟨hinst, hmi⟩ := ht.instances k (by simp [hm, MainPc.inside]) (by simp [hm])
  have hone : 1 ≤ s.phase.timer.mInstances := by omega
  subst hs'
  constructor
  · intro hl
    have hnil : s.phase.workers = [] := by
      by_contra hne
      obtain ⟨w, hw⟩ := List.exists_mem_of_ne_nil _ hne
      have := (hl.destroyed w hw).2
      simp [hopen.1 w hw] at this
    refine ⟨hnil, ?_⟩
    by_contra hgo
    simp only [not_or, Bool.not_eq_false] at hgo
    obtain ⟨hne, hup, hrun⟩ := hgo
    have hdown : k = .download := hk.resolve_right hne
    subst hdown
    obtain ⟨s₂, hrun₂, hlog⟩ := starts_upload env (s := { s with main := afterTestCase .download })
      rfl hup hrun (hopen.2 hnil hone).hasError
    have := hl.ends s₂ hrun₂ _ hlog
    simp [Event.goesOn] at this
  · rintro ⟨hnil, hshut⟩
    have hu : Unstaffed { s with main := afterTestCase k } :=
      (hopen.2 hnil hone).congr rfl rfl .rfl rfl rfl rfl id
    have hclosing : Closing { s with main := afterTestCase k } := by
      refine ⟨ht.past, hu, ?_⟩
      rcases hk with rfl | rfl
      · exact hshut.resolve_left (by simp)
      · trivial
    refine ⟨by simp [hnil], fun s₂ hrun e he => ?_⟩
    rw [hclosing.ends hrun] at he
    simp at he

set_option maxRecDepth 4000 in
theorem failed_start_iff_firstStream : ∃ s s', s.main = .create .download ∧
    step twoStreamEnv (.main false) s = some s' ∧ LeavesNothing twoStreamEnv s' := by
  obtain ⟨s, hrun, hm, hlt, hw⟩ : ∃ s, Run (step twoStreamEnv) (fun _ a => Created a)
      (measurementStart false true false Globals.default) s ∧ s.main = .create .download ∧
      (s.phase.workers.length : Int) < s.sh.g.instances ∧
      s.phase.workers.length = 0 ∧ s.sh.g.upload = false :=
    ⟨_, run_of_exec (upToStream 0) rfl, by decide, by decide, by decide⟩
  have hs : step twoStreamEnv (.main false) s = some { s with main := .gate .upload } := by
    simp [step, mainStep, hm, hlt, afterTestCase, TestCase.next]
  refine ⟨s, _, hm, hs, ?_⟩
  apply (failed_start_iff twoStreamEnv false true false Globals.default (.inl rfl) hrun hm hs hlt).mpr
  exact ⟨List.length_eq_zero_iff.mp hw.1, .inr (.inl hw.2)⟩

set_option maxRecDepth 4000 in
/-- The second of two threads is not created: the first is neither waited for nor destroyed. -/
theorem failedStart_leaves_stream : ∃ s s', Run (step twoStreamEnv) (fun _ a => Created a)
      (measurementStart false true false Globals.default) s ∧ s.main = .create .download ∧
    s.phase.workers.length = 1 ∧ (s.phase.workers.length : Int) < s.sh.g.instances ∧
    step twoStreamEnv (.main false) s = some s' ∧ ¬ LeavesNothing twoStreamEnv s' := by
  obtain ⟨s, hrun, hm, hlen, hlt, hd⟩ : ∃ s, Run (step twoStreamEnv) (fun _ a => Created a)
      (measurementStart false true false Globals.default) s ∧ s.main = .create .download ∧
      s.phase.workers.length = 1 ∧ (s.phase.workers.length : Int) < s.sh.g.instances ∧
      ∀ w ∈ s.phase.workers, w.destroyed = false :=
    ⟨_, run_of_exec (upToStream 1) rfl, by decide, by decide, by decide, by decide⟩
  have hs : step twoStreamEnv (.main false) s = some { s with main := .gate .upload } := by
    simp [step, mainStep, hm, hlt, afterTestCase, TestCase.next]
  refine ⟨s, _, hrun, hm, hlen, hlt, hs, fun hl => ?_⟩
  obtain ⟨w, hw⟩ := List.exists_mem_of_length_pos (Nat.lt_of_lt_of_eq Nat.one_pos hlen.symm)
  have := (hl.destroyed w hw).2
  simp [hd w hw] at this

end IasClient
