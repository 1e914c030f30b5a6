import IasClient.Control.Independence

namespace IasClient

open Framework

/-- How far the next start of a measurement has come. -/
inductive Stage
  | measuring
  | stopped
  | armed
  | reset
  | replaced
  deriving DecidableEq

/-- A measurement, and the one that is started after it was stopped; the globals are those of both.
-/
structure Restart where
  g : Globals
  stage : Stage
  old : Sys
  new : Option Sys

/-- The step is one of a thread. -/
def Action.ofThread : Action → Bool
  | .stop | .clock _ => false
  | _ => true

inductive RestartAction
  | old (a : Action)
  | new (a : Action)
  | stop
  | clock (now : UInt64)
  | arm (c : Parameters)
  | reset
  | replace (c : Parameters)

/-- The threads of a measurement over the globals as they are now. -/
def Sys.withGlobals (s : Sys) (g : Globals) : Sys := { s with sh := { s.sh with g := g } }

namespace Restart

/-- One atomic step. A call of `measurementStop` returns once RUNNING is false. `startMeasurement`
of the connector then sets RUNNING and the chosen test cases, and `measurementStart` resets its
flags and later replaces `pCallback`. -/
def step (env env' : Env) (a : RestartAction) (r : Restart) : Option Restart :=
  match a with
  | .old a =>
    if a.ofThread then
      (IasClient.step env a (r.old.withGlobals r.g)).map fun s => { r with g := s.sh.g, old := s }
    else none
  | .new a =>
    if a.ofThread then
      r.new.bind fun s => (IasClient.step env' a (s.withGlobals r.g)).map fun s =>
        { r with g := s.sh.g, new := some s }
    else none
  | .stop => some { r with
      g := { r.g with running := false }
      stage := if r.stage = .measuring then .stopped else r.stage }
  | .clock now => some { r with g := { r.g with now := now } }
  | .arm c =>
    if r.stage = .stopped then
      some { r with
        g := { r.g with running := true, rtt := c.rtt, download := c.download, upload := c.upload }
        stage := .armed }
    else none
  | .reset =>
    if r.stage = .armed then
      some { r with
        g := { r.g with
          performedIp := false
          performedRtt := false
          performedDownload := false
          performedUpload := false
          hasError := false
          unreachable := false
          streamsDropped := false
          forbidden := false
          tlsParametersMissing := false }
        stage := .reset }
    else none
  | .replace c =>
    if r.stage = .reset then
      some { r with
        g := { r.g with
          rtt := c.rtt
          download := c.download
          upload := c.upload
          timestampMeasurementStart := r.g.now.toNat * 1000 }
        stage := .replaced
        new := some (measurementStart c.rtt c.download c.upload r.g) }
    else none

/-- A measurement over whatever globals an earlier one left. -/
def begin (c : Parameters) (g : Globals) : Restart :=
  let s := measurementStart c.rtt c.download c.upload g
  { g := s.sh.g, stage := .measuring, old := s, new := none }

end Restart

/-- `startTestCase`, the constructor of CTimer, and the assignment of END. -/
def MainPc.touches : MainPc → Bool
  | .startTestCase _ | .construct _ | .endPhase => true
  | _ => false

/-- The writes of `syncing_threads` and TIMER_STOPPED. -/
def WorkerPc.touches : WorkerPc → Bool
  | .register | .setSynced | .pingSynced | .setStopped => true
  | _ => false

/-- The writes of TIMER_ACTIVE, TIMER_RUNNING, TIMER_STOPPED, TIMER_INDEX, the PERFORMED flags and
`currentTestPhase`. -/
def TimerPc.touches : TimerPc → Bool
  | .clearActive | .setTimerRunning | .errorStop | .dropStop | .closeWindow | .setIndex => true
  | .callback _ .ipStopped | .callback _ .performed | .callback _ .completed => true
  | _ => false

/-- What a stopped run must not do any more: a write of one of these globals, the start of a test
case, or a call of `CCallback::callback`. -/
def Touches (a : Action) (s s' : Sys) : Prop :=
  match a with
  | .main _ => s.main.touches = true
  | .timer => s.phase.timer.pc.touches = true ∨ ∃ c, s'.phase.timer.pc = .callback c .enter
  | .worker j _ => ∃ w, s.phase.workers[j]? = some w ∧ w.pc.touches = true
  | .pastTimer i => (∃ p, s.past[i]? = some p ∧ p.timer.pc.touches = true) ∨
      ∃ p c, s'.past[i]? = some p ∧ p.timer.pc = .callback c .enter
  | .pastWorker i j _ => ∃ p w, s.past[i]? = some p ∧ p.workers[j]? = some w ∧ w.pc.touches = true
  | .stop | .clock _ => False

/-- The named globals are as they were. -/
structure Globals.Untouched (g g' : Globals) : Prop where
  timerActive : g'.timerActive = g.timerActive
  timerRunning : g'.timerRunning = g.timerRunning
  timerStopped : g'.timerStopped = g.timerStopped
  timerIndex : g'.timerIndex = g.timerIndex
  performed : ∀ k, g'.performed k = g.performed k
  syncingThreads : g'.syncingThreads = g.syncingThreads
  currentTestPhase : g'.currentTestPhase = g.currentTestPhase

theorem Globals.Untouched.refl (g : Globals) : g.Untouched g :=
  ⟨rfl, rfl, rfl, rfl, fun _ => rfl, rfl, rfl⟩

variable {env env' : Env} {k : TestCase} {o : Outcome} {g g' : Globals} {w w' : Worker}
variable {s s' : Sys} {a : Action}

theorem Worker.run_untouched (h : Worker.run env k o g w = some (g', w'))
    (ht : w.pc.touches = false) : g.Untouched g' := by
  rcases Worker.run_cases h with ⟨-, rfl, rfl⟩ | h | ⟨-, h⟩
  · exact .refl _
  · cases hp : w.pc <;> simp only [catchException, hp, Worker.goto] at h
    all_goals try contradiction
    all_goals
      obtain ⟨rfl, rfl⟩ := Prod.mk.inj (Option.some.inj h)
      exact ⟨rfl, rfl, rfl, rfl, fun k => by cases k <;> rfl, rfl, rfl⟩
  · cases k <;> cases hp : w.pc <;>
      simp only [Worker.tryBlock, Ip.run, Ping.run, Download.run, Upload.run, connect, receiveLoop,
        hp, Worker.goto] at h
    all_goals try contradiction
    all_goals repeat' (split at h)
    all_goals try contradiction
    all_goals
      obtain ⟨rfl, rfl⟩ := Prod.mk.inj (Option.some.inj h)
      first
        | exact ⟨rfl, rfl, rfl, rfl, fun k => by cases k <;> rfl, rfl, rfl⟩
        | simp [hp, WorkerPc.touches] at ht

theorem Timer.Effect.untouched {sender : TestCase} {t t' : Timer} {sh sh' : Shared}
    (h : Timer.Effect sender t t' sh sh') (ht : t.pc.touches = false) : sh.g.Untouched sh'.g := by
  cases h
  case stopped hp =>
    rcases hp with ⟨hp, -⟩ | ⟨hp, -⟩ | ⟨hp, -⟩ | ⟨c, hp, -⟩ <;> simp [hp, TimerPc.touches] at ht
  case timerActive hp _ => simp [hp, TimerPc.touches] at ht
  case timerRunning hp _ => simp [hp, TimerPc.touches] at ht
  case index hp _ => simp [hp, TimerPc.touches] at ht
  case performed hp _ => simp [hp, TimerPc.touches] at ht
  case completed hp _ => simp [hp, TimerPc.touches] at ht
  all_goals exact ⟨rfl, rfl, rfl, rfl, fun k => by cases k <;> rfl, rfl, rfl⟩

/-- A step that does none of this leaves the named globals as they were. -/
theorem untouched_of_not_touches (h : step env a s = some s') (ht : ¬ Touches a s s') :
    s.sh.g.Untouched s'.sh.g := by
  cases a with
  | main created =>
    replace ht : s.main.touches = false := (Bool.not_eq_true _).mp ht
    replace h : mainStep env created s = some s' := h
    cases hp : s.main <;> simp only [mainStep, hp] at h <;> simp [hp, MainPc.touches] at ht
    all_goals repeat' (split at h)
    all_goals try contradiction
    all_goals
      obtain rfl := Option.some.inj h
      exact ⟨rfl, rfl, rfl, rfl, fun k => by cases k <;> rfl, rfl, rfl⟩
  | timer =>
    simp only [step, timerStep, Option.map_map, Option.map_eq_some_iff] at h
    obtain ⟨⟨sh, t⟩, hrun, rfl⟩ := h
    exact (CTimer.run_effect hrun).untouched ((Bool.not_eq_true _).mp fun hw => ht (.inl hw))
  | worker j o =>
    simp only [step, workerStep, Option.map_eq_some_iff, Option.bind_eq_some_iff] at h
    obtain ⟨_, ⟨w, hw, ⟨g, w'⟩, hrun, rfl⟩, rfl⟩ := h
    exact Worker.run_untouched hrun ((Bool.not_eq_true _).mp fun hpc => ht ⟨w, hw, hpc⟩)
  | pastTimer i =>
    simp only [step, timerStep, Option.map_eq_some_iff, Option.bind_eq_some_iff] at h
    obtain ⟨p, hi, _, ⟨⟨sh, t⟩, hrun, rfl⟩, rfl⟩ := h
    exact (CTimer.run_effect hrun).untouched
      ((Bool.not_eq_true _).mp fun hpc => ht (.inl ⟨p, hi, hpc⟩))
  | pastWorker i j o =>
    simp only [step, workerStep, Option.map_eq_some_iff, Option.bind_eq_some_iff] at h
    obtain ⟨p, hi, _, ⟨w, hw, ⟨g, w'⟩, hrun, rfl⟩, rfl⟩ := h
    exact Worker.run_untouched hrun ((Bool.not_eq_true _).mp fun hpc => ht ⟨p, w, hi, hw, hpc⟩)
  | stop =>
    obtain rfl := Option.some.inj h
    exact ⟨rfl, rfl, rfl, rfl, fun k => by cases k <;> rfl, rfl, rfl⟩
  | clock now =>
    obtain rfl := Option.some.inj h
    exact ⟨rfl, rfl, rfl, rfl, fun k => by cases k <;> rfl, rfl, rfl⟩

/-- The positions behind the loop, or on the way out after an error. -/
def WorkerPc.exits : WorkerPc → Bool
  | .setUnreachable | .setHasError | .httpUnreachable | .httpForbidden | .httpHasError => true
  | .ipClient | .ipTls | .tlsMissing | .tlsHasError | .ipVersion | .stopSender => true
  | .catchHasError | .catchRunning | .returned | .aborted => true
  | _ => false

/-- The writes, and the positions that lead to the first entry in `syncing_threads`. -/
def WorkerPc.registers : WorkerPc → Bool
  | .resolve | .timestamp => true
  | pc => pc.touches

/-- A worker that enters itself no more in `syncing_threads`, and does not stop the timer: it is on
its way out, or a stream that has received data. -/
def Worker.Quiet (k : TestCase) (w : Worker) : Prop :=
  w.pc.exits = true ∨ k ≠ .rttUdp ∧ w.dataReceived = true ∧ w.pc.registers = false

theorem Worker.Quiet.not_touches (h : w.Quiet k) : w.pc.touches = false := by
  rcases h with h | ⟨-, -, h⟩
  · cases hp : w.pc <;> simp [hp, WorkerPc.exits] at h <;> rfl
  · cases hp : w.pc <;> simp [hp, WorkerPc.registers, WorkerPc.touches] at h <;> rfl

theorem Worker.Quiet.step (h : w.Quiet k) (hs : Worker.run env k o g w = some (g', w')) :
    w'.Quiet k := by
  rcases Worker.run_cases hs with ⟨-, rfl, rfl⟩ | hs | ⟨-, hs⟩
  · exact .inl rfl
  · cases hp : w.pc <;> simp only [catchException, hp, Worker.goto] at hs
    all_goals try contradiction
    all_goals
      obtain ⟨rfl, rfl⟩ := Prod.mk.inj (Option.some.inj hs)
      exact .inl rfl
  · cases k <;> cases hp : w.pc <;>
      simp only [Worker.tryBlock, Ip.run, Ping.run, Download.run, Upload.run, connect, receiveLoop,
        hp, Worker.goto] at hs
    all_goals try contradiction
    all_goals repeat' (split at hs)
    all_goals try contradiction
    all_goals
      obtain ⟨rfl, rfl⟩ := Prod.mk.inj (Option.some.inj hs)
      simp only [Quiet, hp, WorkerPc.exits, WorkerPc.registers, WorkerPc.touches] at h ⊢
    all_goals simp_all

/-- The threads of a test case write nothing any more. -/
structure Phase.Quiet (p : Phase) : Prop where
  timer : p.timer.pc = .returned
  workers : ∀ w ∈ p.workers, w.Quiet p.testCase

theorem Phase.Quiet.timerStep {objects : List Worker} {sh : Shared} {p : Phase} (h : p.Quiet) :
    timerStep env objects sh p = none := by
  simp [IasClient.timerStep, CTimer.run, h.timer]

theorem Phase.Quiet.workerStep {j : Nat} {sh sh' : Shared} {p p' : Phase} (h : p.Quiet)
    (hs : workerStep env j o sh p = some (sh', p')) :
    p'.Quiet ∧ ¬ ∃ w, p.workers[j]? = some w ∧ w.pc.touches = true := by
  simp only [IasClient.workerStep, Option.bind_eq_some_iff, Option.map_eq_some_iff,
    Prod.mk.injEq] at hs
  obtain ⟨w, hw, ⟨g, w'⟩, hrun, rfl, rfl⟩ := hs
  have hquiet := h.workers w (List.mem_of_getElem? hw)
  refine ⟨⟨h.timer, fun v hv => ?_⟩, ?_⟩
  · rcases List.mem_or_eq_of_mem_set hv with hv | rfl
    · exact h.workers v hv
    · exact hquiet.step hrun
  · rintro ⟨v, hv, htouches⟩
    obtain rfl := Option.some.inj (hw.symm.trans hv)
    rw [hquiet.not_touches] at htouches
    contradiction

/-- No thread of the measurement has anything left to do but to return, or to receive. -/
structure Over (s : Sys) : Prop where
  main : s.main = .shutdown ∨ s.main = .finished
  phase : s.phase.Quiet
  past : ∀ p ∈ s.past, p.Quiet

theorem Over.step (h : Over s) (hs : IasClient.step env a s = some s') :
    ¬ Touches a s s' ∧ Over s' := by
  cases a with
  | main created =>
    replace hs : mainStep env created s = some s' := hs
    rcases h.main with hp | hp <;> simp only [mainStep, hp] at hs
    · obtain rfl := Option.some.inj hs
      refine ⟨?_, .inr rfl, h.phase, h.past⟩
      simp [Touches, hp, MainPc.touches]
    · contradiction
  | timer =>
    simp only [IasClient.step, h.phase.timerStep, Option.map_none] at hs
    contradiction
  | worker j o =>
    simp only [IasClient.step, Option.map_eq_some_iff] at hs
    obtain ⟨⟨sh, p⟩, hstep, rfl⟩ := hs
    obtain ⟨hquiet, hnot⟩ := h.phase.workerStep hstep
    exact ⟨hnot, h.main, hquiet, h.past⟩
  | pastTimer i =>
    simp only [IasClient.step, Option.bind_eq_some_iff] at hs
    obtain ⟨p, hi, hs⟩ := hs
    rw [(h.past p (List.mem_of_getElem? hi)).timerStep] at hs
    contradiction
  | pastWorker i j o =>
    simp only [IasClient.step, Option.bind_eq_some_iff, Option.map_eq_some_iff] at hs
    obtain ⟨p, hi, ⟨sh, p'⟩, hstep, rfl⟩ := hs
    obtain ⟨hquiet, hnot⟩ := (h.past p (List.mem_of_getElem? hi)).workerStep hstep
    refine ⟨?_, h.main, h.phase, fun q hq => ?_⟩
    · rintro ⟨q, w, hq, hw, htouches⟩
      obtain rfl := Option.some.inj (hi.symm.trans hq)
      exact hnot ⟨w, hw, htouches⟩
    · rcases List.mem_or_eq_of_mem_set hq with hq | rfl
      · exact h.past q hq
      · exact hquiet
  | stop | clock =>
    obtain rfl := Option.some.inj hs
    exact ⟨id, h.main, h.phase, h.past⟩

theorem Over.withGlobals (h : Over s) (g : Globals) : Over (s.withGlobals g) :=
  ⟨h.main, h.phase, h.past⟩

/-- `pCallback` is replaced only when the stopped measurement is over. -/
def ReplacedOver (r : Restart) : RestartAction → Prop
  | .replace _ => Over r.old
  | _ => True

namespace Restart

variable {r r' : Restart} {b : RestartAction}

/-- A step of a thread of the stopped measurement. -/
theorem step_old (hs : Restart.step env env' (.old a) r = some r') :
    IasClient.step env a (r.old.withGlobals r.g) = some r'.old ∧ r'.g = r'.old.sh.g ∧
      r'.stage = r.stage ∧ r'.new = r.new := by
  simp only [Restart.step] at hs
  split at hs
  · simp only [Option.map_eq_some_iff] at hs
    obtain ⟨s, hstep, rfl⟩ := hs
    exact ⟨hstep, rfl, rfl, rfl⟩
  · contradiction

theorem over_step (h : r.stage = .replaced → Over r.old) (hb : ReplacedOver r b)
    (hs : Restart.step env env' b r = some r') (hr : r'.stage = .replaced) : Over r'.old := by
  cases b with
  | old a =>
    obtain ⟨hstep, -, hstage, -⟩ := step_old hs
    exact (((h (hstage ▸ hr)).withGlobals r.g).step hstep).2
  | replace c =>
    simp only [Restart.step] at hs
    split at hs
    · obtain rfl := Option.some.inj hs
      exact hb
    · contradiction
  | new a =>
    simp only [Restart.step] at hs
    split at hs
    · simp only [Option.bind_eq_some_iff, Option.map_eq_some_iff] at hs
      obtain ⟨_, -, _, -, rfl⟩ := hs
      exact h hr
    · contradiction
  | stop =>
    obtain rfl := Option.some.inj hs
    by_cases hm : r.stage = .measuring
    · simp [hm] at hr
    · simp only [hm, if_false] at hr
      exact h hr
  | clock now =>
    obtain rfl := Option.some.inj hs
    exact h hr
  | arm | reset =>
    simp only [Restart.step] at hs
    split at hs
    · obtain rfl := Option.some.inj hs
      contradiction
    · contradiction

/-- From the moment `pCallback` is replaced, no step of a thread of the stopped measurement calls
`CCallback::callback`, starts a test case or writes one of the named globals. -/
theorem stopped_stays_stopped (env env' : Env) (c : Parameters) (g : Globals)
    (h : Run (Restart.step env env') ReplacedOver (begin c g) r) (hr : r.stage = .replaced)
    (a : Action) (hs : Restart.step env env' (.old a) r = some r') :
    ¬ Touches a (r.old.withGlobals r.g) r'.old ∧ r.g.Untouched r'.g := by
  have hover : Over r.old :=
    h.invariant (I := fun r => r.stage = .replaced → Over r.old)
      (fun _ _ _ ho hb hs => over_step ho hb hs) (by simp [begin]) hr
  obtain ⟨hstep, hg, -⟩ := step_old hs
  have hnot := ((hover.withGlobals r.g).step hstep).1
  rw [hg]
  exact ⟨hnot, untouched_of_not_touches hstep hnot⟩

/-- Every `createThread` of the measurement returns 0, and `pCallback` is not replaced. -/
def InProgress (_ : Restart) : RestartAction → Prop
  | .old a => Created a
  | .replace _ => False
  | _ => True

instance (r : Restart) : DecidablePred (InProgress r)
  | .old a => inferInstanceAs (Decidable (Created a))
  | .replace _ => isFalse id
  | .new _ | .stop | .clock _ | .arm _ | .reset => isTrue trivial

/-- Before the replacement, the threads of the measurement are as if nobody had started another. -/
theorem threads_step (h : r.new = none ∧ Threads env (r.old.withGlobals r.g))
    (hb : InProgress r b) (hs : Restart.step env env' b r = some r') :
    r'.new = none ∧ Threads env (r'.old.withGlobals r'.g) := by
  obtain ⟨hnone, hthreads⟩ := h
  cases b with
  | old a =>
    obtain ⟨hstep, hg, -, hnew⟩ := step_old hs
    refine ⟨hnew.trans hnone, ?_⟩
    rw [hg]
    exact hthreads.step hb hstep
  | new a =>
    simp only [Restart.step, hnone, Option.bind_none, ite_self] at hs
    contradiction
  | replace c => exact hb.elim
  | stop | clock =>
    obtain rfl := Option.some.inj hs
    exact ⟨hnone, hthreads.outside _ ⟨rfl, rfl, rfl⟩ hthreads.joined⟩
  | arm | reset =>
    simp only [Restart.step] at hs
    split at hs
    · obtain rfl := Option.some.inj hs
      exact ⟨hnone, hthreads.outside _ ⟨rfl, rfl, rfl⟩ hthreads.joined⟩
    · contradiction

/-- A measurement in which every thread was created is over once its main thread is in its last
`shutdown()`. -/
theorem over_of_shutdown {c : Parameters} {g : Globals}
    (h : Run (Restart.step env env') InProgress (begin c g) r)
    (hmain : r.old.main = .shutdown ∨ r.old.main = .finished) : Over r.old := by
  have hthreads : Threads env (r.old.withGlobals r.g) :=
    (h.invariant (I := fun r => r.new = none ∧ Threads env (r.old.withGlobals r.g))
      (fun _ _ _ ht hb hs => threads_step ht hb hs)
      ⟨rfl, measurementStart_threads env c.rtt c.download c.upload g⟩).2
  have hquiet {p : Phase} (hp : p.Ended) : p.Quiet :=
    ⟨hp.1, fun w hw => .inl (by rw [hp.2 w hw]; rfl)⟩
  have hjoined : (r.old.withGlobals r.g).phase.Ended := by
    have hj := hthreads.joined
    rcases hmain with hp | hp <;> simpa only [Joined, Sys.withGlobals, hp] using hj
  exact ⟨hmain, hquiet hjoined, fun p hp => hquiet (hthreads.past p hp)⟩

/-- The ip and the RTT test. -/
def ipAndRtt : Parameters := { Process.noTests with rtt := true }

/-- The stop lets the main thread pass every test case, up to its last `shutdown()`. -/
theorem stopped_stays_stopped_atShutdown : ∃ r, r.stage = .replaced ∧ r.old.main = .shutdown ∧
    ∀ a r', Restart.step Env.default Env.default (.old a) r = some r' →
      ¬ Touches a (r.old.withGlobals r.g) r'.old ∧ r.g.Untouched r'.g := by
  obtain ⟨r, hrun, hmain, hstage⟩ : ∃ r,
      Run (Restart.step Env.default Env.default) InProgress (begin ipAndRtt Globals.default) r ∧
        r.old.main = .shutdown ∧ r.stage = .reset :=
    ⟨_, run_of_exec
      (.stop :: List.replicate 7 (RestartAction.old (.main true)) ++ [.arm ipAndRtt, .reset]) rfl,
      by rfl, by rfl⟩
  have hover := over_of_shutdown hrun (.inl hmain)
  have hbefore : Run (Restart.step Env.default Env.default) ReplacedOver
      (begin ipAndRtt Globals.default) r := by
    refine hrun.mono fun _ b hb => ?_
    cases b with
    | replace => exact hb.elim
    | _ => trivial
  obtain ⟨r₁, hreplace, hreplaced, hold⟩ : ∃ r₁, Restart.step Env.default Env.default
      (.replace ipAndRtt) r = some r₁ ∧ r₁.stage = .replaced ∧ r₁.old = r.old := by
    rw [Restart.step, if_pos hstage]
    exact ⟨_, rfl, rfl, rfl⟩
  have hok : ReplacedOver r (.replace ipAndRtt) := hover
  have hrun₁ := hbefore.tail hok hreplace
  exact ⟨r₁, hreplaced, hold ▸ hmain, fun a r' hs =>
    stopped_stays_stopped _ _ _ _ hrun₁ hreplaced a hs⟩

/-- The timer of the ip test has not looked at RUNNING between the stop and the next start: it calls
`CCallback::callback` of the measurement that was stopped. -/
theorem stopped_calls_back : ∃ r r',
    Run (Restart.step Env.default Env.default) (fun _ _ => True) (begin ipAndRtt Globals.default) r ∧
      r.stage = .replaced ∧ Restart.step Env.default Env.default (.old .timer) r = some r' ∧
      r'.old.phase.timer.pc = .callback .starting .enter :=
  ⟨_, _, run_of_exec (List.replicate 8 (RestartAction.old (.main true)) ++
      List.replicate 10 (RestartAction.old (.worker 0 {})) ++
      [.stop, .arm ipAndRtt, .reset, .replace ipAndRtt] ++
      List.replicate 6 (RestartAction.old .timer)) rfl,
    by rfl, by rfl, by rfl⟩

end Restart

end IasClient
