import IasClient.Control.Reason
import IasClient.Control.Window
import IasClient.Model.Libtool

namespace IasClient

open Framework

def HasCmd (c : Cmd) (log : List Event) : Prop := ∃ e ∈ log, e.cmd = some c

/-- Some call of the timer is an error. -/
def Timer.Failed (t : Timer) : Prop := ∃ c ∈ t.calls, c.cmd = .error

/-- The positions of the main thread at which no test case has started, or the next one starts. -/
def MainPc.starting : MainPc → Bool
  | .gate .ip | .gateRunning .ip | .startTestCase _ | .construct _ => true
  | _ => false

/-- No message `completed` follows an error. -/
def NoneAfterError (log : List Event) : Prop :=
  log.Pairwise fun a b => ¬ (a.cmd = some .error ∧ b.cmd = some .completed)

/-- The invariant behind the exclusion of error and finish. -/
structure Exclusive (s : Sys) : Prop where
  owed : s.sh.g.reason → s.sh.g.hasError = true ∨ s.Owes
  dropFlag : ∀ c, s.phase.timer.pc = .callback c .dropFlag → s.sh.g.hasError = true
  reason : s.phase.timer.Failed → s.sh.g.reason
  exclusive : .finish ∈ s.phase.timer.calls → ¬ s.phase.timer.Failed
  logged : HasCmd .error s.sh.log → s.phase.timer.Failed
  starting : s.main.starting = true → ¬ HasCmd .error s.sh.log
  ordered : NoneAfterError s.sh.log

/-- CTimer has called back an error. -/
def Timer.errorSignaled (t : Timer) : Bool :=
  t.unreachableSignaled || t.forbiddenSignaled || t.tlsParametersMissingSignaled ||
    t.streamsDroppedSignaled

/-- The timer that has called back an error reads `hasError` at its end only when no worker is
between the write of the reason and that of `hasError`. -/
def Settled (s : Sys) : Action → Prop
  | .timer => s.phase.timer.pc = .finishError → s.phase.timer.errorSignaled = true → s.Owes →
      s.sh.g.hasError = true
  | _ => True

instance (s : Sys) : Decidable s.Owes := inferInstanceAs (Decidable (∃ w ∈ _, _))

instance (s : Sys) : DecidablePred (Settled s)
  | .timer => inferInstanceAs (Decidable (_ → _ → _ → _))
  | .main _ | .worker .. | .pastTimer .. | .pastWorker .. | .stop | .clock _ => isTrue trivial

variable {env : Env} {k : TestCase} {s s' : Sys} {a : Action} {sh sh' : Shared}

theorem Timer.errorSignaled_of_signaled {t : Timer} {c : Call} (h : t.signaled c = true) :
    t.errorSignaled = true := by
  cases c <;> simp_all [Timer.signaled, Timer.errorSignaled]

theorem hasCmd_append {c : Cmd} {log es : List Event} :
    HasCmd c (log ++ es) ↔ HasCmd c log ∨ HasCmd c es := by
  simp [HasCmd, or_and_right, exists_or]

theorem hasCmd_singleton {c : Cmd} {e : Event} : HasCmd c [e] ↔ e.cmd = some c := by
  simp [HasCmd]

theorem NoneAfterError.append {log es : List Event} (h : NoneAfterError log)
    (he : NoneAfterError es) (hc : HasCmd .completed es → ¬ HasCmd .error log) :
    NoneAfterError (log ++ es) := by
  refine List.pairwise_append.mpr ⟨h, he, ?_⟩
  rintro a ha b hb ⟨h1, h2⟩
  exact hc ⟨b, hb, h2⟩ ⟨a, ha, h1⟩

/-- What a call adds to the calls of a timer. -/
theorem failed_append {t t' : Timer} {c : Call} (h : t'.calls = t.calls ++ [c]) :
    t'.Failed ↔ t.Failed ∨ c.cmd = .error := by
  simp [Timer.Failed, h, or_and_right, exists_or]

theorem failed_congr {t t' : Timer} (h : t'.calls = t.calls) : t'.Failed ↔ t.Failed := by
  simp [Timer.Failed, h]

theorem Call.Cause.reason {c : Call} {g : Globals} {t : Timer} (h : c.Cause g t)
    (hc : c.cmd = .error) : g.reason := by
  cases c <;> simp_all [Call.cmd, Call.Cause, Globals.reason]

theorem Call.Cause.not_finishing {c : Call} {g : Globals} {t : Timer} (h : c.Cause g t) :
    t.pc.finishing = false := by
  cases c <;> simp_all [Call.Cause, TimerPc.finishing]

theorem Exclusive.owing (hx : Exclusive s) : Owing s := ⟨hx.owed, hx.dropFlag⟩

/-- A finish is called only with no error before it. -/
theorem Exclusive.not_failed (hx : Exclusive s) (ht : Threads env s) (hset : Settled s .timer)
    (h : Call.Cause s.sh.g s.phase.timer .finish) : ¬ s.phase.timer.Failed := by
  intro hf
  obtain ⟨c, hc, hcmd⟩ := id hf
  have hno : s.sh.g.hasError ≠ true := by simp [h.2]
  rcases hx.owed (hx.reason hf) with he | ho
  · exact hno he
  · exact hno (hset h.1 (Timer.errorSignaled_of_signaled (ht.timer.signaled c hc hcmd)) ho)

theorem Exclusive.step_timer (hx : Exclusive s) (ht : Threads env s) (hset : Settled s .timer)
    {sh : Shared} {t : Timer}
    (h : CTimer.run env s.phase.testCase s.phase.objects s.sh s.phase.timer = some (sh, t)) :
    Exclusive { s with sh := sh, phase := { s.phase with timer := t } } := by
  have he := CTimer.run_effect h
  have hg := he.grows.1.toPersists
  have harr := CTimer.run_arrives h
  have hcalls := CTimer.run_calls ht.timer h
  have hmono : s.phase.timer.Failed → t.Failed := by
    rcases hcalls with hc | ⟨c, hc, -⟩
    · exact (failed_congr hc).mpr
    · exact fun hf => (failed_append hc).mpr (.inl hf)
  have ho := hx.owing.step_timer h
  refine ⟨ho.owed, ho.dropFlag, ?_, ?_, ?_, ?_, ?_⟩
  · intro hf
    rcases hcalls with hc | ⟨c, hc, -, hcause, hgs⟩
    · exact hg.reason (hx.reason ((failed_congr hc).mp hf))
    · rcases (failed_append hc).mp hf with hf | hcmd
      · exact hg.reason (hx.reason hf)
      · exact hg.reason (hcause.reason hcmd)
  · intro hfin hf
    rcases hcalls with hc | ⟨c, hc, -, hcause, hgs⟩
    · exact hx.exclusive (hc ▸ hfin) ((failed_congr hc).mp hf)
    · simp only [hc, List.mem_append, List.mem_singleton] at hfin
      rcases hfin with hfin | rfl
      · exact absurd (ht.timer.finish hfin) (by simp [hcause.not_finishing])
      · rcases (failed_append hc).mp hf with hf | hcmd
        · exact hx.not_failed ht hset hcause hf
        · simp [Call.cmd] at hcmd
  · intro hl
    rcases he.log with hlog | ⟨m, c, hlog, hm⟩
    · exact hmono (hx.logged (hlog ▸ hl))
    · simp only [hlog, hasCmd_append, hasCmd_singleton] at hl
      rcases hl with hl | hl
      · exact hmono (hx.logged hl)
      · rcases hm with ⟨hp, hm⟩ | ⟨hp, hm⟩
        · exact hmono ⟨c, (ht.timer.called c _ hp).1, by simpa [Event.cmd, hm] using hl⟩
        · simp [Event.cmd, hm] at hl
  · intro hs
    obtain ⟨k, hin, hc⟩ := ht.timer_inside (CTimer.run_moves h)
    cases hm : s.main <;> simp_all [MainPc.inside, MainPc.starting]
  · rcases he.log with hlog | ⟨m, c, hlog, hm⟩
    · exact hlog ▸ hx.ordered
    · refine hlog ▸ hx.ordered.append (List.pairwise_singleton ..) ?_
      intro hcmd herr
      rw [hasCmd_singleton] at hcmd
      rcases hm with ⟨-, hm⟩ | ⟨hp, -⟩
      · cases c <;> simp [Event.cmd, hm, Call.cmd] at hcmd
      · obtain ⟨hmem, hw⟩ := ht.timer.called c _ hp
        have hc : c = .finish := by simpa [CallbackPc.within] using hw
        exact hx.exclusive (hc ▸ hmem) (hx.logged herr)

theorem Exclusive.step_worker (hx : Exclusive s) {j : Nat} {o : Outcome} {w w' : Worker}
    {g : Globals} (hw : s.phase.workers[j]? = some w)
    (h : Worker.run env s.phase.testCase o s.sh.g w = some (g, w')) :
    Exclusive { s with
      sh := { s.sh with g := g }
      phase := { s.phase with workers := s.phase.workers.set j w' } } := by
  have hg := (Worker.run_effect h).grows.toPersists
  have ho := hx.owing.step_worker hw h
  exact ⟨ho.owed, ho.dropFlag, fun hf => hg.reason (hx.reason hf), hx.exclusive, hx.logged,
    hx.starting, hx.ordered⟩

/-- With every worker returned and `hasError` false, no error has been reported. -/
theorem Exclusive.no_error (hx : Exclusive s) (hr : s.phase.WorkersReturned)
    (he : s.sh.g.hasError = false) : ¬ HasCmd .error s.sh.log := by
  intro hl
  have := hx.owing.hasError hr (hx.reason (hx.logged hl))
  simp [he] at this

theorem afterTestCase_starting (k : TestCase) : (afterTestCase k).starting = false := by
  cases k <;> rfl

/-- The main thread goes on without touching a thread. -/
theorem Exclusive.goto (hx : Exclusive s) (pc : MainPc)
    (hs : pc.starting = true → ¬ HasCmd .error s.sh.log) : Exclusive { s with main := pc } :=
  ⟨hx.owed, hx.dropFlag, hx.reason, hx.exclusive, hx.logged, hs, hx.ordered⟩

/-- What `startTestCase` sends is neither an error nor the end. -/
theorem startTestCase_cmds {k : TestCase} {es : List Event}
    (hes : ∀ e ∈ es, ∃ m, e = .platform k m ∧ m.cmd = .started) (c : Cmd) (hc : c ≠ .started) :
    ¬ HasCmd c (.startTestCase k :: es) := by
  rintro ⟨e, he, hcmd⟩
  rcases List.mem_cons.mp he with rfl | he
  · simp [Event.cmd] at hcmd
  · obtain ⟨m, rfl, hm⟩ := hes e he
    simp only [Event.cmd, hm, Option.some.injEq] at hcmd
    exact hc hcmd.symm

theorem noneAfterError_of_no_completed {es : List Event} (h : ¬ HasCmd .completed es) :
    NoneAfterError es :=
  List.pairwise_of_forall_mem_list fun _ _ b hb hab => h ⟨b, hb, hab.2⟩

theorem Exclusive.step_startTestCase (hx : Exclusive s) (ht : Threads env s)
    (hm : s.main = .startTestCase k) (h : mainStep env true s = some s') : Exclusive s' := by
  have hj := ht.joined
  simp only [Joined, hm] at hj
  have hno := hx.starting (by simp [hm, MainPc.starting])
  have hdone : s.sh.g.reason → s.sh.g.hasError = true := hx.owing.hasError hj.2
  have hlog : ∃ es, s'.sh.log = s.sh.log ++ Event.startTestCase k :: es ∧
      ∀ e ∈ es, ∃ m, e = .platform k m ∧ m.cmd = .started := by
    rcases mainStep_log h with ⟨hl, -⟩ | ⟨l, es, hl, hlog, hes⟩
    · exact absurd hm (hl k)
    · rw [hm, MainPc.startTestCase.injEq] at hl
      subst hl
      exact ⟨es, hlog, hes⟩
  obtain ⟨es, hlog, hes⟩ := hlog
  have herr := startTestCase_cmds hes .error (by simp)
  have hcomp := startTestCase_cmds hes .completed (by simp)
  have hno' : ¬ HasCmd .error s'.sh.log := by
    rw [hlog, hasCmd_append]
    exact fun h => h.elim hno herr
  have hord : NoneAfterError s'.sh.log := by
    rw [hlog]
    exact hx.ordered.append (noneAfterError_of_no_completed hcomp) fun h => absurd h hcomp
  simp only [mainStep, hm, Option.some.injEq] at h
  subst h
  refine ⟨?_, by simp, by simp [Timer.Failed], by simp, fun hl => absurd hl hno', fun _ => hno',
    hord⟩
  split <;> exact fun hr => .inl (hdone hr)

theorem Exclusive.step_main (hx : Exclusive s) (ht : Threads env s)
    (h : mainStep env true s = some s') : Exclusive s' := by
  have hj := ht.joined
  have howed := (hx.owing.step_main h ht.returned_startTestCase).owed
  have hold := hx.starting
  have hafter (k : TestCase) : (afterTestCase k).starting = true → ¬ HasCmd .error s.sh.log :=
    fun hs => absurd hs (by simp [afterTestCase_starting])
  cases hm : s.main <;> simp only [mainStep, hm] at h
  case startTestCase k => exact hx.step_startTestCase ht hm (by simpa only [mainStep, hm] using h)
  case construct k =>
    simp only [Option.some.injEq] at h
    subst h
    have hno := hold (by simp [hm, MainPc.starting])
    exact ⟨hx.owed, by simp, by simp [Timer.Failed], by simp, fun hl => absurd hl hno,
      by simp [MainPc.starting], hx.ordered⟩
  case gate k =>
    simp only [Option.some.injEq] at h
    subst h
    split
    · refine hx.goto _ ?_
      cases k <;> simp_all [MainPc.starting]
    · exact hx.goto _ (hafter k)
  case gateRunning k =>
    simp only [Option.some.injEq] at h
    subst h
    split
    · refine hx.goto _ ?_
      cases k <;> simp_all [MainPc.starting]
    · exact hx.goto _ (hafter k)
  case gateError k =>
    simp only [Joined, hm] at hj
    simp only [Option.some.injEq] at h
    subst h
    split
    · exact hx.goto _ (hafter k)
    · rename_i he
      exact hx.goto _ fun _ => hx.no_error hj.2 (by simpa using he)
  case create k =>
    split at h
    all_goals
      simp only [if_true, Option.some.injEq] at h
      subst h
    · exact ⟨howed, hx.dropFlag, hx.reason, hx.exclusive, hx.logged, by simp [MainPc.starting],
        hx.ordered⟩
    · exact hx.goto _ (by simp [MainPc.starting])
  case destroy k i =>
    simp only [Joined, hm] at hj
    split at h
    all_goals
      simp only [Option.some.injEq] at h
      subst h
    · exact hx.goto _ (by simp [MainPc.starting])
    · exact ⟨howed, hx.dropFlag, hx.reason, hx.exclusive, hx.logged, by simp [MainPc.starting],
        hx.ordered⟩
  all_goals repeat' (split at h)
  all_goals try contradiction
  all_goals
    simp only [Option.some.injEq] at h
    subst h
  case joinTimer k _ => exact hx.goto _ (hafter k)
  all_goals
    exact ⟨hx.owed, hx.dropFlag, hx.reason, hx.exclusive, hx.logged, by simp [MainPc.starting],
      hx.ordered⟩

theorem Exclusive.step (hx : Exclusive s) (ht : Threads env s) (hc : Created a)
    (hset : Settled s a) (h : IasClient.step env a s = some s') : Exclusive s' := by
  cases step_moved ht.past h with
  | main hm =>
    subst hc
    exact hx.step_main ht hm
  | timer h => exact hx.step_timer ht hset ‹_›
  | worker hw h => exact hx.step_worker hw ‹_›
  | stop => exact ⟨hx.owed, hx.dropFlag, hx.reason, hx.exclusive, hx.logged, hx.starting, hx.ordered⟩
  | clock now =>
    exact ⟨hx.owed, hx.dropFlag, hx.reason, hx.exclusive, hx.logged, hx.starting, hx.ordered⟩

theorem measurementStart_exclusive (rtt download upload : Bool) (old : Globals) :
    Exclusive (measurementStart rtt download upload old) where
  owed h := by simp [measurementStart, Globals.reason] at h
  dropFlag c h := by simp [measurementStart] at h
  reason h := by simp [measurementStart, Timer.Failed] at h
  exclusive h := by simp [measurementStart] at h
  logged h := by simp [measurementStart, HasCmd] at h
  starting _ := by simp [measurementStart, HasCmd]
  ordered := .nil

/-- What TIMER_STOPPED and TIMER_DURATION are at the positions of the timer of a Download or
Upload test. -/
structure Windowed (g : Globals) (t : Timer) : Prop where
  stop : t.pc = .errorStop ∨ t.pc = .dropStop → t.Failed
  ifDuration : t.pc = .ifDuration → g.timerDuration = toInt t.timeDiff
  closeWindow : t.pc = .closeWindow → 500000 ≤ g.timerDuration
  stopped : g.timerStopped = true → t.Failed ∨ 500000 ≤ g.timerDuration
  finishRunning : t.pc = .finishRunning → g.timerStopped = true ∨ g.running = false
  finishError : t.pc = .finishError → g.timerStopped = true
  finish : .finish ∈ t.calls → 500000 ≤ g.timerDuration

/-- The clock reading that ends a Download or Upload window lies at least half a second after its
start, as an `int`. -/
def LongEnough (s : Sys) : Action → Prop
  | .timer => s.phase.timer.pc = .ifDuration →
      s.phase.testCase = .download ∨ s.phase.testCase = .upload →
      s.sh.g.measurementDuration ≤ s.phase.timer.timeDiff / 1000000 →
      500000 ≤ toInt s.phase.timer.timeDiff
  | _ => True

instance (s : Sys) : DecidablePred (LongEnough s)
  | .timer => inferInstanceAs (Decidable (_ → _ → _ → _))
  | .main _ | .worker .. | .pastTimer .. | .pastWorker .. | .stop | .clock _ => isTrue trivial

/-- A reading below 2^31 microseconds is long enough for every duration but 0. -/
theorem longEnough_of_lt {d x : UInt64} (hd : d ≠ 0) (hx : x.toNat < 2 ^ 31)
    (h : d ≤ x / 1000000) : 500000 ≤ toInt x := by
  rw [toInt_of_lt hx]
  have h1 : d.toNat ≤ x.toNat / 1000000 := by
    simpa [UInt64.le_iff_toNat_le] using h
  have h2 : d.toNat ≠ 0 := fun h0 => hd (UInt64.toNat_inj.mp h0)
  omega

theorem Timer.Effect.keeps_timerDuration {t t' : Timer} (h : Timer.Effect k t t' sh sh')
    (hp : t.pc ≠ .readTime) : sh'.g.timerDuration = sh.g.timerDuration := by
  cases h
  case duration h _ => exact absurd h hp
  case performed => simp
  all_goals rfl

/-- Calls are only added. -/
theorem CTimer.run_failed {objects : List Worker} {t t' : Timer} (ht : t.Wf k)
    (h : CTimer.run env k objects sh t = some (sh', t')) (hf : t.Failed) : t'.Failed := by
  rcases CTimer.run_calls ht h with hc | ⟨c, hc, -⟩
  · exact (failed_congr hc).mpr hf
  · exact (failed_append hc).mpr (.inl hf)

theorem Windowed.step_timer {objects : List Worker} {t t' : Timer} (hw : Windowed sh.g t)
    (hk : k = .download ∨ k = .upload) (ht : t.Wf k) (hopen : Opened sh.g t)
    (hfin : Call.Cause sh.g t .finish → ¬ t.Failed)
    (hlong : t.pc = .ifDuration → sh.g.measurementDuration ≤ t.timeDiff / 1000000 →
      500000 ≤ toInt t.timeDiff)
    (h : CTimer.run env k objects sh t = some (sh', t')) : Windowed sh'.g t' := by
  have he := CTimer.run_effect h
  have harr := CTimer.run_arrives h
  have hcalls := CTimer.run_calls ht h
  have hfail := CTimer.run_failed ht h
  have hnoIp (c : Call) : t.pc ≠ .callback c .ipStopped := by
    intro hp
    have := (ht.called c _ hp).2
    rcases hk with rfl | rfl <;> simp [CallbackPc.within] at this
  have hdur (hp : t.pc.windowOpen = false) : sh'.g.timerDuration = sh.g.timerDuration :=
    he.keeps_timerDuration (by intro hr; simp [hr, TimerPc.windowOpen] at hp)
  refine ⟨?_, harr.ifDuration, ?_, ?_, harr.finishRunning, ?_, ?_⟩
  · intro hp
    obtain ⟨c, p, hp, hc, hsame⟩ := harr.stop hp
    exact (failed_congr hsame).mpr ⟨c, (ht.called c p hp).1, hc⟩
  · intro hp
    obtain ⟨hp, -, hd, hg⟩ := harr.closeWindow hp
    rw [hg, hw.ifDuration hp]
    exact hlong hp hd
  · intro hs
    rcases he.why_stopped hs with hs | (hp | hp | hp) | ⟨c, hp⟩
    · have ho : t.pc.windowOpen = false := by
        by_contra ho
        simp [hopen.windowOpen (.inl (by simpa using ho))] at hs
      rw [hdur ho]
      exact (hw.stopped hs).imp_left hfail
    · exact .inl (hfail (hw.stop (.inl hp)))
    · exact .inl (hfail (hw.stop (.inr hp)))
    · rw [he.keeps_timerDuration (by simp [hp])]
      exact .inr (hw.closeWindow hp)
    · exact absurd hp (hnoIp c)
  · intro hp
    obtain ⟨hp, hr, hg⟩ := harr.finishError hp
    rw [hg] at hr ⊢
    rcases hw.finishRunning hp with hs | hs
    · exact hs
    · simp [hr] at hs
  · intro hc
    rcases hcalls with hsame | ⟨c, hc', -, hcause, hg⟩
    · rw [hsame] at hc
      have hpc := ht.finish hc
      rw [he.keeps_timerDuration (by intro hr; simp [hr, TimerPc.finishing] at hpc)]
      exact hw.finish hc
    · rw [hc', List.mem_append, List.mem_singleton] at hc
      rcases hc with hc | rfl
      · exact absurd (ht.finish hc) (by simp [hcause.not_finishing])
      · rw [hg]
        exact (hw.stopped (hw.finishError hcause.1)).resolve_left (hfin hcause)

theorem Windowed.congr {g g' : Globals} {t : Timer} (hw : Windowed g t)
    (hs : g'.timerStopped = g.timerStopped) (hd : g'.timerDuration = g.timerDuration)
    (hr : g.running = false → g'.running = false) : Windowed g' t where
  stop := hw.stop
  ifDuration h := hd.trans (hw.ifDuration h)
  closeWindow h := hd ▸ hw.closeWindow h
  stopped h := hd ▸ hw.stopped (hs ▸ h)
  finishRunning h := (hw.finishRunning h).imp (hs.trans ·) hr
  finishError h := hs.trans (hw.finishError h)
  finish h := hd ▸ hw.finish h

/-- `Windowed` holds as long as the timer of a Download or Upload test runs. -/
def Timed (s : Sys) : Prop :=
  s.phase.testCase = .download ∨ s.phase.testCase = .upload → s.phase.timer.pc ≠ .returned →
    Windowed s.sh.g s.phase.timer

theorem Timed.step_main (hw : Timed s) (h : mainStep env true s = some s') : Timed s' := by
  intro hk hr
  by_cases hc : ∃ k, s.main = .construct k
  · obtain ⟨k, hm⟩ := hc
    simp only [mainStep, hm, Option.some.injEq] at h
    subst h
    constructor <;> simp [constructTimer]
  by_cases hs : ∃ k, s.main = .startTestCase k
  · obtain ⟨k, hm⟩ := hs
    simp only [mainStep, hm, Option.some.injEq] at h
    subst h
    exact absurd rfl hr
  obtain ⟨hg, hkept, htimer, htc⟩ := mainStep_grows h (by simpa using hc) (by simpa using hs)
  rw [htimer] at hr ⊢
  exact (hw (htc ▸ hk) hr).congr hkept.timerStopped hkept.timerDuration hg.running

theorem Timed.step (hw : Timed s) (ht : Threads env s) (ho : Window s) (hx : Exclusive s)
    (hc : Created a) (hset : Settled s a) (hlong : LongEnough s a)
    (h : IasClient.step env a s = some s') :
    Timed s' := by
  cases step_moved ht.past h with
  | main hm =>
    subst hc
    exact hw.step_main hm
  | timer hstep =>
    intro hk hr
    have hne := CTimer.run_moves hstep
    exact (hw hk hne).step_timer hk ht.timer (ho hk) (hx.not_failed ht hset)
      (fun hp => hlong hp hk) hstep
  | worker hj hstep =>
    intro hk hr
    have he := Worker.run_effect hstep
    obtain ⟨h1, h2, -⟩ := he.keeps_window (by rcases hk with hk | hk <;> simp_all)
    exact (hw hk hr).congr h1 h2 he.grows.running
  | stop => exact fun hk hr => (hw hk hr).congr rfl rfl (fun _ => rfl)
  | clock now => exact fun hk hr => (hw hk hr).congr rfl rfl id

/-- In a run in which the timer always finds `hasError` settled and measures its window, `error` and
`finish` exclude each other: among the calls of each timer, among the messages of the measurement,
and a finish is entered with at least half a second measured. -/
theorem error_excludes_finish (env : Env) (rtt download upload : Bool) (old : Globals)
    (h : Run (step env) (fun t a => Created a ∧ Settled t a ∧ LongEnough t a)
      (measurementStart rtt download upload old) s) :
    ¬ ((∃ c ∈ s.phase.timer.calls, c.cmd = .error) ∧ .finish ∈ s.phase.timer.calls) ∧
      s.sh.log.Pairwise (fun a b => ¬ (a.cmd = some .error ∧ b.cmd = some .completed)) ∧
      (s.phase.timer.pc = .callback .finish .steps → 500000 ≤ s.sh.g.timerDuration) := by
  have ht (t : Sys) (hr : Run (step env) (fun t a => Created a ∧ Settled t a ∧ LongEnough t a)
      (measurementStart rtt download upload old) t) : Threads env t :=
    Threads.run (fun _ _ h => h.1) hr
  have hx : Exclusive s ∧ Timed s := by
    refine Run.invariant_of (I := fun t => Exclusive t ∧ Timed t)
      (fun t hr => And.intro (ht t hr) (Window.run (fun _ _ h => h.1) hr)) ?_
      ⟨measurementStart_exclusive .., ?_⟩ h
    · intro t a u ⟨htt, hot⟩ _ ⟨hx, hw⟩ ⟨hc, hset, hlong⟩ hs
      exact ⟨hx.step htt hc hset hs, hw.step htt hot hx hc hset hlong hs⟩
    · exact fun _ hr => absurd rfl hr
  obtain ⟨hx, hw⟩ := hx
  refine ⟨fun hb => hx.exclusive hb.2 hb.1, hx.ordered, ?_⟩
  intro hp
  obtain ⟨hc, hin⟩ := (ht s h).timer.called _ _ hp
  have hk : s.phase.testCase = .download ∨ s.phase.testCase = .upload := by
    simpa [CallbackPc.within] using hin
  exact (hw hk (by simp [hp])).finish hc

/-- The ip test cannot resolve the name of the peer; the timer runs to its end only after the
worker has returned. -/
def unresolvedIpThenTimer : List Action :=
  List.replicate 8 (Action.main true) ++
    [Action.worker 0 { ok := false }, .worker 0 {}, .worker 0 {}] ++
    List.replicate 8 Action.timer

theorem error_excludes_finish_unresolvedIp : ∃ s : Sys, s.phase.timer.calls = [.unreachable] ∧
    s.phase.timer.pc = .clearActive ∧
    ¬ ((∃ c ∈ s.phase.timer.calls, c.cmd = .error) ∧ .finish ∈ s.phase.timer.calls) := by
  have h := error_excludes_finish Env.default true true true Globals.default
    (run_of_exec unresolvedIpThenTimer rfl)
  exact ⟨_, by decide, by decide, h.1⟩

/-- The same, but the timer runs between the two writes of the worker. -/
def unresolvedIpInterleaved : List Action :=
  List.replicate 8 (Action.main true) ++ [Action.worker 0 { ok := false }, .worker 0 {}] ++
    List.replicate 8 Action.timer

theorem unresolvedIp_error_and_finish : ∃ s, Run (step Env.default) (fun _ a => Created a)
    (measurementStart true true true Globals.default) s ∧
    (∃ c ∈ s.phase.timer.calls, c.cmd = .error) ∧ .finish ∈ s.phase.timer.calls :=
  ⟨_, run_of_exec unresolvedIpInterleaved rfl, by decide, by decide⟩

end IasClient
