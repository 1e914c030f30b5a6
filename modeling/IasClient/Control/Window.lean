import IasClient.Control.Joined

namespace IasClient

open Framework

namespace TimerPc

/-- The positions of the outer loop, from the test of TIMER_STOPPED on. -/
def outer : TimerPc → Bool
  | .ifUnreachable | .ifForbidden | .ifTlsParametersMissing | .errorStop | .ifTimerRunning
  | .countSynced | .setTimerRunning | .setTime1 => true
  | .callback c _ => c != .streamsDropped && c != .report && c != .finish
  | _ => false

/-- The positions of the inner loop at which `current_index` is TIMER_INDEX. -/
def inner : TimerPc → Bool
  | .ifStreamsDropped | .dropStop | .readTime | .ifDuration | .closeWindow | .setIndex
  | .innerRunning | .innerStopped => true
  | .callback c _ => c == .streamsDropped || c == .report
  | _ => false

/-- The positions from the decision to report to the end of the report. -/
def reporting : TimerPc → Bool
  | .setCurrent => true
  | .callback c _ => c == .report
  | _ => false

end TimerPc

/-- TIMER_STOPPED and TIMER_INDEX at the positions of the timer of a Download or Upload test: the
window is open whenever a report is made. -/
structure Opened (g : Globals) (t : Timer) : Prop where
  windowOpen : t.pc.windowOpen = true ∨ t.pc.reporting = true → g.timerStopped = false
  ifIndex : t.pc = .ifIndex → g.timerStopped = false ∨ g.timerIndex = t.currentIndex
  inner : t.pc.inner = true → g.timerIndex = t.currentIndex
  outer : t.pc.outer = true → g.timerIndex = 0
  outerStopped : t.pc = .outerStopped → g.timerIndex = 0 ∨ g.timerStopped = true
  outerRunning : t.pc = .outerRunning →
    g.timerIndex = 0 ∨ g.timerStopped = true ∨ g.running = false

variable {env : Env} {k : TestCase} {objects : List Worker} {sh sh' : Shared} {t t' : Timer}

theorem Opened.resume {g g' : Globals} (ho : Opened g t) {c : Call} {p : CallbackPc}
    (hp : t.pc = .callback c p) (hs : g'.timerStopped = g.timerStopped)
    (hi : g'.timerIndex = g.timerIndex) : Opened g' (t.resume c) := by
  obtain ⟨h1, h2, h3, h4, h5, h6⟩ := ho
  cases c <;> constructor <;>
    simp_all [Timer.resume, Timer.call, TimerPc.windowOpen, TimerPc.reporting, TimerPc.inner,
      TimerPc.outer]

/-- A step inside a call. -/
theorem Opened.goto {g g' : Globals} (ho : Opened g t) {c : Call} {p q : CallbackPc}
    (hp : t.pc = .callback c p) (hq : t'.pc = .callback c q)
    (hc : t'.currentIndex = t.currentIndex) (hs : g'.timerStopped = g.timerStopped)
    (hi : g'.timerIndex = g.timerIndex) : Opened g' t' := by
  obtain ⟨h1, h2, h3, h4, h5, h6⟩ := ho
  constructor <;>
    simp_all [TimerPc.windowOpen, TimerPc.reporting, TimerPc.inner, TimerPc.outer]

theorem Opened.step_timer (ho : Opened sh.g t) (hk : k = .download ∨ k = .upload) (ht : t.Wf k)
    (h : CTimer.run env k objects sh t = some (sh', t')) : Opened sh'.g t' := by
  cases hp : t.pc <;> simp only [CTimer.run, hp, Timer.goto] at h
  case callback c p =>
    have hip : p ≠ .ipStopped := by
      rintro rfl
      have := (ht.called c _ hp).2
      rcases hk with rfl | rfl <;> simp [CallbackPc.within] at this
    cases p <;> simp only [CCallback.callback, Timer.goto] at h
    case ipStopped => exact absurd rfl hip
    all_goals repeat' (split at h)
    all_goals
      simp only [Option.some.injEq, Prod.mk.injEq] at h
      obtain ⟨rfl, rfl⟩ := h
    all_goals try with_reducible exact ho.resume hp rfl rfl
    all_goals try with_reducible exact ho.goto hp rfl rfl rfl rfl
    all_goals try with_reducible exact ho.goto hp hp rfl rfl rfl
    all_goals try with_reducible exact ho.goto hp rfl rfl (by simp) (by simp)
    -- an exception, or the last element of an empty array
    all_goals
      constructor <;>
        simp [TimerPc.windowOpen, TimerPc.reporting, TimerPc.inner, TimerPc.outer]
  all_goals repeat' (split at h)
  all_goals try contradiction
  all_goals
    simp only [Option.some.injEq, Prod.mk.injEq] at h
    obtain ⟨rfl, rfl⟩ := h
    obtain ⟨h1, h2, h3, h4, h5, h6⟩ := ho
    constructor <;>
      simp_all [Timer.call, TimerPc.windowOpen, TimerPc.reporting, TimerPc.inner, TimerPc.outer]

theorem Timer.Effect.why_stopped (h : Timer.Effect k t t' sh sh')
    (hs : sh'.g.timerStopped = true) : sh.g.timerStopped = true ∨
      (t.pc = .errorStop ∨ t.pc = .dropStop ∨ t.pc = .closeWindow) ∨
      ∃ c, t.pc = .callback c .ipStopped := by
  cases h
  case stopped h =>
    rcases h with ⟨h, -⟩ | ⟨h, -⟩ | ⟨h, -⟩ | ⟨c, h, -⟩
    · exact .inr (.inl (.inl h))
    · exact .inr (.inl (.inr (.inl h)))
    · exact .inr (.inl (.inr (.inr h)))
    · exact .inr (.inr ⟨c, h⟩)
  case performed => exact .inl (by simpa using hs)
  all_goals exact .inl hs

theorem Opened.congr {g g' : Globals} (ho : Opened g t) (hs : g'.timerStopped = g.timerStopped)
    (hi : g'.timerIndex = g.timerIndex) (hr : g.running = false → g'.running = false) :
    Opened g' t where
  windowOpen h := hs.trans (ho.windowOpen h)
  ifIndex h := by rw [hs, hi]; exact ho.ifIndex h
  inner h := hi.trans (ho.inner h)
  outer h := hi.trans (ho.outer h)
  outerStopped h := by rw [hs, hi]; exact ho.outerStopped h
  outerRunning h := by rw [hs, hi]; exact (ho.outerRunning h).imp_right (Or.imp_right hr)

theorem opened_of_returned (g : Globals) (h : t.pc = .returned) : Opened g t := by
  constructor <;> simp [h, TimerPc.windowOpen, TimerPc.reporting, TimerPc.inner, TimerPc.outer]

/-- `Opened` for the current test case. -/
def Window (s : Sys) : Prop :=
  s.phase.testCase = .download ∨ s.phase.testCase = .upload → Opened s.sh.g s.phase.timer

theorem Worker.Effect.keeps_window {w w' : Worker} {g g' : Globals}
    (h : Worker.Effect k w w' g g') (hk : k ≠ .rttUdp) : g'.timerStopped = g.timerStopped ∧
      g'.timerDuration = g.timerDuration ∧ g'.timerIndex = g.timerIndex := by
  cases h
  case stopped hr _ => exact absurd hr hk
  all_goals exact ⟨rfl, rfl, rfl⟩

variable {s s' : Sys} {a : Action}

theorem Window.step_main (hw : Window s) (h : mainStep env true s = some s') : Window s' := by
  intro hk
  by_cases hc : ∃ k, s.main = .construct k
  · obtain ⟨k, hm⟩ := hc
    simp only [mainStep, hm, Option.some.injEq] at h
    subst h
    constructor <;>
      simp [constructTimer, TimerPc.windowOpen, TimerPc.reporting, TimerPc.inner, TimerPc.outer]
  by_cases hs : ∃ k, s.main = .startTestCase k
  · obtain ⟨k, hm⟩ := hs
    simp only [mainStep, hm, Option.some.injEq] at h
    subst h
    exact opened_of_returned _ rfl
  obtain ⟨hg, hkept, htimer, htc⟩ := mainStep_grows h (by simpa using hc) (by simpa using hs)
  rw [htimer]
  exact (hw (htc ▸ hk)).congr hkept.timerStopped hkept.timerIndex hg.running

theorem Window.step (hw : Window s) (ht : Threads env s) (hc : Created a)
    (h : IasClient.step env a s = some s') : Window s' := by
  cases step_moved ht.past h with
  | main hm =>
    subst hc
    exact hw.step_main hm
  | timer hstep => exact fun hk => (hw hk).step_timer hk ht.timer hstep
  | worker hj hstep =>
    intro hk
    have he := Worker.run_effect hstep
    obtain ⟨h1, -, h2⟩ := he.keeps_window (by rcases hk with hk | hk <;> simp_all)
    exact (hw hk).congr h1 h2 he.grows.running
  | stop => exact fun hk => (hw hk).congr rfl rfl (fun _ => rfl)
  | clock now => exact fun hk => (hw hk).congr rfl rfl id

theorem Window.run {rtt download upload : Bool} {old : Globals} {ok : Sys → Action → Prop}
    (hok : ∀ t a, ok t a → Created a)
    (h : Run (IasClient.step env) ok (measurementStart rtt download upload old) s) : Window s :=
  Run.invariant_of (fun _ hr => Threads.run hok hr)
    (fun _ _ _ ht _ hw ha hs => hw.step ht (hok _ _ ha) hs)
    (fun _ => opened_of_returned _ rfl) h

end IasClient
