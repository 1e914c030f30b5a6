import IasClient.Control.WorkerEffect

namespace IasClient

open Framework

/-- What one step of the timer thread may do to what is shared. -/
inductive Timer.Effect (sender : TestCase) (t t' : Timer) (s : Shared) : Shared → Prop
  | none : Effect sender t t' s s
  | copied (c : Call) (p p' : CallbackPc) (h : t.pc = .callback c p) (h' : t'.pc = .callback c p')
      (cb : CCallback) (hcb : cb.mTestCase = s.cb.mTestCase) :
      Effect sender t t' s { s with cb := cb }
  | hasError (c : Call) (h : t.pc = .callback c .dropError) (h' : t'.pc = .callback c .dropFlag) :
      Effect sender t t' s { s with g := { s.g with hasError := true } }
  | streamsDropped (c : Call) (h : t.pc = .callback c .dropFlag)
      (h' : t'.pc = .callback c .stepEnd) :
      Effect sender t t' s { s with g := { s.g with streamsDropped := true } }
  | stopped (h : t.pc = .errorStop ∧ t'.pc = .finishRunning ∨
        t.pc = .dropStop ∧ t'.pc = .outerRunning ∨ t.pc = .closeWindow ∧ t'.pc = .ifIndex ∨
        ∃ c, t.pc = .callback c .ipStopped ∧ t'.pc = .callback c c.stored) :
      Effect sender t t' s { s with g := { s.g with timerStopped := true } }
  | timerActive (h : t.pc = .clearActive) (h' : t'.pc = .returned) :
      Effect sender t t' s { s with g := { s.g with timerActive := false } }
  | timerRunning (h : t.pc = .setTimerRunning) (h' : t'.pc = .setTime1) :
      Effect sender t t' s { s with g := { s.g with timerRunning := true } }
  | duration (h : t.pc = .readTime) (h' : t'.pc = .ifDuration) :
      Effect sender t t' s { s with g := { s.g with timerDuration := toInt (s.g.now - t.time1) } }
  | index (h : t.pc = .setIndex) (h' : t'.pc = .ifIndex) :
      Effect sender t t' s { s with g := { s.g with timerIndex := toInt (t.timeDiff / 500000) } }
  | performed (c : Call) (h : t.pc = .callback c .performed) (h' : t'.pc = .callback c .toPlatform) :
      Effect sender t t' s { s with g := s.g.setPerformed s.cb.mTestCase }
  | emitted (c : Call) (h : t.pc = .callback c .toPlatform)
      (h' : t' = if c = .finish then { t with pc := .callback c .ifCompleted } else t.resume c) :
      Effect sender t t' s (callbackToPlatform sender c.cmd c.msg c.errorCode c.errorDescription s)
  | completed (c : Call) (h : t.pc = .callback c .completed) (h' : t' = t.resume c) :
      Effect sender t t' s (callbackToPlatform sender .completed c.msg c.errorCode c.errorDescription
        { s with g := { s.g with currentTestPhase := .END } })

variable {env : Env} {sender : TestCase} {objects : List Worker} {s s' : Shared} {t t' : Timer}

theorem publishResults_mTestCase (k : TestCase) (w : Walk) (cb : CCallback) :
    (publishResults k w cb).mTestCase = cb.mTestCase := by
  cases k <;> rfl

theorem callback_effect {c : Call} {p : CallbackPc} (hp : t.pc = .callback c p)
    (h : CCallback.callback env sender objects c p s t = some (s', t')) :
    Timer.Effect sender t t' s s' := by
  cases p <;> simp only [CCallback.callback, Timer.goto] at h
  all_goals repeat' (split at h)
  all_goals
    simp only [Option.some.injEq, Prod.mk.injEq] at h
    obtain ⟨rfl, rfl⟩ := h
    with_reducible first
      | exact .none
      | exact .hasError c hp rfl
      | exact .streamsDropped c hp rfl
      | exact .performed c hp rfl
      | exact .completed c hp rfl
      | exact .copied c _ _ hp rfl _ rfl
      | exact .copied c _ _ hp rfl _ (publishResults_mTestCase _ _ _)
      | exact .stopped (.inr (.inr (.inr ⟨c, hp, rfl⟩)))
      | exact .emitted c hp (by simp [*])

/-- The effect of any step of the timer thread. -/
theorem CTimer.run_effect (h : CTimer.run env sender objects s t = some (s', t')) :
    Timer.Effect sender t t' s s' := by
  cases hp : t.pc <;> simp only [CTimer.run, hp, Timer.goto] at h
  case callback c p => exact callback_effect hp h
  all_goals repeat' (split at h)
  all_goals try contradiction
  all_goals
    simp only [Option.some.injEq, Prod.mk.injEq] at h
    obtain ⟨rfl, rfl⟩ := h
    with_reducible first
      | exact .none
      | exact .timerActive hp rfl
      | exact .timerRunning hp rfl
      | exact .duration hp rfl
      | exact .index hp rfl
      | exact .stopped (.inl ⟨hp, rfl⟩)
      | exact .stopped (.inr (.inl ⟨hp, rfl⟩))
      | exact .stopped (.inr (.inr (.inl ⟨hp, rfl⟩)))

section

variable (g : Globals) (k : TestCase)

@[simp] theorem Globals.setPerformed_timerStopped :
    (g.setPerformed k).timerStopped = g.timerStopped := by cases k <;> rfl

@[simp] theorem Globals.setPerformed_timerIndex :
    (g.setPerformed k).timerIndex = g.timerIndex := by cases k <;> rfl

@[simp] theorem Globals.setPerformed_timerDuration :
    (g.setPerformed k).timerDuration = g.timerDuration := by cases k <;> rfl

@[simp] theorem Globals.setPerformed_timerActive :
    (g.setPerformed k).timerActive = g.timerActive := by cases k <;> rfl

@[simp] theorem Globals.setPerformed_syncingThreads :
    (g.setPerformed k).syncingThreads = g.syncingThreads := by cases k <;> rfl

@[simp] theorem Globals.setPerformed_performed (j : TestCase) :
    (g.setPerformed k).performed j = true ↔ j = k ∨ g.performed j = true := by
  cases k <;> cases j <;> simp [Globals.setPerformed, Globals.performed]

end

theorem Globals.setPerformed_grows (g : Globals) (k : TestCase) : g.Grows (g.setPerformed k) := by
  have hg := Globals.Grows.refl g
  cases k <;>
    refine ⟨⟨hg.running, hg.unreachable, hg.forbidden, hg.tlsParametersMissing, hg.streamsDropped,
      hg.hasError, ?_, fun l => by cases l <;> rfl⟩, hg.timerStopped, hg.timerActive⟩
  all_goals
    intro l hl
    cases l <;> first | exact hl | rfl

theorem Timer.Effect.grows {sender : TestCase} {t t' : Timer} {s s' : Shared}
    (h : Timer.Effect sender t t' s s') :
    s.g.Grows s'.g ∧ s'.g.syncingThreads = s.g.syncingThreads := by
  obtain ⟨⟨h1, h2, h3, h4, h5, h6, h7, h8⟩, h9, h10⟩ := Globals.Grows.refl s.g
  cases h
  case performed => exact ⟨Globals.setPerformed_grows _ _, Globals.setPerformed_syncingThreads _ _⟩
  all_goals
    refine ⟨⟨⟨?_, ?_, ?_, ?_, ?_, ?_, h7, h8⟩, ?_, ?_⟩, rfl⟩
    all_goals first | assumption | exact fun _ => rfl

/-- The positions that a call `c` of `callback` passes in the test case `k`. -/
def CallbackPc.within (p : CallbackPc) (k : TestCase) (c : Call) : Bool :=
  match p with
  | .enter | .toPlatform => true
  | .performed | .ifCompleted | .completed => c == .finish
  | .ipTimes | .ipResults | .ipStopped => (c == .report || c == .finish) && k == .ip
  | .rttResults | .rttCounters _ => (c == .report || c == .finish) && k == .rttUdp
  | _ => (c == .report || c == .finish) && (k == .download || k == .upload)

/-- The positions from the finish call on. -/
def TimerPc.finishing : TimerPc → Bool
  | .callback .finish _ | .clearActive | .returned | .aborted => true
  | _ => false

/-- The member of CTimer that remembers an error callback. -/
def Timer.signaled (t : Timer) : Call → Bool
  | .unreachable => t.unreachableSignaled
  | .forbidden => t.forbiddenSignaled
  | .tlsParametersMissing => t.tlsParametersMissingSignaled
  | .streamsDropped => t.streamsDroppedSignaled
  | _ => false

/-- What the position of the timer of the test case `k` says about the calls it made. -/
structure Timer.Wf (k : TestCase) (t : Timer) : Prop where
  called : ∀ c p, t.pc = .callback c p → c ∈ t.calls ∧ p.within k c = true
  finish : .finish ∈ t.calls → t.pc.finishing = true
  signaled : ∀ c ∈ t.calls, c.cmd = .error → t.signaled c = true

theorem Timer.Wf.goto {k : TestCase} (hw : t.Wf k) {c : Call} {p : CallbackPc} (q : CallbackPc)
    (hp : t.pc = .callback c p) (hq : q.within k c = true) (ht : t'.pc = .callback c q)
    (hc : t'.calls = t.calls) (hs : ∀ c, t'.signaled c = t.signaled c) : t'.Wf k where
  called c' p' h := by
    rw [ht, TimerPc.callback.injEq] at h
    obtain ⟨rfl, rfl⟩ := h
    exact ⟨hc ▸ (hw.called _ _ hp).1, hq⟩
  finish h := by
    have hf := hw.finish (hc ▸ h)
    cases c <;> simp_all [TimerPc.finishing]
  signaled c' h he := (hs c').trans (hw.signaled c' (hc ▸ h) he)

theorem Timer.Wf.call {k : TestCase} (hw : t.Wf k) (c : Call) (hp : t.pc.finishing = false)
    (ht : t'.pc = .callback c .enter) (hc : t'.calls = t.calls ++ [c])
    (hs : ∀ c, t.signaled c = true → t'.signaled c = true)
    (he : c.cmd = .error → t'.signaled c = true) : t'.Wf k where
  called c' p' h := by
    rw [ht, TimerPc.callback.injEq] at h
    obtain ⟨rfl, rfl⟩ := h
    simp [hc, CallbackPc.within]
  finish h := by
    rw [hc, List.mem_append, List.mem_singleton] at h
    rw [ht]
    rcases h with h | rfl
    · exact absurd (hw.finish h) (by simp [hp])
    · rfl
  signaled c' h hce := by
    rw [hc, List.mem_append, List.mem_singleton] at h
    rcases h with h | rfl
    · exact hs c' (hw.signaled c' h hce)
    · exact he hce

theorem Timer.Wf.leave {k : TestCase} (hw : t.Wf k) (ht : ∀ c p, t'.pc ≠ .callback c p)
    (hp : t.pc.finishing = true → t'.pc.finishing = true) (hc : t'.calls = t.calls)
    (hs : ∀ c, t'.signaled c = t.signaled c) : t'.Wf k where
  called c p h := absurd h (ht c p)
  finish h := hp (hw.finish (hc ▸ h))
  signaled c h he := (hs c).trans (hw.signaled c (hc ▸ h) he)

theorem Timer.Wf.resume {k : TestCase} (hw : t.Wf k) {c : Call} {p : CallbackPc}
    (hp : t.pc = .callback c p) : (t.resume c).Wf k := by
  cases c with
  | starting =>
    exact hw.call .started (by simp [hp, TimerPc.finishing]) rfl rfl (fun _ h => h) (by simp [Call.cmd])
  | finish => exact hw.leave (by simp [Timer.resume]) (fun _ => rfl) rfl (fun _ => rfl)
  | unreachable | forbidden | tlsParametersMissing | started | streamsDropped | report =>
    exact hw.leave (by simp [Timer.resume]) (by simp [hp, TimerPc.finishing]) rfl (fun _ => rfl)

theorem callback_wf {c : Call} {p : CallbackPc} (hp : t.pc = .callback c p)
    (hk : s.cb.mTestCase = sender) (hw : t.Wf sender)
    (h : CCallback.callback env sender objects c p s t = some (s', t')) : t'.Wf sender := by
  have hin := (hw.called c p hp).2
  have hst : c.stored.within sender c = true := by
    cases c <;> rfl
  cases p <;> simp only [CCallback.callback, Timer.goto] at h
  all_goals repeat' (split at h)
  all_goals
    simp only [Option.some.injEq, Prod.mk.injEq] at h
    obtain ⟨rfl, rfl⟩ := h
  all_goals try with_reducible exact hw.goto _ hp hst rfl rfl (fun _ => rfl)
  all_goals try with_reducible exact hw.goto _ hp hin hp rfl (fun _ => rfl)
  all_goals try with_reducible exact hw.resume hp
  all_goals try with_reducible exact hw.leave (by simp) (fun _ => rfl) rfl (fun _ => rfl)
  all_goals
    with_reducible refine hw.goto _ hp ?_ rfl rfl (fun _ => rfl)
    simp_all [CallbackPc.within]

/-- Every step of the timer thread keeps its position and its calls in order. -/
theorem CTimer.run_wf (hk : s.cb.mTestCase = sender) (hw : t.Wf sender)
    (h : CTimer.run env sender objects s t = some (s', t')) : t'.Wf sender := by
  cases hp : t.pc <;> simp only [CTimer.run, hp, Timer.goto] at h
  case callback c p => exact callback_wf hp hk hw h
  all_goals repeat' (split at h)
  all_goals try contradiction
  all_goals
    simp only [Option.some.injEq, Prod.mk.injEq] at h
    obtain ⟨rfl, rfl⟩ := h
  all_goals
    with_reducible first
      | exact hw.leave (by simp) (by simp [hp, TimerPc.finishing]) rfl (fun _ => rfl)
      | refine hw.call _ (by simp [hp, TimerPc.finishing]) rfl rfl ?_ ?_
  all_goals try (simp [Timer.call, Timer.signaled, Call.cmd]; done)
  all_goals
    intro c hc
    cases c <;> simp_all [Timer.call, Timer.signaled]

/-- Where and why the timer makes a call. -/
def Call.Cause (g : Globals) (t : Timer) : Call → Prop
  | .unreachable => t.pc = .ifUnreachable ∧ g.unreachable = true
  | .forbidden => t.pc = .ifForbidden ∧ g.forbidden = true
  | .tlsParametersMissing => t.pc = .ifTlsParametersMissing ∧ g.tlsParametersMissing = true
  | .starting => t.pc = .countSynced ∧ (g.syncCounter : Int) = t.mInstances
  | .started => t.pc = .callback .starting .toPlatform
  | .streamsDropped => t.pc = .ifStreamsDropped ∧ g.streamsDropped = true
  | .report => t.pc = .setCurrent
  | .finish => t.pc = .finishError ∧ g.hasError = false

theorem CTimer.run_calls (hw : t.Wf sender)
    (h : CTimer.run env sender objects s t = some (s', t')) :
    t'.calls = t.calls ∨ ∃ c, t'.calls = t.calls ++ [c] ∧ t'.pc = .callback c .enter ∧
      c.Cause s.g t ∧ s'.g = s.g := by
  cases hp : t.pc <;> simp only [CTimer.run, hp, Timer.goto] at h
  case callback c p =>
    have hin := (hw.called c p hp).2
    cases p <;> simp only [CCallback.callback, Timer.goto] at h
    all_goals repeat' (split at h)
    all_goals
      simp only [Option.some.injEq, Prod.mk.injEq] at h
      obtain ⟨rfl, rfl⟩ := h
    all_goals try with_reducible exact .inl rfl
    -- the return from a call
    all_goals cases c <;> first | exact .inl rfl | contradiction | exact .inr ⟨_, rfl, rfl, hp, rfl⟩
  all_goals repeat' (split at h)
  all_goals try contradiction
  all_goals
    simp only [Option.some.injEq, Prod.mk.injEq] at h
    obtain ⟨rfl, rfl⟩ := h
  all_goals try with_reducible exact .inl rfl
  all_goals
    with_reducible refine .inr ⟨_, rfl, rfl, ?_, rfl⟩
    simp_all [Call.Cause]

/-- The positions that the timer of a Download or Upload test passes with TIMER_STOPPED false. -/
def TimerPc.windowOpen : TimerPc → Bool
  | .ifUnreachable | .ifForbidden | .ifTlsParametersMissing | .errorStop | .ifTimerRunning
  | .countSynced | .setTimerRunning | .setTime1 | .ifStreamsDropped | .dropStop | .readTime
  | .ifDuration | .closeWindow | .setIndex => true
  | .callback c _ => c != .report && c != .finish
  | _ => false

/-- The positions in `ipCallback`, `rttUdpCallback` and `calculateMeasurementResultsDownloadUpload`
up to their last read of a worker. -/
def CallbackPc.reading : CallbackPc → Bool
  | .ipTimes | .ipResults | .rttResults | .rttCounters _ => true
  | .steps | .stepHead | .visit | .dropError | .dropFlag | .stepEnd => true
  | _ => false

def TimerPc.reading : TimerPc → Bool
  | .callback _ p => p.reading
  | _ => false

/-- How the timer gets to some of its positions. -/
structure Timer.Arrives (t t' : Timer) (s s' : Shared) : Prop where
  windowOpen : t'.pc.windowOpen = true → t.pc.windowOpen = true ∨ s'.g.timerStopped = false
  stop : t'.pc = .errorStop ∨ t'.pc = .dropStop →
    ∃ c p, t.pc = .callback c p ∧ c.cmd = .error ∧ t'.calls = t.calls
  dropFlag : ∀ c, t'.pc = .callback c .dropFlag → s'.g.hasError = true
  ifDuration : t'.pc = .ifDuration → s'.g.timerDuration = toInt t'.timeDiff
  closeWindow : t'.pc = .closeWindow → t.pc = .ifDuration ∧ t'.timeDiff = t.timeDiff ∧
    s.g.measurementDuration ≤ t.timeDiff / 1000000 ∧ s'.g = s.g
  finishRunning : t'.pc = .finishRunning → s'.g.timerStopped = true ∨ s'.g.running = false
  finishError : t'.pc = .finishError → t.pc = .finishRunning ∧ s'.g.running = true ∧ s'.g = s.g
  completed : ∀ c, t'.pc = .callback c .completed → s'.g.allPerformed = true
  reading : t'.pc.reading = true → t.pc.reading = true ∨
    ∃ c, t.pc = .callback c .enter ∧ (c = .report ∨ c = .finish)

theorem Timer.arrives_resume {c : Call} {p : CallbackPc} (hp : t.pc = .callback c p) :
    Timer.Arrives t (t.resume c) s s' := by
  cases c <;> constructor <;>
    simp [Timer.resume, Timer.call, TimerPc.windowOpen, TimerPc.reading, CallbackPc.reading, hp,
      Call.cmd]

/-- A step inside a call. -/
theorem Timer.arrives_goto {c : Call} {p q : CallbackPc} (hp : t.pc = .callback c p)
    (hq : t'.pc = .callback c q) (hflag : q = .dropFlag → s'.g.hasError = true)
    (hcompleted : q = .completed → s'.g.allPerformed = true)
    (hreading : q.reading = true → p.reading = true ∨ p = .enter ∧ (c = .report ∨ c = .finish)) :
    Timer.Arrives t t' s s' where
  windowOpen h := by
    rw [hq] at h
    rw [hp]
    exact .inl h
  stop h := by
    rw [hq] at h
    rcases h with h | h <;> contradiction
  dropFlag c' h := by
    rw [hq, TimerPc.callback.injEq] at h
    exact hflag h.2
  ifDuration h := by
    rw [hq] at h
    contradiction
  closeWindow h := by
    rw [hq] at h
    contradiction
  finishRunning h := by
    rw [hq] at h
    contradiction
  finishError h := by
    rw [hq] at h
    contradiction
  completed c' h := by
    rw [hq, TimerPc.callback.injEq] at h
    exact hcompleted h.2
  reading h := by
    rw [hq] at h
    rw [hp]
    rcases hreading h with hr | ⟨rfl, hc⟩
    · exact .inl hr
    · exact .inr ⟨c, rfl, hc⟩

theorem Timer.arrives_aborted (h : t'.pc = .aborted) : Timer.Arrives t t' s s' := by
  constructor <;> simp [h, TimerPc.windowOpen, TimerPc.reading]

theorem CTimer.run_arrives (h : CTimer.run env sender objects s t = some (s', t')) :
    Timer.Arrives t t' s s' := by
  cases hp : t.pc <;> simp only [CTimer.run, hp, Timer.goto] at h
  case callback c p =>
    have hst : c.stored ≠ .dropFlag ∧ c.stored ≠ .completed ∧ c.stored.reading = false := by
      cases c <;> simp [Call.stored, CallbackPc.reading]
    cases p <;> simp only [CCallback.callback, Timer.goto] at h
    all_goals repeat' (split at h)
    all_goals
      simp only [Option.some.injEq, Prod.mk.injEq] at h
      obtain ⟨rfl, rfl⟩ := h
    all_goals try with_reducible exact Timer.arrives_resume hp
    all_goals try with_reducible exact Timer.arrives_aborted rfl
    all_goals
      with_reducible first
        | refine Timer.arrives_goto hp rfl ?_ ?_ ?_
        | refine Timer.arrives_goto hp hp ?_ ?_ ?_
    all_goals simp_all [CallbackPc.reading]
  all_goals repeat' (split at h)
  all_goals try contradiction
  all_goals
    simp only [Option.some.injEq, Prod.mk.injEq] at h
    obtain ⟨rfl, rfl⟩ := h
  all_goals
    constructor <;>
      simp_all [TimerPc.windowOpen, TimerPc.reading, CallbackPc.reading, Timer.call]

/-- The command of a message to the platform. -/
def Event.cmd : Event → Option Cmd
  | .startTestCase _ => none
  | .platform _ m => some m.cmd

theorem Timer.Effect.log (h : Timer.Effect sender t t' s s') : s'.log = s.log ∨
    ∃ m c, s'.log = s.log ++ [Event.platform sender m] ∧
      (t.pc = .callback c .toPlatform ∧ m.cmd = c.cmd ∨
        t.pc = .callback c .completed ∧ m.cmd = .completed) := by
  cases h
  case emitted c h _ => exact .inr ⟨_, c, rfl, .inl ⟨h, rfl⟩⟩
  case completed c h _ => exact .inr ⟨_, c, rfl, .inr ⟨h, rfl⟩⟩
  all_goals exact .inl rfl

theorem CTimer.run_toPlatform {c : Call} (hp : t.pc = .callback c .toPlatform)
    (h : CTimer.run env sender objects s t = some (s', t')) :
    s' = callbackToPlatform sender c.cmd c.msg c.errorCode c.errorDescription s := by
  simp only [CTimer.run, hp, CCallback.callback, Timer.goto] at h
  split at h <;> simp only [Option.some.injEq, Prod.mk.injEq] at h <;> exact h.1.symm

theorem CTimer.run_clearActive (hp : t.pc = .clearActive)
    (h : CTimer.run env sender objects s t = some (s', t')) : t'.pc = .returned := by
  simp only [CTimer.run, hp, Timer.goto, Option.some.injEq, Prod.mk.injEq] at h
  exact h.2 ▸ rfl

theorem CTimer.run_completed {c : Call} (hp : t.pc = .callback c .completed)
    (h : CTimer.run env sender objects s t = some (s', t')) : t' = t.resume c := by
  simp only [CTimer.run, hp, CCallback.callback, Option.some.injEq, Prod.mk.injEq] at h
  exact h.2.symm

end IasClient
