import IasClient.Control.Window

namespace IasClient

open Framework

/-- The cap on the published steps. -/
def capSteps (v : WalkInput) : UInt64 :=
  match v.testCase with
  | .upload => (v.measurementDuration -
      UInt64.ofInt Upload.UPLOAD_ADDITIONAL_MEASUREMENT_DURATION) * 2
  | _ => v.measurementDuration * 2

/-- `max_steps` is the number of half seconds in TIMER_DURATION, or its cap. -/
theorem maxSteps_eq {v : WalkInput} (hk : v.testCase = .download ∨ v.testCase = .upload)
    (h0 : 0 ≤ v.timerDuration) (h1 : v.timerDuration < 2 ^ 31) :
    maxSteps v = min (v.timerDuration / 500000) (capSteps v).toNat := by
  have hsteps : (v.timerDuration - v.timerDuration.tmod 500000).tdiv 500000 =
      v.timerDuration / 500000 := by
    rw [Int.tmod_eq_emod_of_nonneg h0, Int.tdiv_eq_ediv_of_nonneg (by omega)]
    omega
  have hcast := ofInt_toNat (x := v.timerDuration / 500000) (by omega) (by omega)
  have hmax : maxSteps v = if capSteps v < UInt64.ofInt (v.timerDuration / 500000) then
      toInt (capSteps v) else v.timerDuration / 500000 := by
    rw [maxSteps, hsteps]
    rcases hk with hk | hk <;> simp only [capSteps, hk]
  rw [hmax]
  split
  · rename_i hlt
    rw [UInt64.lt_iff_toNat_lt] at hlt
    rw [toInt_of_lt (by omega)]
    omega
  · rename_i hlt
    rw [UInt64.lt_iff_toNat_lt] at hlt
    omega

/-- TIMER_DURATION and TIMER_INDEX against the clock, in the timer of a Download or Upload test of
`d` seconds. -/
structure Ticks (d : Nat) (g : Globals) (t : Timer) : Prop where
  time1 : t.time1.toNat ≤ g.now.toNat
  duration : 0 ≤ g.timerDuration ∧ g.timerDuration < 2 ^ 31
  index : 0 ≤ g.timerIndex ∧ 500000 * g.timerIndex ≤ g.timerDuration
  elapsed : g.timerDuration ≤ g.now.toNat - t.time1.toNat
  bound : g.timerIndex = 0 ∨ g.timerIndex < 2 * d

/-- What the position of that timer says about them. -/
def Paced (d : Nat) (g : Globals) (t : Timer) : Prop :=
  match t.pc with
  | .outerRunning => g.timerDuration = 0 ∨ g.timerStopped = true ∨ g.running = false
  | .outerStopped => g.timerDuration = 0 ∨ g.timerStopped = true
  | .ifUnreachable | .ifForbidden | .ifTlsParametersMissing | .errorStop | .ifTimerRunning
  | .countSynced | .setTimerRunning | .setTime1 => g.timerDuration = 0
  | .ifStreamsDropped | .dropStop | .readTime | .innerRunning | .innerStopped =>
    g.timerRunning = true
  | .ifDuration => g.timerRunning = true ∧ g.timerDuration = t.timeDiff.toNat
  | .setIndex => g.timerRunning = true ∧ g.timerDuration = t.timeDiff.toNat ∧
      t.timeDiff.toNat < d * 1000000
  | .closeWindow => g.timerRunning = true ∧ (d : Int) * 1000000 ≤ g.timerDuration
  | .ifIndex => g.timerRunning = true ∧ 0 ≤ t.currentIndex ∧ t.currentIndex ≤ g.timerIndex ∧
      (g.timerStopped = false → g.timerIndex = g.timerDuration / 500000)
  | .setCurrent => g.timerRunning = true ∧ 0 ≤ t.currentIndex ∧ t.currentIndex < g.timerIndex ∧
      g.timerIndex = g.timerDuration / 500000
  | .callback c _ =>
    match c with
    | .unreachable | .forbidden | .tlsParametersMissing | .starting | .started =>
      g.timerDuration = 0
    | .streamsDropped => g.timerRunning = true
    | .report => g.timerRunning = true ∧ g.timerIndex = g.timerDuration / 500000 ∧
        1 ≤ g.timerIndex
    | .finish => True
  | .finishRunning | .finishError | .clearActive | .returned | .aborted => True

variable {env : Env} {k : TestCase} {objects : List Worker} {sh sh' : Shared} {t t' : Timer}
  {d : Nat}

/-- A step that moves neither the clock nor what it is measured by. -/
theorem Ticks.congr {g g' : Globals} (h : Ticks d g t) (h1 : t'.time1 = t.time1)
    (hn : g'.now = g.now) (hd : g'.timerDuration = g.timerDuration)
    (hi : g'.timerIndex = g.timerIndex) : Ticks d g' t' where
  time1 := by rw [h1, hn]; exact h.time1
  duration := by rw [hd]; exact h.duration
  index := by rw [hi, hd]; exact h.index
  elapsed := by rw [hd, hn, h1]; exact h.elapsed
  bound := by rw [hi]; exact h.bound

/-- A step inside a call. -/
theorem Paced.goto {g g' : Globals} (h : Paced d g t) {c : Call} {p q : CallbackPc}
    (hp : t.pc = .callback c p) (hq : t'.pc = .callback c q)
    (hd : g'.timerDuration = g.timerDuration) (hi : g'.timerIndex = g.timerIndex)
    (hr : g'.timerRunning = g.timerRunning) : Paced d g' t' := by
  simp only [Paced, hp, hq, hd, hi, hr] at h ⊢
  exact h

theorem Paced.resume {g g' : Globals} (h : Paced d g t) {c : Call} {p : CallbackPc}
    (hp : t.pc = .callback c p) (hd : g'.timerDuration = g.timerDuration)
    (hr : g'.timerRunning = g.timerRunning) : Paced d g' (t.resume c) := by
  simp only [Paced, hp] at h
  cases c <;> simp_all [Paced, Timer.resume, Timer.call]

theorem Timer.resume_time1 (c : Call) (t : Timer) : (t.resume c).time1 = t.time1 := by
  cases c <;> rfl

theorem CCallback.callback_ticks (h : Ticks d sh.g t) (hw : Paced d sh.g t) {c : Call}
    {p : CallbackPc} (hp : t.pc = .callback c p) (hip : p ≠ .ipStopped)
    (hs : CCallback.callback env k objects c p sh t = some (sh', t')) :
    Ticks d sh'.g t' ∧ Paced d sh'.g t' := by
  have ht := Timer.resume_time1 c t
  cases p <;> simp only [CCallback.callback, Timer.goto] at hs
  case ipStopped => exact absurd rfl hip
  all_goals repeat' (split at hs)
  all_goals
    simp only [Option.some.injEq, Prod.mk.injEq] at hs
    obtain ⟨rfl, rfl⟩ := hs
  all_goals try with_reducible exact ⟨h.congr ht rfl rfl rfl, hw.resume hp rfl rfl⟩
  all_goals try with_reducible exact ⟨h.congr rfl rfl rfl rfl, hw.goto hp rfl rfl rfl rfl⟩
  all_goals try with_reducible exact ⟨h.congr rfl rfl rfl rfl, hw.goto hp hp rfl rfl rfl⟩
  case performed =>
    cases sh.cb.mTestCase <;>
      exact ⟨h.congr rfl rfl rfl rfl, hw.goto hp rfl rfl rfl rfl⟩
  -- an exception, or the last element of an empty array
  all_goals exact ⟨h.congr rfl rfl rfl rfl, trivial⟩

theorem Ticks.step_readTime (h : Ticks d sh.g t) (hw : Paced d sh.g t) (hp : t.pc = .readTime)
    (hclock : (sh.g.now - t.time1).toNat < 2 ^ 31)
    (hs : CTimer.run env k objects sh t = some (sh', t')) :
    Ticks d sh'.g t' ∧ Paced d sh'.g t' := by
  simp only [Paced, hp] at hw
  simp only [CTimer.run, hp, Option.some.injEq, Prod.mk.injEq] at hs
  obtain ⟨rfl, rfl⟩ := hs
  have hsub : (sh.g.now - t.time1).toNat = sh.g.now.toNat - t.time1.toNat :=
    UInt64.toNat_sub_of_le _ _ h.time1
  have hread := toInt_of_lt hclock
  have htime := h.time1
  have hel := h.elapsed
  have hi := h.index
  refine ⟨⟨htime, ?_, ?_, ?_, h.bound⟩, hw, hread⟩
  · simp only
    omega
  · simp only
    omega
  · simp only
    omega

theorem Ticks.step_setTime1 (h : Ticks d sh.g t) (hw : Paced d sh.g t) (hp : t.pc = .setTime1)
    (hs : CTimer.run env k objects sh t = some (sh', t')) :
    Ticks d sh'.g t' ∧ Paced d sh'.g t' := by
  simp only [Paced, hp] at hw
  simp only [CTimer.run, hp, Option.some.injEq, Prod.mk.injEq] at hs
  obtain ⟨rfl, rfl⟩ := hs
  refine ⟨⟨Nat.le_refl _, h.duration, h.index, ?_, h.bound⟩, .inl hw⟩
  simp only
  omega

theorem Ticks.step_ifDuration (h : Ticks d sh.g t) (hw : Paced d sh.g t) (hp : t.pc = .ifDuration)
    (hd : sh.g.measurementDuration.toNat = d)
    (hs : CTimer.run env k objects sh t = some (sh', t')) :
    Ticks d sh'.g t' ∧ Paced d sh'.g t' := by
  simp only [Paced, hp] at hw
  simp only [CTimer.run, hp, Timer.goto, Option.some.injEq, Prod.mk.injEq] at hs
  obtain ⟨rfl, rfl⟩ := hs
  have hdiv : (t.timeDiff / 1000000).toNat = t.timeDiff.toNat / 1000000 := by
    rw [UInt64.toNat_div]
    rfl
  refine ⟨h.congr rfl rfl rfl rfl, ?_⟩
  split
  all_goals
    rename_i hle
    rw [UInt64.le_iff_toNat_le, hdiv, hd] at hle
  · refine ⟨hw.1, ?_⟩
    omega
  · refine ⟨hw.1, hw.2, ?_⟩
    simp only
    omega

theorem Ticks.step_setIndex (h : Ticks d sh.g t) (hw : Paced d sh.g t) (hp : t.pc = .setIndex)
    (ho : Opened sh.g t) (hs : CTimer.run env k objects sh t = some (sh', t')) :
    Ticks d sh'.g t' ∧ Paced d sh'.g t' := by
  simp only [Paced, hp] at hw
  obtain ⟨hrun, hread, hlt⟩ := hw
  have hdur := h.duration
  have hi := h.index
  have hinner := ho.inner (by simp [hp, TimerPc.inner])
  simp only [CTimer.run, hp, Timer.goto, Option.some.injEq, Prod.mk.injEq] at hs
  obtain ⟨rfl, rfl⟩ := hs
  have hdiv : (t.timeDiff / 500000).toNat = t.timeDiff.toNat / 500000 := by
    rw [UInt64.toNat_div]
    rfl
  have hindex : toInt (t.timeDiff / 500000) = sh.g.timerDuration / 500000 := by
    rw [toInt_of_lt (by omega), hdiv]
    omega
  refine ⟨⟨h.time1, hdur, ?_, h.elapsed, ?_⟩, hrun, ?_, ?_, fun _ => hindex⟩
  all_goals
    simp only
    omega

theorem Ticks.step_ifIndex (h : Ticks d sh.g t) (hw : Paced d sh.g t) (hp : t.pc = .ifIndex)
    (ho : Opened sh.g t) (hs : CTimer.run env k objects sh t = some (sh', t')) :
    Ticks d sh'.g t' ∧ Paced d sh'.g t' := by
  simp only [Paced, hp] at hw
  obtain ⟨hrun, h0, hle, hindex⟩ := hw
  have hopen := ho.ifIndex hp
  simp only [CTimer.run, hp, Timer.goto, Option.some.injEq, Prod.mk.injEq] at hs
  obtain ⟨rfl, rfl⟩ := hs
  refine ⟨h.congr rfl rfl rfl rfl, ?_⟩
  split
  · exact hrun
  · rename_i hne
    refine ⟨hrun, h0, ?_, hindex (hopen.resolve_right hne)⟩
    simp only
    omega

/-- The steps that read flags, set them or make a call. -/
theorem Ticks.step_flags (h : Ticks d sh.g t) (hw : Paced d sh.g t)
    (hc : ∀ c p, t.pc ≠ .callback c p)
    (hx : t.pc ≠ .readTime ∧ t.pc ≠ .setTime1 ∧ t.pc ≠ .ifDuration ∧ t.pc ≠ .setIndex ∧
      t.pc ≠ .ifIndex) (ho : Opened sh.g t)
    (hs : CTimer.run env k objects sh t = some (sh', t')) :
    Ticks d sh'.g t' ∧ Paced d sh'.g t' := by
  have hi := h.index
  have hclose := ho.inner
  cases hp : t.pc <;> simp only [Paced, hp] at hw <;> simp only [CTimer.run, hp, Timer.goto] at hs
  case callback c p => exact absurd hp (hc c p)
  all_goals try simp [hp] at hx
  all_goals repeat' (split at hs)
  all_goals try contradiction
  all_goals
    simp only [Option.some.injEq, Prod.mk.injEq] at hs
    obtain ⟨rfl, rfl⟩ := hs
    refine ⟨h.congr rfl rfl rfl rfl, ?_⟩
  case setCurrent =>
    refine ⟨hw.1, hw.2.2.2, ?_⟩
    omega
  all_goals simp_all [Paced, Timer.call, TimerPc.inner]

/-- A step of the timer of a Download or Upload test, with a clock that does not run backwards. -/
theorem Ticks.step_timer (h : Ticks d sh.g t) (hw : Paced d sh.g t)
    (hk : k = .download ∨ k = .upload) (hwf : t.Wf k) (ho : Opened sh.g t)
    (hd : t.pc = .ifDuration → sh.g.measurementDuration.toNat = d)
    (hclock : t.pc = .readTime → (sh.g.now - t.time1).toNat < 2 ^ 31)
    (hs : CTimer.run env k objects sh t = some (sh', t')) :
    Ticks d sh'.g t' ∧ Paced d sh'.g t' := by
  by_cases hc : ∃ c p, t.pc = .callback c p
  · obtain ⟨c, p, hp⟩ := hc
    have hip : p ≠ .ipStopped := by
      rintro rfl
      have := (hwf.called c _ hp).2
      rcases hk with rfl | rfl <;> simp [CallbackPc.within] at this
    rw [CTimer.run, hp] at hs
    exact CCallback.callback_ticks h hw hp hip hs
  by_cases h1 : t.pc = .readTime
  · exact h.step_readTime hw h1 (hclock h1) hs
  by_cases h2 : t.pc = .setTime1
  · exact h.step_setTime1 hw h2 hs
  by_cases h3 : t.pc = .ifDuration
  · exact h.step_ifDuration hw h3 (hd h3) hs
  by_cases h4 : t.pc = .setIndex
  · exact h.step_setIndex hw h4 ho hs
  by_cases h5 : t.pc = .ifIndex
  · exact h.step_ifIndex hw h5 ho hs
  exact h.step_flags hw (fun c p hp => hc ⟨c, p, hp⟩) ⟨h1, h2, h3, h4, h5⟩ ho hs

/-- The array of the aggregates that `callbackToPlatform` hands over. -/
def CCallback.published (k : TestCase) (cb : CCallback) : List Aggregate :=
  if k = .upload then cb.jMeasurementResultsUpload else cb.jMeasurementResultsDownload

/-- The length of the arrays during a report or finish with `n` steps. -/
def Walked (k : TestCase) (n : Int) (cb : CCallback) (t : Timer) : Prop :=
  match t.pc with
  | .callback c p => c = .report ∨ c = .finish →
    match p with
    | .stepHead => t.walk.maxSteps = n ∧ (t.walk.results.length : Int) + 1 = t.walk.currentStep ∧
        (t.walk.results.length : Int) ≤ max n 0
    | .visit | .dropError | .dropFlag | .stepEnd => t.walk.maxSteps = n ∧
        (t.walk.results.length : Int) + 1 = t.walk.currentStep ∧ t.walk.currentStep ≤ n
    | .publish => (t.walk.results.length : Int) = max n 0
    | .performed | .toPlatform => ((cb.published k).length : Int) = n
    | _ => True
  | _ => True

theorem Walked.congr {n : Int} {cb cb' : CCallback} (h : Walked k n cb t)
    (hcb : cb'.published k = cb.published k) : Walked k n cb' t := by
  unfold Walked at h ⊢
  rw [hcb]
  exact h

theorem Timer.resume_walked {n : Int} {cb : CCallback} (c : Call) (t : Timer) :
    Walked k n cb (t.resume c) := by
  cases c <;> simp [Walked, Timer.resume, Timer.call]

theorem CCallback.callback_walked {c : Call} {p : CallbackPc}
    (h : Walked k (IasClient.maxSteps sh.g.walkInput) sh.cb t) (hp : t.pc = .callback c p)
    (hk : k = .download ∨ k = .upload) (hwf : t.Wf k) (hn : sh.g.nTestCase = k)
    (hs : CCallback.callback env k objects c p sh t = some (sh', t')) :
    Walked k (IasClient.maxSteps sh'.g.walkInput) sh'.cb t' := by
  have hin := (hwf.called c p hp).2
  have hr (t : Timer) (cb : CCallback) (n : Int) : Walked k n cb (t.resume c) :=
    Timer.resume_walked c t
  simp only [Walked, hp] at h
  cases p <;> simp only [CCallback.callback, Timer.goto] at hs
  case ipTimes | ipResults | ipStopped | rttResults | rttCounters r =>
    rcases hk with rfl | rfl <;> simp [CallbackPc.within] at hin
  all_goals repeat' (split at hs)
  all_goals
    simp only [Option.some.injEq, Prod.mk.injEq] at hs
    obtain ⟨rfl, rfl⟩ := hs
  case steps =>
    intro _
    exact ⟨rfl, rfl, le_max_right _ _⟩
  case stepHead.isTrue hle =>
    intro hc
    obtain ⟨h1, h2, h3⟩ := h hc
    exact ⟨h1, h2, h1 ▸ hle⟩
  case stepHead.isFalse hle =>
    intro hc
    obtain ⟨h1, h2, h3⟩ := h hc
    simp only
    omega
  case stepEnd =>
    intro hc
    obtain ⟨h1, h2, h3⟩ := h hc
    simp only [List.length_append, List.length_singleton]
    refine ⟨h1, ?_, ?_⟩
    · omega
    · omega
  case publish.isFalse hne =>
    have hpub : (publishResults sh.g.nTestCase t.walk sh.cb).published k = t.walk.results := by
      rcases hk with rfl | rfl <;> simp [hn, publishResults, CCallback.published]
    have hpos := List.length_pos_of_ne_nil hne
    rcases Classical.em (c = .report ∨ c = .finish) with hc | hc
    · have hlen := h hc
      rcases hc with rfl | rfl
      all_goals
        simp only [Walked, Call.stored, hpub]
        omega
    · simp only [Walked]
      exact fun h => absurd h hc
  case performed =>
    have hmax : maxSteps (sh.g.setPerformed sh.cb.mTestCase).walkInput = maxSteps sh.g.walkInput := by
      cases sh.cb.mTestCase <;> rfl
    simp only [Walked, hmax]
    exact h
  case enter.isFalse hne => exact fun hc => absurd hc hne
  all_goals first
    | exact hr _ _ _
    | trivial
    | exact h
    | simp only [Walked, hp]
      exact h
    | simp [Walked]

/-- The lengths outside a call say nothing, and a call starts at its first position. -/
theorem Walked.step_timer (h : Walked k (maxSteps sh.g.walkInput) sh.cb t)
    (hk : k = .download ∨ k = .upload) (hwf : t.Wf k) (hn : sh.g.nTestCase = k)
    (hs : CTimer.run env k objects sh t = some (sh', t')) :
    Walked k (maxSteps sh'.g.walkInput) sh'.cb t' := by
  cases hp : t.pc <;> simp only [CTimer.run, hp, Timer.goto] at hs
  case callback c p => exact CCallback.callback_walked h hp hk hwf hn hs
  all_goals repeat' (split at hs)
  all_goals try contradiction
  all_goals
    simp only [Option.some.injEq, Prod.mk.injEq] at hs
    obtain ⟨rfl, rfl⟩ := hs
    simp [Walked, Timer.call]

end IasClient
