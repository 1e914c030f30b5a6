import IasClient.Control.Barrier
import IasClient.Control.Pace

namespace IasClient

open Framework

/-- A report or finish handed to the platform, with TIMER_INDEX at that moment. -/
structure Emission where
  index : Int
  message : Message

def Message.published (k : TestCase) (m : Message) : List Aggregate :=
  if k = .upload then m.uploadInfo else m.downloadInfo

/-- The measurement with two histories of the current test case that no step reads: its reports and
its finishes. -/
structure Observed where
  sys : Sys
  reports : List Emission := []
  finishes : List Emission := []

namespace Observed

/-- What the next step of the timer hands over by the call `c`. -/
def emission (c : Call) (o : Observed) : Emission :=
  { index := o.sys.sh.g.timerIndex
    message := message o.sys.sh.g o.sys.sh.cb c.cmd c.msg c.errorCode c.errorDescription }

/-- The histories after a step. -/
def next (a : Action) (s : Sys) (o : Observed) : Observed :=
  match a with
  | .timer =>
    match o.sys.phase.timer.pc with
    | .callback .report .toPlatform =>
      { o with sys := s, reports := o.reports ++ [o.emission .report] }
    | .callback .finish .toPlatform =>
      { o with sys := s, finishes := o.finishes ++ [o.emission .finish] }
    | _ => { o with sys := s }
  | .main _ =>
    match o.sys.main with
    | .startTestCase _ => { sys := s }
    | _ => { o with sys := s }
  | _ => { o with sys := s }

def step (env : Env) (a : Action) (o : Observed) : Option Observed :=
  (IasClient.step env a o.sys).map fun s => o.next a s

end Observed

/-- The clock does not run backwards, and the timer reads less than 2^31 microseconds. -/
def Clocked (s : Sys) : Action → Prop
  | .clock now => s.sh.g.now ≤ now
  | .timer => s.phase.timer.pc = .readTime → (s.sh.g.now - s.phase.timer.time1).toNat < 2 ^ 31
  | _ => True

/-- RUNNING is true and no error flag is set. A report or finish that finds no live stream would
set `hasError`. -/
structure Quiet (g : Globals) : Prop where
  running : g.running = true
  hasError : g.hasError = false
  unreachable : g.unreachable = false
  forbidden : g.forbidden = false
  tlsParametersMissing : g.tlsParametersMissing = false
  streamsDropped : g.streamsDropped = false

/-- The window of a Download or Upload test without errors is closed by its duration only. -/
def Closed (d : Nat) (g : Globals) (t : Timer) : Prop :=
  (g.timerStopped = true → g.timerRunning = true ∧ (d : Int) * 1000000 ≤ g.timerDuration) ∧
    match t.pc with
    | .errorStop | .dropStop => False
    | .finishRunning | .finishError => g.timerStopped = true
    | .callback c _ =>
      match c with
      | .unreachable | .forbidden | .tlsParametersMissing | .streamsDropped => False
      | .finish => g.timerStopped = true
      | _ => True
    | _ => True

variable {env : Env} {k : TestCase} {objects : List Worker} {sh sh' : Shared} {t t' : Timer}
  {d : Nat}

/-- A step inside a call. -/
theorem Closed.goto {g g' : Globals} (h : Closed d g t) {c : Call} {p q : CallbackPc}
    (hp : t.pc = .callback c p) (hq : t'.pc = .callback c q)
    (hs : g'.timerStopped = g.timerStopped) (hd : g'.timerDuration = g.timerDuration)
    (hr : g'.timerRunning = g.timerRunning) : Closed d g' t' := by
  simp only [Closed, hp, hq, hs, hd, hr] at h ⊢
  exact h

theorem Closed.resume {g g' : Globals} (h : Closed d g t) {c : Call} {p : CallbackPc}
    (hp : t.pc = .callback c p) (hs : g'.timerStopped = g.timerStopped)
    (hd : g'.timerDuration = g.timerDuration) (hr : g'.timerRunning = g.timerRunning) :
    Closed d g' (t.resume c) := by
  simp only [Closed, hp] at h
  cases c <;> simp_all [Closed, Timer.resume, Timer.call]

theorem Closed.step_callback (h : Closed d sh.g t) {c : Call} {p : CallbackPc}
    (hp : t.pc = .callback c p) (hip : p ≠ .ipStopped)
    (hs : CCallback.callback env k objects c p sh t = some (sh', t')) : Closed d sh'.g t' := by
  cases p <;> simp only [CCallback.callback, Timer.goto] at hs
  case ipStopped => exact absurd rfl hip
  all_goals repeat' (split at hs)
  all_goals
    simp only [Option.some.injEq, Prod.mk.injEq] at hs
    obtain ⟨rfl, rfl⟩ := hs
  all_goals try with_reducible exact h.resume hp rfl rfl rfl
  all_goals try with_reducible exact h.goto hp rfl rfl rfl rfl
  all_goals try with_reducible exact h.goto hp hp rfl rfl rfl
  case performed => cases sh.cb.mTestCase <;> exact h.goto hp rfl rfl rfl rfl
  -- an exception, or the last element of an empty array
  all_goals exact ⟨h.1, trivial⟩

theorem Closed.step_timer (h : Closed d sh.g t) (hw : Paced d sh.g t) (hq : Quiet sh.g)
    (hk : k = .download ∨ k = .upload) (hwf : t.Wf k) (ho : Opened sh.g t)
    (hs : CTimer.run env k objects sh t = some (sh', t')) : Closed d sh'.g t' := by
  have hopen := ho.windowOpen
  by_cases hc : ∃ c p, t.pc = .callback c p
  · obtain ⟨c, p, hp⟩ := hc
    have hip : p ≠ .ipStopped := by
      rintro rfl
      have := (hwf.called c _ hp).2
      rcases hk with rfl | rfl <;> simp [CallbackPc.within] at this
    rw [CTimer.run, hp] at hs
    exact h.step_callback hp hip hs
  obtain ⟨hstop, hpc⟩ := h
  obtain ⟨q1, q2, q3, q4, q5, q6⟩ := hq
  cases hp : t.pc <;> simp only [CTimer.run, hp, Timer.goto] at hs <;>
    simp only [hp, Paced] at hpc hw
  case callback c p => exact absurd ⟨c, p, hp⟩ hc
  all_goals repeat' (split at hs)
  all_goals try contradiction
  all_goals
    simp only [Option.some.injEq, Prod.mk.injEq] at hs
    obtain ⟨rfl, rfl⟩ := hs
    refine ⟨?_, ?_⟩
    all_goals simp_all [Timer.call, TimerPc.windowOpen]

/-- The TIMER_INDEX `i` of a report lies behind, before the one that is being made. -/
def Behind (g : Globals) (t : Timer) (i : Int) : Prop :=
  i ≤ g.timerIndex ∧
    match t.pc with
    | .callback .report _ => i < t.currentIndex
    | _ => i ≤ t.currentIndex

theorem Behind.goto {g g' : Globals} {i : Int} (h : Behind g t i) {c : Call} {p q : CallbackPc}
    (hp : t.pc = .callback c p) (hq : t'.pc = .callback c q)
    (hi : g'.timerIndex = g.timerIndex) (hc : t'.currentIndex = t.currentIndex) :
    Behind g' t' i := by
  simp only [Behind, hp, hq, hi, hc] at h ⊢
  cases c <;> exact h

theorem Behind.resume {g g' : Globals} {i : Int} (h : Behind g t i) {c : Call} {p : CallbackPc}
    (hp : t.pc = .callback c p) (hi : g'.timerIndex = g.timerIndex) :
    Behind g' (t.resume c) i := by
  simp only [Behind, hp] at h
  cases c <;> simp only [Behind, Timer.resume, Timer.call, hi] <;> simp only at h <;> omega

theorem Behind.step_callback {i : Int} (h : Behind sh.g t i) {c : Call} {p : CallbackPc}
    (hp : t.pc = .callback c p)
    (hs : CCallback.callback env k objects c p sh t = some (sh', t')) : Behind sh'.g t' i := by
  cases p <;> simp only [CCallback.callback, Timer.goto] at hs
  all_goals repeat' (split at hs)
  all_goals
    simp only [Option.some.injEq, Prod.mk.injEq] at hs
    obtain ⟨rfl, rfl⟩ := hs
  all_goals try with_reducible exact h.resume hp rfl
  all_goals try with_reducible exact h.goto hp rfl rfl rfl
  all_goals try with_reducible exact h.goto hp hp rfl rfl
  case performed => cases sh.cb.mTestCase <;> exact h.goto hp rfl rfl rfl
  -- an exception, or the last element of an empty array
  all_goals
    simp only [Behind, hp] at h ⊢
    cases c <;> simp only at h <;> omega

theorem Behind.step_timer {i : Int} (h : Behind sh.g t i) (hw : Paced d sh.g t)
    (ho : Opened sh.g t) (hw' : Paced d sh'.g t')
    (hs : CTimer.run env k objects sh t = some (sh', t')) : Behind sh'.g t' i := by
  by_cases hc : ∃ c p, t.pc = .callback c p
  · obtain ⟨c, p, hp⟩ := hc
    rw [CTimer.run, hp] at hs
    exact h.step_callback hp hs
  have houter := ho.outer
  have hinner := ho.inner
  cases hp : t.pc <;> simp only [CTimer.run, hp, Timer.goto] at hs
  case callback c p => exact absurd ⟨c, p, hp⟩ hc
  all_goals repeat' (split at hs)
  all_goals try contradiction
  all_goals
    simp only [Option.some.injEq, Prod.mk.injEq] at hs
    obtain ⟨rfl, rfl⟩ := hs
    simp only [Behind, hp, Paced, Timer.call] at h hw hw' ⊢
    simp only [hp, TimerPc.outer, TimerPc.inner, forall_const, Bool.false_eq_true,
      false_imp_iff] at houter hinner
    omega

/-- MEASUREMENT_DURATION in seconds, as it is read from the parameters. -/
def seconds (env : Env) (k : TestCase) : Int :=
  if k = .upload then
    env.readLong "UL_DURATION" 10 + Upload.UPLOAD_ADDITIONAL_MEASUREMENT_DURATION
  else env.readLong "DL_DURATION" 10

/-- The published half seconds of a test of `n` seconds. -/
def allSteps (k : TestCase) (n : Int) : Int :=
  if k = .upload then 2 * (n - Upload.UPLOAD_ADDITIONAL_MEASUREMENT_DURATION) else 2 * n

/-- A duration that publishes something; it is read as a `long`. -/
def ValidDuration (k : TestCase) (n : Int) : Prop :=
  (if k = .upload then 3 else 1) ≤ n ∧ n < 2 ^ 63

theorem duration_toNat (hk : k = .download ∨ k = .upload) (hv : ValidDuration k (seconds env k)) :
    ((duration env k).toNat : Int) = seconds env k := by
  have hd : duration env k = UInt64.ofInt (seconds env k) := by
    rcases hk with rfl | rfl <;> rfl
  obtain ⟨h1, h2⟩ := hv
  rw [hd]
  apply ofInt_toNat
  · split at h1 <;> omega
  · omega

theorem capSteps_toNat {v : WalkInput} (hk : k = .download ∨ k = .upload) (hv : v.testCase = k)
    (hd : v.measurementDuration = duration env k) (hs : ValidDuration k (seconds env k)) :
    ((capSteps v).toNat : Int) = allSteps k (seconds env k) := by
  have hn := duration_toNat hk hs
  obtain ⟨h1, h2⟩ := hs
  have hextra : Upload.UPLOAD_ADDITIONAL_MEASUREMENT_DURATION = 2 := rfl
  have htwo : (UInt64.ofInt Upload.UPLOAD_ADDITIONAL_MEASUREMENT_DURATION).toNat = 2 := rfl
  rcases hk with rfl | rfl
  · have hcap : (capSteps v).toNat = (duration env .download).toNat * 2 % 2 ^ 64 := by
      simp only [capSteps, hv, hd, UInt64.toNat_mul]
      rfl
    have hall : allSteps .download (seconds env .download) = 2 * seconds env .download := rfl
    rw [hcap, hall]
    omega
  · simp only [if_true] at h1
    have hle : UInt64.ofInt Upload.UPLOAD_ADDITIONAL_MEASUREMENT_DURATION ≤ duration env .upload := by
      rw [UInt64.le_iff_toNat_le, htwo]
      omega
    have hcap : (capSteps v).toNat = ((duration env .upload).toNat - 2) * 2 % 2 ^ 64 := by
      simp only [capSteps, hv, hd, UInt64.toNat_mul, UInt64.toNat_sub_of_le _ _ hle, htwo]
      rfl
    have hall : allSteps .upload (seconds env .upload) = 2 * (seconds env .upload - 2) := rfl
    rw [hcap, hall]
    omega

/-- The positions of the timer after its finish. -/
def TimerPc.emitted : TimerPc → Bool
  | .callback .finish .ifCompleted | .callback .finish .completed | .clearActive
  | .returned => true
  | _ => false

/-- The reports and the finish of a test of `n` seconds. -/
structure Series (k : TestCase) (n : Int) (o : Observed) : Prop where
  increasing : o.reports.Pairwise fun e f => e.index < f.index
  reports : ∀ e ∈ o.reports, 1 ≤ e.index ∧ e.index < 2 * n ∧
    ((e.message.published k).length : Int) = min e.index (allSteps k n)
  finishes : ∀ e ∈ o.finishes, ((e.message.published k).length : Int) = allSteps k n
  none : o.sys.phase.timer.pc.emitted = false → o.finishes = []
  once : o.sys.phase.timer.pc.emitted = true → o.finishes.length = 1

/-- What holds in the test case `k` while its timer runs. -/
structure Measuring (env : Env) (k : TestCase) (o : Observed) : Prop
    extends Series k (seconds env k) o where
  ticks : Ticks (duration env k).toNat o.sys.sh.g o.sys.phase.timer
  paced : Paced (duration env k).toNat o.sys.sh.g o.sys.phase.timer
  walked : Walked k (maxSteps o.sys.sh.g.walkInput) o.sys.sh.cb o.sys.phase.timer
  closed : Closed (duration env k).toNat o.sys.sh.g o.sys.phase.timer
  behind : ∀ e ∈ o.reports, Behind o.sys.sh.g o.sys.phase.timer e.index

/-- A step of the timer reaches the positions after the finish by the finish, and only so. -/
theorem CTimer.run_emitted (hq : Quiet sh.g) (hwf : t.Wf k)
    (hs : CTimer.run env k objects sh t = some (sh', t')) :
    if t.pc = .callback .finish .toPlatform then t'.pc.emitted = true
    else t'.pc.emitted = t.pc.emitted := by
  obtain ⟨q1, q2, -⟩ := hq
  cases hp : t.pc <;> simp only [CTimer.run, hp, Timer.goto] at hs
  case callback c p =>
    have hin := (hwf.called c p hp).2
    cases p <;> simp only [CCallback.callback, Timer.goto] at hs
    all_goals repeat' (split at hs)
    all_goals
      simp only [Option.some.injEq, Prod.mk.injEq] at hs
      obtain ⟨rfl, rfl⟩ := hs
      cases c <;> simp_all [TimerPc.emitted, Timer.resume, Timer.call, Call.stored, CallbackPc.within]
  all_goals repeat' (split at hs)
  all_goals try contradiction
  all_goals
    simp only [Option.some.injEq, Prod.mk.injEq] at hs
    obtain ⟨rfl, rfl⟩ := hs
    simp_all [TimerPc.emitted, Timer.call]

section Step

variable {o : Observed} {s : Sys} {a : Action}

/-- The number of steps that the timer is about to hand over. -/
theorem Measuring.published_length (h : Measuring env k o) (hk : k = .download ∨ k = .upload)
    (hn : o.sys.sh.g.nTestCase = k) (hv : ValidDuration k (seconds env k))
    (hd : o.sys.sh.g.measurementDuration = duration env k) {c : Call}
    (hp : o.sys.phase.timer.pc = .callback c .toPlatform) (hc : c = .report ∨ c = .finish) :
    ((o.sys.sh.cb.published k).length : Int) =
      min (o.sys.sh.g.timerDuration / 500000) (allSteps k (seconds env k)) := by
  have hw := h.walked
  simp only [Walked, hp] at hw
  have htc : o.sys.sh.g.walkInput.testCase = k := hn
  rw [hw hc, maxSteps_eq (htc ▸ hk) h.ticks.duration.1 h.ticks.duration.2,
    capSteps_toNat hk htc hd hv]
  rfl

theorem Measuring.report (h : Measuring env k o) (hk : k = .download ∨ k = .upload)
    (hn : o.sys.sh.g.nTestCase = k) (hv : ValidDuration k (seconds env k))
    (hd : o.sys.sh.g.timerRunning = true → o.sys.sh.g.measurementDuration = duration env k)
    (hp : o.sys.phase.timer.pc = .callback .report .toPlatform) :
    1 ≤ o.sys.sh.g.timerIndex ∧ o.sys.sh.g.timerIndex < 2 * seconds env k ∧
      ((o.sys.sh.cb.published k).length : Int) =
        min o.sys.sh.g.timerIndex (allSteps k (seconds env k)) := by
  have hpace := h.paced
  simp only [Paced, hp] at hpace
  obtain ⟨hrun, hindex, hone⟩ := hpace
  have hbound := h.ticks.bound
  have hnat := duration_toNat hk hv
  refine ⟨hone, by omega, ?_⟩
  rw [h.published_length hk hn hv (hd hrun) hp (.inl rfl), ← hindex]

theorem Measuring.finish (h : Measuring env k o) (hk : k = .download ∨ k = .upload)
    (hn : o.sys.sh.g.nTestCase = k) (hv : ValidDuration k (seconds env k))
    (hd : o.sys.sh.g.timerRunning = true → o.sys.sh.g.measurementDuration = duration env k)
    (hp : o.sys.phase.timer.pc = .callback .finish .toPlatform) :
    ((o.sys.sh.cb.published k).length : Int) = allSteps k (seconds env k) := by
  have hclosed := h.closed
  simp only [Closed, hp] at hclosed
  obtain ⟨hrun, hlong⟩ := hclosed.1 hclosed.2
  have hnat := duration_toNat hk hv
  rw [h.published_length hk hn hv (hd hrun) hp (.inr rfl)]
  have hall : allSteps k (seconds env k) ≤ 2 * seconds env k := by
    have hextra : Upload.UPLOAD_ADDITIONAL_MEASUREMENT_DURATION = 2 := rfl
    unfold allSteps
    split <;> omega
  omega

theorem Measuring.step_timer (h : Measuring env k o) (hk : k = .download ∨ k = .upload)
    (hn : o.sys.sh.g.nTestCase = k) (hv : ValidDuration k (seconds env k))
    (hd : o.sys.sh.g.timerRunning = true → o.sys.sh.g.measurementDuration = duration env k)
    (hq : Quiet o.sys.sh.g) (hwf : o.sys.phase.timer.Wf k)
    (ho : Opened o.sys.sh.g o.sys.phase.timer) (hclock : Clocked o.sys .timer)
    (hs : CTimer.run env k objects o.sys.sh o.sys.phase.timer = some (sh', t')) :
    Measuring env k (o.next .timer
      { o.sys with sh := sh', phase := { o.sys.phase with timer := t' } }) := by
  have hem := CTimer.run_emitted hq hwf hs
  obtain ⟨hticks, hpaced⟩ := h.ticks.step_timer h.paced hk hwf ho (fun hp => by
    have hpace := h.paced
    simp only [Paced, hp] at hpace
    rw [hd hpace.1]) hclock hs
  have hwalked := h.walked.step_timer hk hwf hn hs
  have hclosed := h.closed.step_timer h.paced hq hk hwf ho hs
  have hbehind : ∀ e ∈ o.reports, Behind sh'.g t' e.index := fun e he =>
    (h.behind e he).step_timer h.paced ho hpaced hs
  by_cases hr : o.sys.phase.timer.pc = .callback .report .toPlatform
  · obtain ⟨h1, h2, h3⟩ := h.report hk hn hv hd hr
    have hcur : ∀ e ∈ o.reports, e.index < o.sys.sh.g.timerIndex := by
      intro e he
      have hb := h.behind e he
      simp only [Behind, hr] at hb
      rw [ho.inner (by simp [hr, TimerPc.inner])]
      exact hb.2
    have hsame : sh'.g.timerIndex = o.sys.sh.g.timerIndex ∧
        t' = { o.sys.phase.timer with pc := .innerRunning } := by
      rw [CTimer.run, hr] at hs
      simp only [CCallback.callback, Option.some.injEq, Prod.mk.injEq, reduceCtorEq, if_false] at hs
      exact ⟨hs.1 ▸ rfl, hs.2 ▸ rfl⟩
    have hnew : Behind sh'.g t' (o.emission .report).index := by
      simp only [Behind, hsame.2, hsame.1]
      exact ⟨le_rfl, (ho.inner (by simp [hr, TimerPc.inner])).le⟩
    have hfin : o.finishes = [] := h.none (by simp [hr, TimerPc.emitted])
    have hpc : t'.pc.emitted = false := by simp [hsame.2, TimerPc.emitted]
    simp only [Observed.next, hr]
    refine ⟨⟨?_, ?_, h.finishes, fun _ => hfin, fun he => ?_⟩, hticks, hpaced, hwalked, hclosed, ?_⟩
    · refine List.pairwise_append.mpr ⟨h.increasing, List.pairwise_singleton _ _, ?_⟩
      intro e he f hf
      rw [List.mem_singleton.mp hf]
      exact hcur e he
    · intro e he
      rcases List.mem_append.mp he with he | he
      · exact h.reports e he
      · rw [List.mem_singleton.mp he]
        exact ⟨h1, h2, h3⟩
    · simp only at he
      simp [hpc] at he
    · intro e he
      rcases List.mem_append.mp he with he | he
      · exact hbehind e he
      · rw [List.mem_singleton.mp he]
        exact hnew
  by_cases hf : o.sys.phase.timer.pc = .callback .finish .toPlatform
  · have hlen := h.finish hk hn hv hd hf
    have hfin : o.finishes = [] := h.none (by simp [hf, TimerPc.emitted])
    rw [if_pos hf] at hem
    simp only [Observed.next, hf]
    refine ⟨⟨h.increasing, h.reports, ?_, fun he => ?_, fun _ => by simp [hfin]⟩, hticks, hpaced,
      hwalked, hclosed, hbehind⟩
    · intro e he
      rw [hfin, List.nil_append, List.mem_singleton] at he
      rw [he]
      exact hlen
    · simp only at he
      simp [hem] at he
  · rw [if_neg hf] at hem
    simp only [Observed.next]
    exact ⟨⟨h.increasing, h.reports, h.finishes, fun he => h.none (hem ▸ he),
      fun he => h.once (hem ▸ he)⟩, hticks, hpaced, hwalked, hclosed, hbehind⟩

theorem Ticks.outside {g g' : Globals} (h : Ticks d g t) (hn : g.now.toNat ≤ g'.now.toNat)
    (hd : g'.timerDuration = g.timerDuration) (hi : g'.timerIndex = g.timerIndex) :
    Ticks d g' t where
  time1 := Nat.le_trans h.time1 hn
  duration := by rw [hd]; exact h.duration
  index := by rw [hi, hd]; exact h.index
  elapsed := by
    have := h.elapsed
    rw [hd]
    omega
  bound := by rw [hi]; exact h.bound

theorem Paced.outside {g g' : Globals} (h : Paced d g t)
    (hd : g'.timerDuration = g.timerDuration) (hi : g'.timerIndex = g.timerIndex)
    (hs : g'.timerStopped = g.timerStopped) (hr : g'.timerRunning = g.timerRunning)
    (hrun : g.running = false → g'.running = false) : Paced d g' t := by
  cases hp : t.pc <;> simp only [Paced, hp, hd, hi, hs, hr] at h ⊢
  case outerRunning => exact h.imp_right (Or.imp_right hrun)
  all_goals exact h

/-- Where the timer is not in a report or finish, the lengths say nothing. -/
theorem walked_of_not_reporting {n : Int} {cb : CCallback}
    (h : ∀ c p, t.pc = .callback c p → ¬ (c = .report ∨ c = .finish)) : Walked k n cb t := by
  unfold Walked
  split
  · rename_i c p hp
    exact fun hc => absurd hc (h c p hp)
  · trivial

/-- A step of another thread. -/
theorem Measuring.outside {o' : Observed} (h : Measuring env k o) (hr : o'.reports = o.reports)
    (hf : o'.finishes = o.finishes) (ht : o'.sys.phase.timer = o.sys.phase.timer)
    (hn : o.sys.sh.g.now.toNat ≤ o'.sys.sh.g.now.toNat)
    (hd : o'.sys.sh.g.timerDuration = o.sys.sh.g.timerDuration)
    (hi : o'.sys.sh.g.timerIndex = o.sys.sh.g.timerIndex)
    (hs : o'.sys.sh.g.timerStopped = o.sys.sh.g.timerStopped)
    (hrun : o'.sys.sh.g.timerRunning = o.sys.sh.g.timerRunning)
    (hg : o.sys.sh.g.running = false → o'.sys.sh.g.running = false)
    (hw : Walked k (maxSteps o'.sys.sh.g.walkInput) o'.sys.sh.cb o'.sys.phase.timer) :
    Measuring env k o' where
  increasing := by rw [hr]; exact h.increasing
  reports := by rw [hr]; exact h.reports
  finishes := by rw [hf]; exact h.finishes
  none := by rw [ht, hf]; exact h.none
  once := by rw [ht, hf]; exact h.once
  ticks := by rw [ht]; exact h.ticks.outside hn hd hi
  paced := by rw [ht]; exact h.paced.outside hd hi hs hrun hg
  walked := hw
  closed := by
    have hc := h.closed
    simp only [Closed, ht, hs, hrun, hd] at hc ⊢
    exact hc
  behind := by
    have hb := h.behind
    simp only [Behind, hr, ht, hi] at hb ⊢
    exact hb

theorem maxSteps_congr {v v' : WalkInput} (hk : v'.testCase = v.testCase)
    (hd : v'.timerDuration = v.timerDuration)
    (hm : v'.measurementDuration = v.measurementDuration) : maxSteps v' = maxSteps v := by
  simp only [maxSteps, hk, hd, hm]

/-- `Measuring` in the current test case, if that is a Download or Upload test with a valid duration
and at least one stream. -/
structure Watched (env : Env) (o : Observed) : Prop where
  fresh : ∀ k, o.sys.main = .construct k → o.reports = [] ∧ o.finishes = []
  measuring : ∀ k, k = .download ∨ k = .upload → o.sys.phase.testCase = k →
    ValidDuration k (seconds env k) → 1 ≤ o.sys.phase.timer.mInstances → Measuring env k o

theorem measuring_construct {g : Globals} {n m : Int} (hr : o.reports = [])
    (hf : o.finishes = []) (hg : o.sys.sh.g = { constructTimer g with instances := n })
    (ht : o.sys.phase.timer = { pc := .outerRunning, mInstances := m }) :
    Measuring env k o := by
  refine ⟨⟨?_, ?_, ?_, ?_, ?_⟩, ?_, ?_, ?_, ?_, ?_⟩
  · simp [hr]
  · simp [hr]
  · simp [hf]
  · exact fun _ => hf
  · simp [ht, TimerPc.emitted]
  · constructor <;> simp [hg, ht, constructTimer]
  · simp [Paced, hg, ht, constructTimer]
  · simp [Walked, ht]
  · simp [Closed, hg, ht, constructTimer]
  · simp [hr]

theorem Worker.Effect.keeps_now {w w' : Worker} {g g' : Globals}
    (h : Worker.Effect k w w' g g') : g'.now = g.now := by
  cases h <;> rfl

/-- The rest of what the main thread leaves alone inside a test case. -/
theorem mainStep_leaves {created : Bool} {s s' : Sys} (h : mainStep env created s = some s')
    (hc : ∀ k, s.main ≠ .construct k) (hs : ∀ k, s.main ≠ .startTestCase k) :
    (∀ k, s'.main ≠ .construct k) ∧ s'.sh.g.now = s.sh.g.now ∧
      (∀ k, s'.sh.cb.published k = s.sh.cb.published k) ∧
      s'.sh.g.nTestCase = s.sh.g.nTestCase ∧
      ((∃ k, s.main = .startMeasurement k) ∨
        s'.sh.g.measurementDuration = s.sh.g.measurementDuration) := by
  have hafter (k l : TestCase) : afterTestCase k ≠ .construct l := afterTestCase_ne k rfl
  cases hm : s.main <;> simp only [mainStep, hm] at h
  case construct k => exact absurd hm (hc k)
  case startTestCase k => exact absurd hm (hs k)
  all_goals repeat' (split at h)
  all_goals try contradiction
  all_goals
    simp only [Option.some.injEq] at h
    subst h
    simp [hafter, readTlsOverhead, CCallback.published]

theorem Watched.step_main (h : Watched env o) (ht : Threads env o.sys) (hb : Barrier env o.sys)
    (hs : mainStep env true o.sys = some s) : Watched env (o.next (.main true) s) := by
  by_cases hst : ∃ k, o.sys.main = .startTestCase k
  · obtain ⟨k, hm⟩ := hst
    simp only [mainStep, hm, Option.some.injEq] at hs
    simp only [Observed.next, hm]
    subst hs
    exact ⟨fun _ _ => ⟨rfl, rfl⟩, fun _ _ _ _ hn => absurd hn (by simp)⟩
  have hnext : o.next (.main true) s = { o with sys := s } := by
    simp only [Observed.next]
    split
    · exact absurd ⟨_, ‹_›⟩ hst
    · rfl
  rw [hnext]
  by_cases hc : ∃ k, o.sys.main = .construct k
  · obtain ⟨k, hm⟩ := hc
    obtain ⟨hr, hf⟩ := h.fresh k hm
    simp only [mainStep, hm, Option.some.injEq] at hs
    subst hs
    exact ⟨fun _ hm' => by simp at hm', fun _ _ _ _ _ => measuring_construct hr hf rfl rfl⟩
  obtain ⟨hg, hkept, htimer, htc⟩ := mainStep_grows hs (by simpa using hc) (by simpa using hst)
  obtain ⟨hmain, hnow, hcb, hntc, hd⟩ := mainStep_leaves hs (by simpa using hc) (by simpa using hst)
  refine ⟨fun k hm => absurd hm (hmain k), ?_⟩
  intro k hk htk hv hn
  rw [htc] at htk
  rw [htimer] at hn
  have hm := h.measuring k hk htk hv hn
  refine hm.outside rfl rfl htimer (by rw [hnow]) hkept.timerDuration hkept.timerIndex
    hkept.timerStopped hkept.timerRunning hg.running ?_
  rw [htimer]
  rcases hd with ⟨l, hl⟩ | hd
  · -- no worker exists yet, so the timer cannot have come to a report
    have hj := ht.joined
    simp only [Joined, hl] at hj
    have hrun : o.sys.sh.g.timerRunning ≠ true := by
      intro hrun
      have hlen := (hb.passed (.inr hrun)).created
      rw [hj.1] at hlen
      simp only [List.length_nil] at hlen
      omega
    apply walked_of_not_reporting
    rintro c p hp (rfl | rfl)
    · have hpace := hm.paced
      simp only [Paced, hp] at hpace
      exact hrun hpace.1
    · have hclosed := hm.closed
      simp only [Closed, hp] at hclosed
      exact hrun (hclosed.1 hclosed.2).1
  · have hmax : maxSteps s.sh.g.walkInput = maxSteps o.sys.sh.g.walkInput :=
      maxSteps_congr hntc hkept.timerDuration hd
    rw [hmax]
    exact hm.walked.congr (hcb k)

theorem Watched.step (h : Watched env o) (ht : Threads env o.sys) (hb : Barrier env o.sys)
    (ho : Window o.sys) (hc : Created a) (hclock : Clocked o.sys a) (hq : Quiet o.sys.sh.g)
    (hs : IasClient.step env a o.sys = some s) : Watched env (o.next a s) := by
  cases step_moved ht.past hs with
  | main hm =>
    subst hc
    exact h.step_main ht hb hm
  | @timer sh t hstep =>
    have hmain : (o.next .timer
        { o.sys with sh := sh, phase := { o.sys.phase with timer := t } }).sys =
        { o.sys with sh := sh, phase := { o.sys.phase with timer := t } } := by
      simp only [Observed.next]
      split <;> rfl
    obtain ⟨l, hl, hlc⟩ := ht.timer_inside (CTimer.run_moves hstep)
    obtain ⟨h1, h2, -⟩ := ht.testCase l hl
    refine ⟨?_, ?_⟩
    · intro k hm
      rw [hmain] at hm
      have hin : some k = some l := by
        rw [← hl, show o.sys.main = .construct k from hm]
        rfl
      exact absurd (Option.some.inj hin ▸ hm) hlc
    · intro k hk htk hv hn
      rw [hmain] at htk hn
      have htk : o.sys.phase.testCase = k := htk
      have hn : 1 ≤ o.sys.phase.timer.mInstances := CTimer.run_mInstances hstep ▸ hn
      subst htk
      have hm := h.measuring _ hk rfl hv hn
      exact hm.step_timer hk (h2.trans h1.symm) hv (fun hr => (hb.started hn hr).duration) hq
        ht.timer (ho hk) hclock hstep
  | worker hj hstep =>
    have he := Worker.run_effect hstep
    refine ⟨h.fresh, fun k hk htk hv hn => ?_⟩
    have hm := h.measuring k hk htk hv hn
    have hne : o.sys.phase.testCase ≠ .rttUdp := by
      rintro hr
      rcases hk with rfl | rfl <;> exact absurd (hr.symm.trans htk) (by simp)
    obtain ⟨h1, h2, h3⟩ := he.keeps_window hne
    refine hm.outside rfl rfl rfl (by rw [← he.keeps_now]; exact Nat.le_refl _) h2 h3 h1
      he.keeps_timerRunning he.grows.running ?_
    have hmax : maxSteps (Globals.walkInput _) = maxSteps o.sys.sh.g.walkInput :=
      maxSteps_congr he.kept.nTestCase h2 (he.keeps_duration hne)
    exact hmax ▸ hm.walked
  | stop =>
    refine ⟨h.fresh, fun k hk htk hv hn => ?_⟩
    have hm := h.measuring k hk htk hv hn
    exact hm.outside rfl rfl rfl (Nat.le_refl _) rfl rfl rfl rfl (fun _ => rfl) hm.walked
  | clock now =>
    refine ⟨h.fresh, fun k hk htk hv hn => ?_⟩
    have hm := h.measuring k hk htk hv hn
    exact hm.outside rfl rfl rfl (UInt64.le_iff_toNat_le.mp hclock) rfl rfl rfl rfl id hm.walked

/-- The measurement as it starts. -/
def Observed.start (rtt download upload : Bool) (old : Globals) : Observed :=
  { sys := measurementStart rtt download upload old }

theorem Observed.next_sys (a : Action) (s : Sys) (o : Observed) : (o.next a s).sys = s := by
  unfold Observed.next
  split
  · split <;> rfl
  · split <;> rfl
  · rfl

theorem Observed.step_sys {o' : Observed} (h : Observed.step env a o = some o') :
    IasClient.step env a o.sys = some o'.sys := by
  simp only [Observed.step, Option.map_eq_some_iff] at h
  obtain ⟨s, hs, rfl⟩ := h
  rw [hs, Observed.next_sys]

/-- What the histories record is what the platform is sent. -/
theorem emission_logged {c : Call} (hp : o.sys.phase.timer.pc = .callback c .toPlatform)
    (hs : CTimer.run env k objects o.sys.sh o.sys.phase.timer = some (sh', t')) :
    sh'.log = o.sys.sh.log ++ [Event.platform k (o.emission c).message] := by
  rw [CTimer.run_toPlatform hp hs]
  rfl

/-- No `createThread` fails, the clock runs forwards, and no thread meets an error. -/
def Undisturbed (o : Observed) (a : Action) : Prop :=
  Created a ∧ Clocked o.sys a ∧ Quiet o.sys.sh.g

theorem Watched.run {rtt download upload : Bool} {old : Globals}
    (hpid : ∀ k, Function.Injective (env.pid k))
    (h : Run (Observed.step env) Undisturbed (Observed.start rtt download upload old) o) :
    Watched env o := by
  have hall (p : Observed)
      (hp : Run (Observed.step env) Undisturbed (Observed.start rtt download upload old) p) :
      Threads env p.sys ∧ Barrier env p.sys ∧ Window p.sys := by
    have hrun : Run (IasClient.step env) (fun _ a => Created a)
        (Observed.start rtt download upload old).sys p.sys :=
      Run.map Observed.sys (fun (q : Observed) b (hb : Undisturbed q b) => hb.1)
        (fun _ _ _ => Observed.step_sys) hp
    exact ⟨Threads.run (fun _ _ h => h) hrun, Barrier.run hpid (fun _ _ h => h) hrun,
      Window.run (fun _ _ h => h) hrun⟩
  refine Run.invariant_of hall ?_ ?_ h
  · rintro p a q ⟨ht, hb, hw⟩ - hp ⟨hc, hclock, hq⟩ hs
    simp only [Observed.step, Option.map_eq_some_iff] at hs
    obtain ⟨s, hs, rfl⟩ := hs
    exact hp.step ht hb hw hc hclock hq hs
  · refine ⟨?_, ?_⟩
    · simp [Observed.start, measurementStart]
    · simp [Observed.start, measurementStart]

/-- With MEASUREMENT_DURATION `n`, the reports of a Download or Upload test have strictly increasing
indices from 1 to `2 * n - 1`, each publishes one entry for each half second up to its index, and
there is one finish, which publishes all of them; upload leaves out the last two seconds. -/
theorem published_series (env : Env) (hpid : ∀ k, Function.Injective (env.pid k))
    (rtt download upload : Bool) (old : Globals) {k : TestCase} {n : Int}
    (hk : k = .download ∨ k = .upload) (hsec : seconds env k = n) (hv : ValidDuration k n)
    (h : Run (Observed.step env) Undisturbed (Observed.start rtt download upload old) o)
    (htk : o.sys.phase.testCase = k) (hn : 1 ≤ o.sys.phase.timer.mInstances) :
    o.reports.Pairwise (fun e f => e.index < f.index) ∧
      (∀ e ∈ o.reports, 1 ≤ e.index ∧ e.index ≤ 2 * n - 1 ∧
        ((e.message.published k).length : Int) =
          if k = .upload then min e.index (2 * (n - 2)) else e.index) ∧
      (∀ e ∈ o.finishes, ((e.message.published k).length : Int) =
        if k = .upload then 2 * (n - 2) else 2 * n) ∧
      o.finishes.length ≤ 1 ∧
      (o.sys.phase.timer.pc = .returned → o.finishes.length = 1) := by
  subst hsec
  have hm := (Watched.run hpid h).measuring k hk htk hv hn
  have hextra : Upload.UPLOAD_ADDITIONAL_MEASUREMENT_DURATION = 2 := rfl
  refine ⟨hm.increasing, ?_, ?_, ?_, ?_⟩
  · intro e he
    obtain ⟨h1, h2, h3⟩ := hm.reports e he
    refine ⟨h1, by omega, ?_⟩
    rw [h3, allSteps, hextra]
    split
    · rfl
    · omega
  · intro e he
    rw [hm.finishes e he, allSteps, hextra]
  · cases hp : o.sys.phase.timer.pc.emitted with
    | false => simp [hm.none hp]
    | true => exact (hm.once hp).le
  · intro hp
    exact hm.once (by simp [hp, TimerPc.emitted])

end Step

instance (g : Globals) : Decidable (Quiet g) :=
  decidable_of_iff (g.running = true ∧ g.hasError = false ∧ g.unreachable = false ∧
    g.forbidden = false ∧ g.tlsParametersMissing = false ∧ g.streamsDropped = false)
    ⟨fun ⟨h1, h2, h3, h4, h5, h6⟩ => ⟨h1, h2, h3, h4, h5, h6⟩,
      fun ⟨h1, h2, h3, h4, h5, h6⟩ => ⟨h1, h2, h3, h4, h5, h6⟩⟩

instance (s : Sys) : DecidablePred (Clocked s)
  | .clock _ => inferInstanceAs (Decidable (_ ≤ _))
  | .timer => inferInstanceAs (Decidable (_ → _))
  | .main _ | .worker .. | .pastTimer .. | .pastWorker .. | .stop => isTrue trivial

instance (o : Observed) : DecidablePred (Undisturbed o) := fun _ =>
  inferInstanceAs (Decidable (_ ∧ _ ∧ _))

/-- The ip test, and the download with a report after half a second and its finish. -/
def oneReport : List Action :=
  List.replicate 8 (Action.main true) ++ List.replicate 8 (Action.worker 0 {}) ++
    [Action.worker 0 { code := 5 }] ++ List.replicate 4 (Action.worker 0 {}) ++
    List.replicate 17 Action.timer ++ [Action.clock 600000] ++ List.replicate 27 Action.timer ++
    List.replicate 16 (Action.main true) ++ List.replicate 9 (Action.worker 0 {}) ++
    [Action.worker 0 { code := 5 }] ++ List.replicate 3 (Action.worker 0 {}) ++
    List.replicate 17 Action.timer ++ [Action.clock 1200000] ++ List.replicate 17 Action.timer ++
    [Action.clock 1700000] ++ List.replicate 30 Action.timer

set_option maxRecDepth 4000 in
theorem published_series_oneReport : ∃ o : Observed, o.sys.phase.testCase = .download ∧
    o.sys.phase.timer.pc = .returned ∧ o.reports.map (·.index) = [1] ∧
    (∀ e ∈ o.reports, (e.message.downloadInfo.length : Int) = e.index) ∧
    o.finishes.length = 1 ∧ ∀ e ∈ o.finishes, (e.message.downloadInfo.length : Int) = 2 := by
  obtain ⟨o, hrun, hk, hn, hpc, hindex⟩ :
      ∃ o, Run (Observed.step oneStreamEnv) Undisturbed
        (Observed.start false true false Globals.default) o ∧
        o.sys.phase.testCase = .download ∧ 1 ≤ o.sys.phase.timer.mInstances ∧
        o.sys.phase.timer.pc = .returned ∧ o.reports.map (·.index) = [1] :=
    ⟨_, run_of_exec oneReport rfl, by decide, by decide, by decide, by decide⟩
  obtain ⟨-, hreports, hfinishes, -, hone⟩ := published_series oneStreamEnv
    (fun _ i j h => Int.ofNat.inj h) false true false Globals.default (.inl rfl) rfl
    ⟨by decide, by decide⟩ hrun hk hn
  exact ⟨o, hk, hpc, hindex, fun e he => (hreports e he).2.2, hone hpc, hfinishes⟩

end IasClient
