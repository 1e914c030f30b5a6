import IasClient.Control.Series
import IasClient.Accounting.Aggregation

namespace IasClient

open Framework

variable {env : Env} {k : TestCase} {o : Outcome} {objects : List Worker} {c : Call} {d m : Nat}
  {g g' : Globals} {w w' : Worker} {sh sh' : Shared} {t t' : Timer} {s s' : Sys} {a : Action}

/-- The positions of a Download or Upload worker that may not have read the clock. -/
def WorkerPc.unread : WorkerPc → Bool
  | .resolve | .setUnreachable | .setHasError | .timestamp | .catchHasError | .catchRunning
  | .returned | .aborted => true
  | _ => false

/-- A worker that has received data has read the clock before. -/
def Worker.Timed (w : Worker) : Prop :=
  w.measurementTimeStart.isSome = true ∨ w.dataReceived = false ∧ w.pc.unread = true

/-- The worker has read the clock, and not after `time`. -/
def Worker.Begun (time : Nat) (w : Worker) : Prop :=
  ∃ begun, w.measurementTimeStart = some begun ∧ begun.toNat ≤ time

/-- The clock of a measurement that began at `m`: no thread has read a later time than `now`. -/
structure Clock (m : Nat) (s : Sys) : Prop where
  start : s.sh.g.timestampMeasurementStart = ((m * 1000 : Nat) : Int)
  began : m ≤ s.sh.g.now.toNat
  bound : s.sh.g.now.toNat * 1000 < 2 ^ 63
  workers : ∀ w ∈ s.phase.workers, ∀ begun, w.measurementTimeStart = some begun →
    begun.toNat ≤ s.sh.g.now.toNat

/-- The readings of the clock in a Download or Upload test, which the barrier orders: the starts of
the streams, the start of the timer, the one behind TIMER_DURATION, the one of a step. -/
structure Timely (d : Nat) (k : TestCase) (m : Nat) (s : Sys) : Prop where
  ticks : Ticks d s.sh.g s.phase.timer
  paced : Paced d s.sh.g s.phase.timer
  walked : Walked k (maxSteps s.sh.g.walkInput) s.sh.cb s.phase.timer
  measured : s.sh.g.timerDuration = 0 ∨ s.sh.g.timerRunning = true
  timed : ∀ w ∈ s.phase.workers, w.Timed
  starts : s.sh.g.timerRunning = true → s.phase.timer.pc ≠ .setTime1 →
    m ≤ s.phase.timer.time1.toNat ∧
      ∀ w ∈ s.phase.workers, w.Begun s.phase.timer.time1.toNat
  read : ∀ c, s.phase.timer.pc = .callback c .visit →
    s.sh.g.timerDuration + s.phase.timer.time1.toNat ≤
        s.phase.timer.walk.sums.currentTimestamp.toNat ∧
      s.phase.timer.walk.sums.currentTimestamp.toNat ≤ s.sh.g.now.toNat

/-- Without a TIMER_DURATION there are no steps. -/
theorem maxSteps_zero {v : WalkInput} (hk : v.testCase = .download ∨ v.testCase = .upload)
    (hd : v.timerDuration = 0) : maxSteps v = 0 := by
  rw [maxSteps_eq hk (by omega) (by omega), hd]
  omega

theorem Timer.Effect.keeps_clock (h : Timer.Effect k t t' sh sh') :
    sh'.g.now = sh.g.now ∧
      sh'.g.timestampMeasurementStart = sh.g.timestampMeasurementStart := by
  cases h
  case performed => cases hk : sh.cb.mTestCase <;> exact ⟨rfl, rfl⟩
  all_goals exact ⟨rfl, rfl⟩

theorem Timer.Effect.duration_of (h : Timer.Effect k t t' sh sh') :
    sh'.g.timerDuration = sh.g.timerDuration ∨ t.pc = .readTime := by
  cases h
  case duration hp _ => exact .inr hp
  case performed => cases hk : sh.cb.mTestCase <;> exact .inl rfl
  all_goals exact .inl rfl

theorem Worker.Effect.keeps_start (h : Worker.Effect k w w' g g') :
    g'.timestampMeasurementStart = g.timestampMeasurementStart := by
  cases h <;> rfl

theorem mainStep_clock {created : Bool} (h : mainStep env created s = some s') :
    s'.sh.g.now = s.sh.g.now ∧
      s'.sh.g.timestampMeasurementStart = s.sh.g.timestampMeasurementStart := by
  cases hm : s.main <;> simp only [mainStep, hm] at h
  case startTestCase k =>
    simp only [Option.some.injEq] at h
    subst h
    simp only
    split <;> exact ⟨rfl, rfl⟩
  all_goals repeat' (split at h)
  all_goals try contradiction
  all_goals
    simp only [Option.some.injEq] at h
    subst h
    exact ⟨rfl, rfl⟩

/-- A worker reads its start before it registers. -/
theorem Worker.run_start (h : Worker.run env k o g w = some (g', w')) :
    w'.measurementTimeStart = w.measurementTimeStart ∨
      w.pc = .timestamp ∧ w'.measurementTimeStart = some g.now := by
  rcases Worker.run_cases h with ⟨-, rfl, rfl⟩ | h | ⟨-, h⟩
  · exact .inl rfl
  · cases hp : w.pc <;> simp only [catchException, hp, Worker.goto] at h
    all_goals try contradiction
    all_goals
      simp only [Option.some.injEq, Prod.mk.injEq] at h
      obtain ⟨rfl, rfl⟩ := h
      exact .inl rfl
  · cases k <;> cases hp : w.pc <;>
      simp only [Worker.tryBlock, Ip.run, Ping.run, Download.run, Upload.run, connect, receiveLoop,
        hp, Worker.goto] at h
    all_goals try contradiction
    all_goals repeat' (split at h)
    all_goals try contradiction
    all_goals
      simp only [Option.some.injEq, Prod.mk.injEq] at h
      obtain ⟨rfl, rfl⟩ := h
      first | exact .inl rfl | exact .inr ⟨rfl, rfl⟩

theorem Worker.Timed.run (hw : w.Timed) (hk : k ≠ .rttUdp)
    (h : Worker.run env k o g w = some (g', w')) :
    w'.Timed := by
  rcases Worker.run_start h with hsame | ⟨-, hread⟩
  · rcases hw with hw | ⟨hdata, hpc⟩
    · exact .inl (hsame ▸ hw)
    · -- a worker that has not read the clock goes on to the reading, or leaves
      rcases Worker.run_cases h with ⟨-, -, rfl⟩ | h | ⟨-, h⟩
      · exact .inr ⟨hdata, rfl⟩
      · cases hp : w.pc <;> simp only [catchException, hp, Worker.goto] at h
        all_goals try contradiction
        all_goals
          obtain ⟨-, rfl⟩ := Prod.mk.inj (Option.some.inj h)
          exact .inr ⟨hdata, rfl⟩
      · cases k <;> cases hp : w.pc <;>
          simp only [Worker.tryBlock, Ip.run, Ping.run, Download.run, Upload.run, connect,
            receiveLoop, hp, Worker.goto, WorkerPc.unread, Bool.false_eq_true] at h hpc
        case rttUdp.resolve => exact absurd rfl hk
        all_goals try contradiction
        all_goals repeat' (split at h)
        all_goals
          obtain ⟨-, rfl⟩ := Prod.mk.inj (Option.some.inj h)
          first
            | exact .inl rfl
            | exact .inr ⟨hdata, rfl⟩
  · exact .inl (hread ▸ rfl)

theorem CTimer.run_time1 (h : CTimer.run env k objects sh t = some (sh', t')) :
    t'.time1 = t.time1 ∨ t.pc = .setTime1 ∧ t'.time1 = sh.g.now := by
  cases hp : t.pc <;> simp only [CTimer.run, hp, Timer.goto] at h
  case callback c p =>
    have hresume := Timer.resume_time1 c t
    cases p <;> simp only [CCallback.callback, Timer.goto] at h
    all_goals repeat' (split at h)
    all_goals
      simp only [Option.some.injEq, Prod.mk.injEq] at h
      obtain ⟨rfl, rfl⟩ := h
      first | exact .inl rfl | exact .inl hresume
  all_goals repeat' (split at h)
  all_goals try contradiction
  all_goals
    simp only [Option.some.injEq, Prod.mk.injEq] at h
    obtain ⟨rfl, rfl⟩ := h
    first | exact .inl rfl | exact .inr ⟨rfl, rfl⟩

/-- A step of the walk reads the clock before it visits the streams. -/
theorem CTimer.run_visit (h : CTimer.run env k objects sh t = some (sh', t'))
    (hv : t'.pc = .callback c .visit) : sh' = sh ∧
      (t.pc = .callback c .visit ∧
          t'.walk.sums.currentTimestamp = t.walk.sums.currentTimestamp ∨
        t.pc = .callback c .stepHead ∧ t'.walk.sums.currentTimestamp = sh.g.now) := by
  cases hp : t.pc <;> simp only [CTimer.run, hp, Timer.goto] at h
  case callback e p =>
    cases p <;> simp only [CCallback.callback, Timer.goto] at h
    case visit =>
      split at h
      · split at h
        all_goals
          simp only [Option.some.injEq, Prod.mk.injEq] at h
          obtain ⟨rfl, rfl⟩ := h
          simp at hv
      · split at h
        · simp only [Option.some.injEq, Prod.mk.injEq] at h
          obtain ⟨rfl, rfl⟩ := h
          simp at hv
        · rename_i hvisit
          simp only [Option.some.injEq, Prod.mk.injEq] at h
          obtain ⟨rfl, rfl⟩ := h
          exact ⟨rfl, .inl ⟨hp ▸ hv, (visitStream_clocked hvisit).2⟩⟩
    case stepHead =>
      split at h
      all_goals
        simp only [Option.some.injEq, Prod.mk.injEq] at h
        obtain ⟨rfl, rfl⟩ := h
      · simp only [TimerPc.callback.injEq, and_true] at hv
        exact ⟨rfl, .inr ⟨hv ▸ rfl, rfl⟩⟩
      · simp at hv
    all_goals repeat' (split at h)
    all_goals
      simp only [Option.some.injEq, Prod.mk.injEq] at h
      obtain ⟨rfl, rfl⟩ := h
      exfalso
      revert hv
      cases e <;> simp [Timer.resume, Timer.call, Call.stored]
  all_goals repeat' (split at h)
  all_goals try contradiction
  all_goals
    simp only [Option.some.injEq, Prod.mk.injEq] at h
    obtain ⟨rfl, rfl⟩ := h
    simp [Timer.call] at hv

/-- The clock stays below `2 ^ 63` nanoseconds. -/
def Bounded : Action → Prop
  | .clock now => now.toNat * 1000 < 2 ^ 63
  | _ => True

/-- No `createThread` fails, the clock runs forwards and stays below `2 ^ 63` nanoseconds, and the
timer reads less than `2 ^ 31` microseconds. -/
def OnTime (s : Sys) (a : Action) : Prop :=
  Created a ∧ Clocked s a ∧ Bounded a

theorem Clock.step (h : Clock m s) (ht : Threads env s) (ha : OnTime s a)
    (hs : IasClient.step env a s = some s') : Clock m s' := by
  obtain ⟨hcreated, hclock, hbound⟩ := ha
  cases step_moved ht.past hs with
  | main hm =>
    obtain ⟨hnow, hstart⟩ := mainStep_clock hm
    refine ⟨hstart.trans h.start, hnow ▸ h.began, hnow ▸ h.bound, ?_⟩
    intro w' hw'
    rw [hnow]
    rcases mainStep_workers hm hw' with ⟨w, hw, rfl | ⟨-, rfl⟩⟩ | ⟨k, -, rfl⟩
    · exact h.workers w' hw
    · exact h.workers w hw
    · rintro begun ⟨⟩
  | timer hstep =>
    obtain ⟨hnow, hstart⟩ := (CTimer.run_effect hstep).keeps_clock
    refine ⟨hstart.trans h.start, hnow ▸ h.began, hnow ▸ h.bound, ?_⟩
    intro w hw
    exact hnow ▸ h.workers w hw
  | @worker j o w w' g hw hstep =>
    have he := Worker.run_effect hstep
    have hnow := he.keeps_now
    refine ⟨he.keeps_start.trans h.start, hnow ▸ h.began, hnow ▸ h.bound, ?_⟩
    intro v hv
    show ∀ begun, v.measurementTimeStart = some begun → begun.toNat ≤ g.now.toNat
    rw [hnow]
    rcases List.mem_or_eq_of_mem_set hv with hv | rfl
    · exact h.workers v hv
    · rcases Worker.run_start hstep with hsame | ⟨-, hread⟩
      · rw [hsame]
        exact h.workers w (List.mem_of_getElem? hw)
      · rw [hread]
        rintro _ ⟨⟩
        exact le_refl _
  | stop => exact ⟨h.start, h.began, h.bound, h.workers⟩
  | clock now =>
    have hle := UInt64.le_iff_toNat_le.mp hclock
    exact ⟨h.start, h.began.trans hle, hbound,
      fun w hw begun hread => (h.workers w hw begun hread).trans hle⟩

/-- A worker that has received data has read the clock. -/
theorem Timely.begun (h : Timely d k m s) (hclock : Clock m s) (hw : w ∈ s.phase.workers)
    (hdata : w.dataReceived = true) : w.Begun s.sh.g.now.toNat := by
  have hsome := (h.timed w hw).resolve_right fun hunread => by simp [hdata] at hunread
  obtain ⟨begun, hbegun⟩ := Option.isSome_iff_exists.mp hsome
  exact ⟨begun, hbegun, hclock.workers w hw begun hbegun⟩

theorem Timely.step_timer (h : Timely d k m s) (hclock : Clock m s) (hk : k = .download ∨ k = .upload)
    (hwf : s.phase.timer.Wf k) (ho : Opened s.sh.g s.phase.timer) (hn : s.sh.g.nTestCase = k)
    (hd : s.sh.g.timerRunning = true → s.sh.g.measurementDuration.toNat = d)
    (hdata : s.sh.g.timerRunning = true → ∀ w ∈ s.phase.workers, w.dataReceived = true)
    (hread : s.phase.timer.pc = .readTime →
      (s.sh.g.now - s.phase.timer.time1).toNat < 2 ^ 31)
    (hs : CTimer.run env k s.phase.objects s.sh s.phase.timer = some (sh', t')) :
    Timely d k m { s with sh := sh', phase := { s.phase with timer := t' } } := by
  have he := CTimer.run_effect hs
  obtain ⟨hnow, hstart⟩ := he.keeps_clock
  obtain ⟨hticks, hpaced⟩ := h.ticks.step_timer h.paced hk hwf ho
    (fun hp => hd (by have hpace := h.paced; simp only [Paced, hp] at hpace; exact hpace.1)) hread hs
  refine ⟨hticks, hpaced, h.walked.step_timer hk hwf hn hs, ?_, h.timed, ?_, ?_⟩
  · show sh'.g.timerDuration = 0 ∨ sh'.g.timerRunning = true
    rcases he.duration_of with hsame | hp
    · rw [hsame]
      exact h.measured.imp_right he.keeps_running
    · have hpace := h.paced
      simp only [Paced, hp] at hpace
      exact .inr (he.keeps_running hpace)
  · intro hr hne
    show m ≤ t'.time1.toNat ∧ ∀ w ∈ s.phase.workers, w.Begun t'.time1.toNat
    by_cases hp : s.phase.timer.pc = .setTime1
    · simp only [CTimer.run, hp, Option.some.injEq, Prod.mk.injEq] at hs
      obtain ⟨rfl, rfl⟩ := hs
      exact ⟨hclock.began, fun w hw => h.begun hclock hw (hdata hr w hw)⟩
    · rcases CTimer.run_time1 hs with hsame | ⟨hset, -⟩
      · rw [hsame]
        rcases he.timerRunning_of hr with hr | hp'
        · exact h.starts hr hp
        · simp only [CTimer.run, hp', Timer.goto, Option.some.injEq, Prod.mk.injEq] at hs
          obtain ⟨rfl, rfl⟩ := hs
          exact absurd rfl hne
      · exact absurd hset hp
  · intro c hp
    obtain ⟨hsh, hvisit⟩ := CTimer.run_visit hs hp
    show sh'.g.timerDuration + t'.time1.toNat ≤ t'.walk.sums.currentTimestamp.toNat ∧
      t'.walk.sums.currentTimestamp.toNat ≤ sh'.g.now.toNat
    have htime : t'.time1 = s.phase.timer.time1 := by
      rcases CTimer.run_time1 hs with hsame | ⟨hset, -⟩
      · exact hsame
      · rcases hvisit with ⟨hv, -⟩ | ⟨hv, -⟩ <;> simp [hv] at hset
    rw [htime, hsh]
    rcases hvisit with ⟨hv, hsame⟩ | ⟨-, hnowRead⟩
    · rw [hsame]
      exact h.read c hv
    · rw [hnowRead]
      have hel := h.ticks.elapsed
      have ht1 := h.ticks.time1
      omega

/-- A step of another thread. -/
theorem Timely.outside (h : Timely d k m s) (ht : s'.phase.timer = s.phase.timer)
    (hn : s.sh.g.now.toNat ≤ s'.sh.g.now.toNat)
    (hd : s'.sh.g.timerDuration = s.sh.g.timerDuration)
    (hi : s'.sh.g.timerIndex = s.sh.g.timerIndex)
    (hs : s'.sh.g.timerStopped = s.sh.g.timerStopped)
    (hr : s'.sh.g.timerRunning = s.sh.g.timerRunning)
    (hg : s.sh.g.running = false → s'.sh.g.running = false)
    (hmax : maxSteps s'.sh.g.walkInput = maxSteps s.sh.g.walkInput)
    (hcb : s'.sh.cb.published k = s.sh.cb.published k)
    (htimed : ∀ w' ∈ s'.phase.workers, w'.Timed)
    (hw : s.sh.g.timerRunning = true → ∀ w' ∈ s'.phase.workers, ∃ w ∈ s.phase.workers,
      w'.measurementTimeStart = w.measurementTimeStart) : Timely d k m s' where
  ticks := by rw [ht]; exact h.ticks.outside hn hd hi
  paced := by rw [ht]; exact h.paced.outside hd hi hs hr hg
  walked := by rw [ht, hmax]; exact h.walked.congr hcb
  measured := by rw [hd, hr]; exact h.measured
  timed := htimed
  starts hrun hp := by
    rw [hr] at hrun
    rw [ht] at hp ⊢
    obtain ⟨hm, hstarts⟩ := h.starts hrun hp
    refine ⟨hm, fun w' hw' => ?_⟩
    obtain ⟨w, hmem, hsame⟩ := hw hrun w' hw'
    obtain ⟨begun, hbegun, hle⟩ := hstarts w hmem
    exact ⟨begun, hsame.trans hbegun, hle⟩
  read c hp := by
    rw [ht] at hp ⊢
    rw [hd]
    obtain ⟨hlow, hhigh⟩ := h.read c hp
    exact ⟨hlow, hhigh.trans hn⟩

/-- `Timely` in the current test case, if that is a Download or Upload test with a stream. -/
structure Timekeeping (env : Env) (m : Nat) (s : Sys) : Prop where
  clock : Clock m s
  timely : ∀ k, k = .download ∨ k = .upload → s.phase.testCase = k →
    1 ≤ s.phase.timer.mInstances → Timely (duration env k).toNat k m s

theorem timely_construct {n i : Int} (hg : s.sh.g = { constructTimer g with instances := n })
    (ht : s.phase.timer = { pc := .outerRunning, mInstances := i })
    (hw : s.phase.workers = []) : Timely d k m s := by
  refine ⟨?_, ?_, ?_, ?_, ?_, ?_, ?_⟩
  · constructor <;> simp [hg, ht, constructTimer]
  · simp [Paced, hg, ht, constructTimer]
  · simp [Walked, ht]
  · simp [hg, constructTimer]
  · simp [hw]
  · simp [hg, constructTimer]
  · simp [ht]

theorem Timekeeping.step_main (h : Timekeeping env m s) (hclock : Clock m s')
    (ht : Threads env s) (hb : Barrier env s) (hs : mainStep env true s = some s') :
    Timekeeping env m s' := by
  refine ⟨hclock, fun k hk htk hn => ?_⟩
  by_cases hst : ∃ k, s.main = .startTestCase k
  · obtain ⟨k, hm⟩ := hst
    simp only [mainStep, hm, Option.some.injEq] at hs
    subst hs
    simp at hn
  by_cases hc : ∃ k, s.main = .construct k
  · obtain ⟨k, hm⟩ := hc
    simp only [mainStep, hm, Option.some.injEq] at hs
    subst hs
    have hj := ht.joined
    simp only [Joined, hm] at hj
    exact timely_construct rfl rfl hj.2.1
  rw [not_exists] at hst hc
  obtain ⟨hg, hkept, htimer, htc⟩ := mainStep_grows hs hc hst
  obtain ⟨-, hnow, hcb, hntc, hd⟩ := mainStep_leaves hs hc hst
  rw [htc] at htk
  rw [htimer] at hn
  have hm := h.timely k hk htk hn
  have hcreated (hr : s.sh.g.timerRunning = true) := (hb.passed (.inr hr)).created
  refine hm.outside htimer (by rw [hnow]) hkept.timerDuration hkept.timerIndex hkept.timerStopped
    hkept.timerRunning hg.running ?_ (hcb k) ?_ ?_
  · rcases hd with ⟨l, hl⟩ | hd
    · -- without a worker TIMER_RUNNING is false, so that there is no step whatever the duration
      have hj := ht.joined
      simp only [Joined, hl] at hj
      have hzero : s.sh.g.timerDuration = 0 := by
        refine hm.measured.resolve_right fun hr => ?_
        have hlen := hcreated hr
        rw [hj.1, List.length_nil] at hlen
        omega
      have hin := ht.testCase l (by simp [hl, MainPc.inside])
      have hcase : s.sh.g.nTestCase = k := hin.2.1.trans (hin.1.symm.trans htk)
      have hcase' : s'.sh.g.nTestCase = k := hntc.trans hcase
      have hsteps : maxSteps s.sh.g.walkInput = 0 :=
        maxSteps_zero (hk.imp hcase.trans hcase.trans) hzero
      have hsteps' : maxSteps s'.sh.g.walkInput = 0 :=
        maxSteps_zero (hk.imp hcase'.trans hcase'.trans) (hkept.timerDuration.trans hzero)
      rw [hsteps, hsteps']
    · exact maxSteps_congr hntc hkept.timerDuration hd
  · intro w' hw'
    rcases mainStep_workers hs hw' with ⟨w, hw, rfl | ⟨-, rfl⟩⟩ | ⟨l, -, rfl⟩
    · exact hm.timed w' hw
    · exact hm.timed w hw
    · exact .inr ⟨rfl, by cases l <;> rfl⟩
  · intro hr w' hw'
    rcases mainStep_workers hs hw' with ⟨w, hw, rfl | ⟨-, rfl⟩⟩ | ⟨l, hl, rfl⟩
    · exact ⟨w', hw, rfl⟩
    · exact ⟨w, hw, rfl⟩
    · -- all streams exist
      have hlen := hcreated hr
      obtain ⟨hinst, htinst⟩ := ht.instances l (by simp [hl, MainPc.inside]) (by simp [hl])
      have hfull : ¬ (s.phase.workers.length : Int) < s.sh.g.instances := by omega
      simp only [mainStep, hl, if_neg hfull, Option.some.injEq] at hs
      subst hs
      exact ⟨_, hw', rfl⟩

theorem Timekeeping.step (h : Timekeeping env m s) (ht : Threads env s) (hb : Barrier env s)
    (ho : Window s) (ha : OnTime s a) (hs : IasClient.step env a s = some s') :
    Timekeeping env m s' := by
  have hclock := h.clock.step ht ha hs
  obtain ⟨hcreated, hclocked, -⟩ := ha
  cases step_moved ht.past hs with
  | main hm =>
    subst hcreated
    exact h.step_main hclock ht hb hm
  | timer hstep =>
    refine ⟨hclock, fun k hk htk hn => ?_⟩
    obtain ⟨l, hl, -⟩ := ht.timer_inside (CTimer.run_moves hstep)
    obtain ⟨h1, h2, -⟩ := ht.testCase l hl
    have hn : 1 ≤ s.phase.timer.mInstances := CTimer.run_mInstances hstep ▸ hn
    have htk : s.phase.testCase = k := htk
    subst htk
    exact (h.timely _ hk rfl hn).step_timer h.clock hk ht.timer (ho hk) (h2.trans h1.symm)
      (fun hr => by rw [(hb.started hn hr).duration]) (fun hr => (hb.started hn hr).received)
      hclocked hstep
  | @worker j o w w' g hw hstep =>
    have he := Worker.run_effect hstep
    refine ⟨hclock, fun k hk htk hn => ?_⟩
    have hm := h.timely k hk htk hn
    have hne : s.phase.testCase ≠ .rttUdp := by
      intro hr
      rcases hk with rfl | rfl <;> exact absurd (hr.symm.trans htk) (by simp)
    obtain ⟨hstopped, hduration, hindex⟩ := he.keeps_window hne
    refine hm.outside rfl (Nat.le_of_eq (congrArg UInt64.toNat he.keeps_now.symm)) hduration hindex
      hstopped he.keeps_timerRunning he.grows.running
      (maxSteps_congr he.kept.nTestCase hduration (he.keeps_duration hne)) rfl ?_ ?_
    · intro v hv
      rcases List.mem_or_eq_of_mem_set hv with hv | rfl
      · exact hm.timed v hv
      · exact (hm.timed w (List.mem_of_getElem? hw)).run hne hstep
    intro hr v hv
    rcases List.mem_or_eq_of_mem_set hv with hv | rfl
    · exact ⟨v, hv, rfl⟩
    · have hmem := List.mem_of_getElem? hw
      refine ⟨w, hmem, ?_⟩
      rcases Worker.run_start hstep with hsame | ⟨hp, -⟩
      · exact hsame
      · have hbefore := ((hb.started hn hr).entered w hmem).2
        simp [hp, WorkerPc.beforeLoop] at hbefore
  | stop =>
    refine ⟨hclock, fun k hk htk hn => ?_⟩
    exact (h.timely k hk htk hn).outside rfl (Nat.le_refl _) rfl rfl rfl rfl (fun _ => rfl) rfl rfl
      (h.timely k hk htk hn).timed fun _ w hw => ⟨w, hw, rfl⟩
  | clock now =>
    refine ⟨hclock, fun k hk htk hn => ?_⟩
    exact (h.timely k hk htk hn).outside rfl (UInt64.le_iff_toNat_le.mp hclocked) rfl rfl rfl rfl id
      rfl rfl (h.timely k hk htk hn).timed fun _ w hw => ⟨w, hw, rfl⟩

theorem Timekeeping.run (hpid : ∀ k, Function.Injective (env.pid k)) {rtt download upload : Bool}
    {old : Globals} (hnow : old.now.toNat * 1000 < 2 ^ 63)
    (h : Run (IasClient.step env) OnTime (measurementStart rtt download upload old) s) :
    Timekeeping env old.now.toNat s := by
  have hall (t : Sys)
      (ht : Run (IasClient.step env) OnTime (measurementStart rtt download upload old) t) :
      Threads env t ∧ Barrier env t ∧ Window t :=
    ⟨Threads.run (fun _ _ h => h.1) ht, Barrier.run hpid (fun _ _ h => h.1) ht,
      Window.run (fun _ _ h => h.1) ht⟩
  refine Run.invariant_of hall ?_ ?_ h
  · rintro t a u ⟨ht, hb, ho⟩ - hi ha hs
    exact hi.step ht hb ho ha hs
  · refine ⟨⟨?_, ?_, hnow, ?_⟩, ?_⟩
    all_goals simp [measurementStart]

/-- The relative times of a stream in a step are the exact ones, and `long long`s. -/
structure ExactTimes (v : WalkInput) (steps step : Int) (now : UInt64) (st : Stream) : Prop where
  total : ((perStream v steps now step 0 st).relativeTimeNsTotal.toNat : Int) =
    ((now.toNat : Int) - st.measurementTimeStart.toNat) * 1000 - (steps - step) * 500000000
  sinceStart : ((perStream v steps now step 0 st).relativeTimeNsMeasurementStart.toNat : Int) =
    (now.toNat : Int) * 1000 - v.timestampMeasurementStart - (steps - step) * 500000000
  clocked : st.ClockedAt v steps now step

/-- The readings of the clock lie apart by more than the steps that are left. -/
theorem exactTimes_of {v : WalkInput} {steps step : Int} {now : UInt64} {st : Stream} {begun : Nat}
    (hstart : v.timestampMeasurementStart = ((m * 1000 : Nat) : Int)) (hm : m ≤ begun)
    (hst : st.measurementTimeStart.toNat ≤ begun) (hleft : 0 ≤ steps - step)
    (hlag : (steps - step) * 500000 + begun ≤ now.toNat) (hbound : now.toNat * 1000 < 2 ^ 63) :
    ExactTimes v steps step now st := by
  obtain ⟨lag, hlagdef⟩ : ∃ lag, lag = UInt64.ofInt ((steps - step) * 500000000) := ⟨_, rfl⟩
  have hlagInt : (lag.toNat : Int) = (steps - step) * 500000000 := by
    rw [hlagdef, ofInt_toNat (by omega) (by omega)]
  have hsince : (now - st.measurementTimeStart).toNat =
      now.toNat - st.measurementTimeStart.toNat := by
    rw [UInt64.toNat_sub_of_le]
    rw [UInt64.le_iff_toNat_le]
    omega
  have hnowLt : now.toNat * 1000 < 2 ^ 64 := hbound.trans (by decide)
  have hsinceLt : (now - st.measurementTimeStart).toNat * 1000 < 2 ^ 64 := by
    rw [hsince]
    exact (Nat.mul_le_mul_right 1000 (Nat.sub_le ..)).trans_lt hnowLt
  have hsinceNs : ((now - st.measurementTimeStart) * 1000).toNat =
      (now.toNat - st.measurementTimeStart.toNat) * 1000 := by
    rw [toNat_ns hsinceLt, hsince]
  have htotal : ((now - st.measurementTimeStart) * 1000 - lag).toNat =
      (now.toNat - st.measurementTimeStart.toNat) * 1000 - lag.toNat := by
    rw [UInt64.toNat_sub_of_le, hsinceNs]
    rw [UInt64.le_iff_toNat_le, hsinceNs]
    omega
  have hnowNs : (now * 1000).toNat = now.toNat * 1000 := toNat_ns hnowLt
  have hbegan : (UInt64.ofInt v.timestampMeasurementStart).toNat = m * 1000 := by
    have hcast := ofInt_toNat (x := v.timestampMeasurementStart) (by omega) (by omega)
    omega
  have hfrom : (now * 1000 - UInt64.ofInt v.timestampMeasurementStart).toNat =
      now.toNat * 1000 - m * 1000 := by
    rw [UInt64.toNat_sub_of_le, hnowNs, hbegan]
    rw [UInt64.le_iff_toNat_le, hnowNs, hbegan]
    omega
  have hsinceStart :
      (now * 1000 - UInt64.ofInt v.timestampMeasurementStart - lag).toNat =
        now.toNat * 1000 - m * 1000 - lag.toNat := by
    rw [UInt64.toNat_sub_of_le, hfrom]
    rw [UInt64.le_iff_toNat_le, hfrom]
    omega
  have h1 : (perStream v steps now step 0 st).relativeTimeNsTotal =
      (now - st.measurementTimeStart) * 1000 - lag := by
    rw [hlagdef]
    rfl
  have h2 : (perStream v steps now step 0 st).relativeTimeNsMeasurementStart =
      now * 1000 - UInt64.ofInt v.timestampMeasurementStart - lag := by
    rw [hlagdef]
    rfl
  refine ⟨?_, ?_, ?_, ?_⟩
  · rw [h1, htotal]
    omega
  · rw [h2, hsinceStart]
    omega
  · rw [h1, htotal]
    omega
  · rw [h2, hsinceStart]
    omega

/-- Whenever a report or finish visits a stream, the stream has read the clock, the relative times
that the visit publishes are exact, and the visit is not cut short by the conversions that read
them back. -/
theorem relative_times_exact (env : Env) (hpid : ∀ k, Function.Injective (env.pid k))
    (rtt download upload : Bool) {old : Globals} (hnow : old.now.toNat * 1000 < 2 ^ 63)
    (h : Run (IasClient.step env) OnTime (measurementStart rtt download upload old) s)
    (hk : s.phase.testCase = .download ∨ s.phase.testCase = .upload)
    (hn : 1 ≤ s.phase.timer.mInstances) (hp : s.phase.timer.pc = .callback c .visit)
    (hw : s.phase.objects[s.phase.timer.walk.streamId]? = some w) :
    let walk := s.phase.timer.walk
    let st := w.stream s.sh.g.nTestCase
    let p := perStream s.sh.g.walkInput walk.maxSteps walk.sums.currentTimestamp walk.currentStep
      walk.streamId st
    let visit := visitStream s.sh.g.walkInput walk.currentStep walk.maxSteps walk.streamId st
      walk.sums
    (1 ≤ walk.currentStep ∧ walk.currentStep ≤ walk.maxSteps) ∧
      w.measurementTimeStart = some st.measurementTimeStart ∧
      ExactTimes s.sh.g.walkInput walk.maxSteps walk.currentStep walk.sums.currentTimestamp st ∧
      stoll p.relativeTimeNsTotal = some p.relativeTimeNsTotal ∧
      stoll p.relativeTimeNsMeasurementStart = some p.relativeTimeNsMeasurementStart ∧
      (∀ sums q, visit = some (sums, q) → q = p) ∧
      (visit = none → stoll p.bytes = none ∨ stoll p.bytesDistinct = none ∨
        stoll p.bytesSlowStart = none ∨ stoll p.bytesTotal = none) := by
  have ht : Threads env s := Threads.run (fun _ _ h => h.1) h
  have hkeeping := Timekeeping.run hpid hnow h
  have hm := hkeeping.timely _ hk rfl hn
  obtain ⟨l, hl, -⟩ := ht.timer_inside (by simp [hp])
  obtain ⟨h1, h2, -⟩ := ht.testCase l hl
  have hcase : s.sh.g.walkInput.testCase = .download ∨ s.sh.g.walkInput.testCase = .upload := by
    show s.sh.g.nTestCase = .download ∨ s.sh.g.nTestCase = .upload
    rwa [h2, ← h1]
  have hreporting : c = .report ∨ c = .finish := by
    have hwithin := (ht.timer.called c _ hp).2
    simp only [CallbackPc.within, Bool.and_eq_true, Bool.or_eq_true, beq_iff_eq] at hwithin
    exact hwithin.1
  have hwalked := hm.walked
  simp only [Walked, hp] at hwalked
  obtain ⟨hmax, hlen, hle⟩ := hwalked hreporting
  have hduration := hm.ticks.duration
  have hsteps := maxSteps_eq hcase hduration.1 hduration.2
  have hhalves : s.phase.timer.walk.maxSteps ≤ s.sh.g.timerDuration / 500000 := by
    rw [hmax, hsteps]
    exact min_le_left _ _
  have hrange : 1 ≤ s.phase.timer.walk.currentStep ∧
      s.phase.timer.walk.currentStep ≤ s.phase.timer.walk.maxSteps := by
    rw [hmax]
    constructor <;> omega
  have hrunning : s.sh.g.timerRunning = true := hm.measured.resolve_left (by omega)
  obtain ⟨hbegan, hstarts⟩ := hm.starts hrunning (by simp [hp])
  obtain ⟨hread, hpast⟩ := hm.read c hp
  have hmem : w ∈ s.phase.workers := by
    have hobject := List.mem_of_getElem? hw
    unfold Phase.objects at hobject
    split at hobject
    · exact hobject
    · simp at hobject
  have hbound : s.phase.timer.walk.sums.currentTimestamp.toNat * 1000 < 2 ^ 63 :=
    lt_of_le_of_lt (Nat.mul_le_mul_right 1000 hpast) hkeeping.clock.bound
  obtain ⟨begun, hbegun, hbefore⟩ := hstarts w hmem
  have hst : w.measurementTimeStart =
      some (w.stream s.sh.g.nTestCase).measurementTimeStart := by
    simp only [Worker.stream, hbegun, Option.getD_some]
  have hstart : (w.stream s.sh.g.nTestCase).measurementTimeStart.toNat ≤
      s.phase.timer.time1.toNat := by
    rwa [← Option.some.inj (hbegun.symm.trans hst)]
  have hexact : ExactTimes s.sh.g.walkInput s.phase.timer.walk.maxSteps
      s.phase.timer.walk.currentStep s.phase.timer.walk.sums.currentTimestamp
      (w.stream s.sh.g.nTestCase) :=
    exactTimes_of hkeeping.clock.start hbegan hstart (by omega) (by omega) hbound
  intro walk st p visit
  refine ⟨hrange, hst, hexact, if_pos hexact.clocked.1, if_pos hexact.clocked.2, ?_, ?_⟩
  · exact fun sums q hvisit => visitStream_perStream hrange.1 hrange.2 hvisit
  · intro hvisit
    by_contra hstolls
    simp only [stoll, not_or, ite_eq_right_iff, reduceCtorEq, imp_false, not_not] at hstolls
    obtain ⟨f1, f2, f3, f4⟩ := hstolls
    exact not_fits_of_visitStream hrange.1 hrange.2 hvisit
      ⟨f1, f2, f3, f4, hexact.clocked.1, hexact.clocked.2⟩

instance : DecidablePred Bounded
  | .clock _ => inferInstanceAs (Decidable (_ < _))
  | .main _ | .timer | .worker .. | .pastTimer .. | .pastWorker .. | .stop => isTrue trivial

instance (s : Sys) : DecidablePred (OnTime s) := fun _ => inferInstanceAs (Decidable (_ ∧ _ ∧ _))

set_option maxRecDepth 4000 in
/-- The first step of the finish, half a second before the last, 1.7 s after the start. -/
theorem relative_times_exact_oneReport : ∃ (s : Sys) (w : Worker),
    s.phase.timer.pc = .callback .finish .visit ∧ s.phase.objects[0]? = some w ∧
      s.phase.timer.walk.maxSteps = 2 ∧ s.phase.timer.walk.currentStep = 1 ∧
      ExactTimes s.sh.g.walkInput 2 1 1700000 (w.stream .download) := by
  obtain ⟨s, hrun, hk, hn, hp, hid, w, hw, hmax, hstep, hcase, hread⟩ : ∃ s,
      Run (step oneStreamEnv) OnTime (measurementStart false true false Globals.default) s ∧
        s.phase.testCase = .download ∧ 1 ≤ s.phase.timer.mInstances ∧
        s.phase.timer.pc = .callback .finish .visit ∧ s.phase.timer.walk.streamId = 0 ∧
        ∃ w, s.phase.objects[0]? = some w ∧ s.phase.timer.walk.maxSteps = 2 ∧
          s.phase.timer.walk.currentStep = 1 ∧ s.sh.g.nTestCase = .download ∧
          s.phase.timer.walk.sums.currentTimestamp = 1700000 :=
    ⟨_, run_of_exec (oneReport.take 147) rfl, by decide, by decide, by decide, by decide, _, by rfl,
      by decide, by decide, by decide, by decide⟩
  have h := relative_times_exact oneStreamEnv (fun _ i j h => Int.ofNat.inj h) false true false
    (by decide) hrun (.inl hk) hn hp (by rw [hid]; exact hw)
  have hexact := h.2.2.1
  rw [hmax, hstep, hcase, hread] at hexact
  exact ⟨s, w, hp, hw, hmax, hstep, hexact⟩

end IasClient
