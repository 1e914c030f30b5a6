import IasClient.Control.Order

namespace IasClient

open Framework

/-- `startMeasurement` has left its wait loop. -/
def MainPc.left : MainPc → Bool
  | .destroy .. | .joinTimer _ => true
  | _ => false

/-- The positions of the timer once the PERFORMED flag of its test case is true. -/
def TimerPc.performed : TimerPc → Bool
  | .callback .finish .toPlatform | .callback .finish .ifCompleted
  | .callback .finish .completed => true
  | .clearActive | .returned => true
  | _ => false

/-- What the timer is about to read through a pointer in CCallback is a worker of the current test
case that has not been destroyed. -/
def ReadsAlive (s : Sys) : Prop :=
  match s.phase.timer.pc with
  | .callback _ .ipTimes | .callback _ .ipResults | .callback _ .rttResults
  | .callback _ (.rttCounters _) => ∃ w, s.phase.objects[0]? = some w ∧ w.destroyed = false
  | .callback _ .visit =>
    ∀ w, s.phase.objects[s.phase.timer.walk.streamId]? = some w → w.destroyed = false
  | _ => True

/-- The main thread is about to leave the wait loop without the PERFORMED flag. -/
def Sys.leavesEarly (s : Sys) : Bool :=
  match s.main with
  | .waitError _ => s.sh.g.hasError
  | .waitRunning _ => !s.sh.g.running
  | _ => false

/-- `startMeasurement` leaves its wait loop on `hasError` or `!RUNNING` only while no report or
finish reads the workers, and a report or finish begins only before the loop is left, in the ip and
RTT tests once the pointer to the worker is stored. -/
def Sheltered (s : Sys) : Action → Prop
  | .main _ => s.leavesEarly = true → s.phase.timer.pc.reading = false
  | .timer => s.phase.timer.pc = .callback .report .enter ∨
      s.phase.timer.pc = .callback .finish .enter →
    s.main.left = false ∧
      (s.phase.testCase = .ip ∨ s.phase.testCase = .rttUdp → s.phase.stored = true)
  | _ => True

instance (s : Sys) : DecidablePred (Sheltered s)
  | .main _ => inferInstanceAs (Decidable (_ → _))
  | .timer => inferInstanceAs (Decidable (_ → _ ∧ (_ → _)))
  | .worker .. | .pastTimer .. | .pastWorker .. | .stop | .clock _ => isTrue trivial

/-- The invariant behind the lifetime of the workers. -/
structure Lifetimes (s : Sys) : Prop where
  destroyed : ∀ w ∈ s.phase.workers, w.destroyed = true →
    s.main.left = true ∨ s.main.inside = none
  reading : s.phase.timer.pc.reading = true → s.main.left = false ∧
    (s.phase.testCase = .ip ∨ s.phase.testCase = .rttUdp → s.phase.stored = true)
  performed : ∀ k, s.main.inside = some k → s.sh.g.performed k = true →
    s.phase.timer.pc.performed = true
  fresh : ∀ k, s.main = .construct k → s.sh.g.performed k = false

variable {env : Env} {s s' : Sys} {a : Action}

theorem CTimer.run_performed {k : TestCase} {objects : List Worker} {sh sh' : Shared}
    {t t' : Timer} (hp : t.pc.performed = true)
    (h : CTimer.run env k objects sh t = some (sh', t')) : t'.pc.performed = true := by
  cases hpc : t.pc with
  | clearActive => rw [CTimer.run_clearActive hpc h]; rfl
  | callback c p =>
    cases c <;> cases p <;> simp [hpc, TimerPc.performed] at hp
    all_goals
      simp only [CTimer.run, hpc, CCallback.callback, Timer.goto, Timer.resume, if_true] at h
      repeat' (split at h)
      all_goals
        simp only [Option.some.injEq, Prod.mk.injEq] at h
        obtain ⟨rfl, rfl⟩ := h
        rfl
  | _ => simp_all [TimerPc.performed, CTimer.run]

theorem TimerPc.reading_of_performed {p : TimerPc} (h : p.performed = true) :
    p.reading = false := by
  cases p with
  | callback c p =>
    cases c <;> cases p <;> simp_all [TimerPc.performed, TimerPc.reading, CallbackPc.reading]
  | _ => rfl

theorem Lifetimes.step_timer (hl : Lifetimes s) (ht : Threads env s) (hsh : Sheltered s .timer)
    {sh : Shared} {t : Timer}
    (h : CTimer.run env s.phase.testCase s.phase.objects s.sh s.phase.timer = some (sh, t)) :
    Lifetimes { s with sh := sh, phase := { s.phase with timer := t } } := by
  have he := CTimer.run_effect h
  refine ⟨hl.destroyed, ?_, ?_, ?_⟩
  · intro hr
    rcases (CTimer.run_arrives h).reading hr with hr | ⟨c, hc, rfl | rfl⟩
    · exact hl.reading hr
    · exact hsh (.inl hc)
    · exact hsh (.inr hc)
  · intro k hk hp
    rcases he.newly_performed hp with hp | ⟨-, c, hc, hc'⟩
    · exact CTimer.run_performed (hl.performed k hk hp) h
    · have hfin : c = .finish := by
        simpa [CallbackPc.within] using (ht.timer.called c _ hc).2
      simp [hc', hfin, TimerPc.performed]
  · intro l hm
    obtain ⟨j, hj, hjc⟩ := ht.timer_inside (CTimer.run_moves h)
    simp only at hm
    have hlj : l = j := by simpa [hm, MainPc.inside] using hj
    exact absurd (hlj ▸ hm) hjc

theorem Lifetimes.step_worker (hl : Lifetimes s) {j : Nat} {o : Outcome} {w w' : Worker}
    {g : Globals} (hw : s.phase.workers[j]? = some w)
    (h : Worker.run env s.phase.testCase o s.sh.g w = some (g, w')) :
    Lifetimes { s with
      sh := { s.sh with g := g }
      phase := { s.phase with workers := s.phase.workers.set j w' } } := by
  have hperf := (Worker.run_effect h).keeps_performed
  refine ⟨?_, hl.reading, ?_, fun k hk => by rw [hperf]; exact hl.fresh k hk⟩
  · intro v hv hd
    rcases List.mem_or_eq_of_mem_set hv with hv | rfl
    · exact hl.destroyed v hv hd
    · rw [(Worker.run_kept h).destroyed] at hd
      exact hl.destroyed w (List.mem_of_getElem? hw) hd
  · intro k hk hp
    rw [hperf] at hp
    exact hl.performed k hk hp

theorem Lifetimes.step_startTestCase (hx : InOrder s) {k : TestCase} (hm : s.main = .startTestCase k)
    (h : mainStep env true s = some s') : Lifetimes s' := by
  have hperf := mainStep_performed h
  have hno : s.sh.g.performed k = false := by
    by_contra hp
    have := (hx.performed k (by simpa using hp)).1
    simp [hm, MainPc.bound] at this
  simp only [mainStep, hm, Option.some.injEq] at h
  subst h
  have hfresh (l : TestCase) (hl : k = l) : s.sh.g.performed l = false := hl ▸ hno
  refine ⟨by simp, by simp [TimerPc.reading], ?_, ?_⟩
  · intro l hl hp
    have hl : k = l := by simpa [MainPc.inside] using hl
    rw [hperf, hfresh l hl] at hp
    contradiction
  · intro l hl
    have hl : k = l := by simpa using hl
    rw [hperf, hfresh l hl]

theorem Lifetimes.step_construct (hl : Lifetimes s) (ht : Threads env s) {k : TestCase}
    (hm : s.main = .construct k) (h : mainStep env true s = some s') : Lifetimes s' := by
  have hj := ht.joined
  simp only [Joined, hm] at hj
  have hperf := mainStep_performed h
  have hfresh := hl.fresh k hm
  simp only [mainStep, hm, Option.some.injEq] at h
  subst h
  refine ⟨by simp [hj.2.1], by simp [TimerPc.reading], ?_, by simp⟩
  intro l hl hp
  have hl : k = l := by simpa [MainPc.inside] using hl
  rw [hperf, ← hl, hfresh] at hp
  contradiction

/-- Leaving the wait loop on the PERFORMED flag, or on another condition that `Sheltered` admits. -/
theorem Lifetimes.left_of_main (hl : Lifetimes s) (hsh : Sheltered s (.main true))
    (h : mainStep env true s = some s') (hleft : s'.main.left = true) :
    s.phase.timer.pc.reading = false := by
  by_contra hr
  have hnot := (hl.reading (by simpa using hr)).1
  cases hm : s.main <;> simp only [mainStep, hm] at h
  case waitPerformed k =>
    simp only [Option.some.injEq] at h
    subst h
    by_cases hp : s.sh.g.performed k = true
    · have := TimerPc.reading_of_performed (hl.performed k (by simp [hm, MainPc.inside]) hp)
      exact hr this
    · simp [hp, MainPc.left] at hleft
  case waitError k =>
    simp only [Option.some.injEq] at h
    subst h
    by_cases he : s.sh.g.hasError = true
    · exact hr (hsh (by simp [Sys.leavesEarly, hm, he]))
    · simp [he, MainPc.left] at hleft
  case waitRunning k =>
    simp only [Option.some.injEq] at h
    subst h
    by_cases he : s.sh.g.running = true
    · simp [he, MainPc.left] at hleft
    · exact hr (hsh (by simp [Sys.leavesEarly, hm, he]))
  case destroy k i => simp [hm, MainPc.left] at hnot
  case joinTimer k => simp [hm, MainPc.left] at hnot
  all_goals repeat' (split at h)
  all_goals try contradiction
  all_goals
    simp only [Option.some.injEq] at h
    subst h
    first | contradiction | (rename_i k _; cases k <;> contradiction)

/-- Inside a test case the main thread only moves towards the end of the test case. -/
theorem mainStep_inside {created : Bool} (h : mainStep env created s = some s')
    (hc : ∀ k, s.main ≠ .construct k) (hs : ∀ k, s.main ≠ .startTestCase k) :
    (∀ k, s'.main.inside = some k → s.main.inside = some k) ∧ (∀ k, s'.main ≠ .construct k) ∧
      (s.main.left = true → s'.main.left = true ∨ s'.main.inside = none) ∧
      (s.phase.stored = true → s'.phase.stored = true) := by
  cases hm : s.main <;> simp only [mainStep, hm] at h
  case construct k => exact absurd hm (hc k)
  case startTestCase k => exact absurd hm (hs k)
  all_goals repeat' (split at h)
  all_goals try contradiction
  all_goals
    simp only [Option.some.injEq] at h
    subst h
    first
      | exact ⟨by simp [inside_afterTestCase], fun _ => afterTestCase_ne _ rfl,
          by simp [inside_afterTestCase], id⟩
      | simp [MainPc.inside, MainPc.left]

theorem Lifetimes.step_main (hl : Lifetimes s) (ht : Threads env s) (hx : InOrder s)
    (hsh : Sheltered s (.main true)) (h : mainStep env true s = some s') : Lifetimes s' := by
  by_cases hc : ∃ k, s.main = .construct k
  · obtain ⟨k, hm⟩ := hc
    exact hl.step_construct ht hm h
  by_cases hs : ∃ k, s.main = .startTestCase k
  · obtain ⟨k, hm⟩ := hs
    exact Lifetimes.step_startTestCase hx hm h
  have hc : ∀ k, s.main ≠ .construct k := by simpa using hc
  have hs : ∀ k, s.main ≠ .startTestCase k := by simpa using hs
  obtain ⟨-, -, htimer, htc⟩ := mainStep_grows h hc hs
  obtain ⟨hin, hcon, hleft, hstored⟩ := mainStep_inside h hc hs
  have hperf := mainStep_performed h
  refine ⟨?_, ?_, ?_, fun k hk => absurd hk (hcon k)⟩
  · intro w hw hd
    rcases mainStep_workers h hw with ⟨v, hv, rfl | ⟨⟨k, i, hm⟩, rfl⟩⟩ | ⟨k, -, rfl⟩
    · rcases hl.destroyed w hv hd with h1 | h1
      · exact hleft h1
      · refine .inr ?_
        cases hi : s'.main.inside with
        | none => rfl
        | some k => simp [hin k hi] at h1
    · exact hleft (by simp [hm, MainPc.left])
    · simp [newWorker] at hd
  · intro hr
    rw [htimer] at hr
    refine ⟨?_, fun hk => hstored ((hl.reading hr).2 (htc ▸ hk))⟩
    by_contra hleft'
    have := hl.left_of_main hsh h (by simpa using hleft')
    simp [this] at hr
  · intro k hk hp
    rw [htimer]
    exact hl.performed k (hin k hk) (hperf ▸ hp)

theorem Lifetimes.step (hl : Lifetimes s) (ht : Threads env s) (hx : InOrder s) (hc : Created a)
    (hsh : Sheltered s a) (h : IasClient.step env a s = some s') : Lifetimes s' := by
  cases step_moved ht.past h with
  | main hm =>
    subst hc
    exact hl.step_main ht hx hsh hm
  | timer h => exact hl.step_timer ht hsh ‹_›
  | worker hw h => exact hl.step_worker hw ‹_›
  | stop => exact ⟨hl.destroyed, hl.reading, hl.performed, hl.fresh⟩
  | clock now => exact ⟨hl.destroyed, hl.reading, hl.performed, hl.fresh⟩

/-- With the pointer stored, the one worker of an ip or RTT test exists. -/
theorem Threads.worker_zero (ht : Threads env s) (hr : s.phase.timer.pc ≠ .returned)
    (hk : s.phase.testCase = .ip ∨ s.phase.testCase = .rttUdp) (hs : s.phase.stored = true) :
    ∃ w, s.phase.objects[0]? = some w ∧ w ∈ s.phase.workers := by
  obtain ⟨k, hi, hc⟩ := ht.timer_inside hr
  obtain ⟨htc, -, -⟩ := ht.testCase k hi
  have hin : s.sh.g.instances = 1 := by
    rw [(ht.instances k hi hc).1, ← htc]
    rcases hk with hk | hk <;> rw [hk] <;> rfl
  have hlen : (s.phase.workers.length : Int) = max 0 s.sh.g.instances := by
    have hj := ht.joined
    cases hm : s.main <;> simp_all [Joined, MainPc.inside]
  have hpos : 0 < s.phase.workers.length := by omega
  refine ⟨s.phase.workers[0], ?_, List.getElem_mem hpos⟩
  simp [Phase.objects, hs, hpos]

/-- While the timer reads the workers, none of them is destroyed. -/
theorem Lifetimes.alive (hl : Lifetimes s) (ht : Threads env s)
    (hr : s.phase.timer.pc.reading = true) {w : Worker} (hw : w ∈ s.phase.workers) :
    w.destroyed = false := by
  by_contra hd
  obtain ⟨k, hi, -⟩ := ht.timer_inside (by intro hp; simp [hp, TimerPc.reading] at hr)
  rcases hl.destroyed w hw (by simpa using hd) with h | h
  · simp [(hl.reading hr).1] at h
  · simp [h] at hi

theorem Lifetimes.readsAlive (hl : Lifetimes s) (ht : Threads env s) : ReadsAlive s := by
  have hpointer (c : Call) (p : CallbackPc) (hp : s.phase.timer.pc = .callback c p)
      (hrd : p.reading = true)
      (hk : p.within s.phase.testCase c = true →
        s.phase.testCase = .ip ∨ s.phase.testCase = .rttUdp) :
      ∃ w : Worker, s.phase.objects[0]? = some w ∧ w.destroyed = false := by
    have hr : s.phase.timer.pc.reading = true := by rw [hp]; exact hrd
    have hk := hk (ht.timer.called c p hp).2
    obtain ⟨w, hw, hmem⟩ := ht.worker_zero (by simp [hp]) hk ((hl.reading hr).2 hk)
    exact ⟨w, hw, hl.alive ht hr hmem⟩
  unfold ReadsAlive
  split
  case h_5 c hp =>
    intro w hw
    refine hl.alive ht (by rw [hp]; rfl) ?_
    have hmem := List.mem_of_getElem? hw
    unfold Phase.objects at hmem
    split at hmem
    · exact hmem
    · contradiction
  case h_4 c r hp =>
    refine hpointer c _ hp rfl fun hw => ?_
    simp only [CallbackPc.within, Bool.and_eq_true, beq_iff_eq] at hw
    simp [hw.2]
  case h_6 => trivial
  all_goals
    rename_i c hp
    refine hpointer c _ hp rfl fun hw => ?_
    simp only [CallbackPc.within, Bool.and_eq_true, beq_iff_eq] at hw
    simp [hw.2]

/-- In a run in which every `createThread` returns 0 and each wait loop is left early only outside
a report or finish, the timer only reads workers of its test case that still exist. -/
theorem timer_reads_alive (env : Env) (rtt download upload : Bool) (old : Globals)
    (h : Run (step env) (fun t a => Created a ∧ Sheltered t a)
      (measurementStart rtt download upload old) s) : ReadsAlive s := by
  have ht (t : Sys) (hr : Run (step env) (fun t a => Created a ∧ Sheltered t a)
      (measurementStart rtt download upload old) t) : Threads env t :=
    Threads.run (fun _ _ h => h.1) hr
  have hx : InOrder s ∧ Lifetimes s := by
    refine Run.invariant_of (I := fun t => InOrder t ∧ Lifetimes t) ht ?_
      ⟨measurementStart_inOrder .., ?_⟩ h
    · intro t a u htt _ ⟨hx, hl⟩ ⟨hc, hsh⟩ hs
      exact ⟨hx.step htt hc hs, hl.step htt hx hc hsh hs⟩
    · exact ⟨by simp [measurementStart], by simp [measurementStart, TimerPc.reading],
        by simp [measurementStart, MainPc.inside], by simp [measurementStart]⟩
  exact hx.2.readsAlive (ht s h)

/-- The ip test up to the report of its timer, which is about to read the worker. -/
def ipReport : List Action :=
  List.replicate 8 (Action.main true) ++ List.replicate 8 (Action.worker 0 {}) ++
    [Action.worker 0 { code := 5 }] ++ List.replicate 4 (Action.worker 0 {}) ++
    List.replicate 17 Action.timer ++ [Action.clock 600000] ++ List.replicate 9 Action.timer

theorem timer_reads_alive_ipReport : ∃ s, s.phase.timer.pc = .callback .report .ipTimes ∧
    ReadsAlive s :=
  ⟨_, by decide, timer_reads_alive Env.default true true true Globals.default
    (run_of_exec ipReport rfl)⟩

/-- A stop at that point lets the main thread destroy the worker. -/
def ipReportStopped : List Action := ipReport ++ [Action.stop] ++ List.replicate 6 (Action.main true)

theorem ipReportStopped_reads_destroyed : ∃ s, Run (step Env.default) (fun _ a => Created a)
    (measurementStart true true true Globals.default) s ∧ ¬ ReadsAlive s := by
  obtain ⟨s, hs, hp, hd⟩ : ∃ s, exec (guarded (fun _ a => Created a) (step Env.default))
      ipReportStopped (measurementStart true true true Globals.default) = some s ∧
      s.phase.timer.pc = .callback .report .ipTimes ∧
      ∀ w ∈ s.phase.objects, w.destroyed = true := ⟨_, rfl, by decide, by decide⟩
  refine ⟨s, run_of_exec ipReportStopped hs, fun h => ?_⟩
  simp only [ReadsAlive, hp] at h
  obtain ⟨w, hw, hw'⟩ := h
  simp [hd w (List.mem_of_getElem? hw)] at hw'

end IasClient
