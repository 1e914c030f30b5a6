import IasClient.Control.Protocol

namespace IasClient

open Framework

variable {env : Env} {k : TestCase} {s s' : Sys} {a : Action} {sh : Shared} {t : Timer}

/-- Only an enabled test case is performed, and a finish without `completed` behind it means that
some other is not. -/
structure Completing (s : Sys) : Prop where
  enabled : ∀ j, s.sh.g.performed j = true → s.sh.g.enabled j = true
  finished : s.phase.timer.pc = .clearActive ∨ s.phase.timer.pc = .returned →
    SentFinish s.phase.testCase s.sh.log → Completed s.sh.log ∨ s.sh.g.allPerformed = false

theorem allPerformed_congr {g g' : Globals} (hp : g'.performed = g.performed)
    (he : g'.enabled = g.enabled) : g'.allPerformed = g.allPerformed := by
  have hp' (k : TestCase) : g'.performed k = g.performed k := congrFun hp k
  have he' (k : TestCase) : g'.enabled k = g.enabled k := congrFun he k
  have h1 := hp' .ip
  have h2 := hp' .rttUdp
  have h3 := hp' .download
  have h4 := hp' .upload
  have h5 := he' .rttUdp
  have h6 := he' .download
  have h7 := he' .upload
  simp only [Globals.performed, Globals.enabled] at h1 h2 h3 h4 h5 h6 h7
  simp only [Globals.allPerformed, h1, h2, h3, h4, h5, h6, h7]

theorem allPerformed_of_enabled {g : Globals} (h : ∀ j, g.performed j = g.enabled j) :
    g.allPerformed = true := by
  have h1 := h .ip
  have h2 := h .rttUdp
  have h3 := h .download
  have h4 := h .upload
  simp only [Globals.performed, Globals.enabled] at h1 h2 h3 h4
  simp [Globals.allPerformed, h1, h2, h3, h4]

/-- How the timer gets behind its finish call. -/
theorem CTimer.run_leaves {objects : List Worker} {t t' : Timer} {sh sh' : Shared} (hw : t.Wf k)
    (ht : t'.pc = .clearActive ∨ t'.pc = .returned)
    (h : CTimer.run env k objects sh t = some (sh', t')) :
    t.pc = .clearActive ∧ sh'.log = sh.log ∧ sh'.g.allPerformed = sh.g.allPerformed ∨
      t.pc.finishing = false ∧ sh' = sh ∨
      t.pc = .callback .finish .ifCompleted ∧ sh' = sh ∧ sh.g.allPerformed = false ∨
      Completed sh'.log := by
  cases hp : t.pc <;> simp only [CTimer.run, hp, Timer.goto] at h
  case callback c p =>
    have hin := (hw.called c p hp).2
    cases p <;> simp only [CCallback.callback, Timer.goto] at h
    case ifCompleted =>
      obtain rfl : c = .finish := eq_of_beq hin
      split at h <;> obtain ⟨rfl, rfl⟩ := Prod.mk.inj (Option.some.inj h)
      · simp at ht
      · rename_i hall
        exact .inr (.inr (.inl ⟨rfl, rfl, by simpa using hall⟩))
    case completed =>
      obtain ⟨rfl, rfl⟩ := Prod.mk.inj (Option.some.inj h)
      exact .inr (.inr (.inr ⟨_, List.mem_append_right _ (List.mem_singleton.mpr rfl), rfl⟩))
    case toPlatform =>
      split at h <;> obtain ⟨rfl, rfl⟩ := Prod.mk.inj (Option.some.inj h)
      · simp at ht
      · cases c <;> simp [Timer.resume, Timer.call] at ht
        contradiction
    all_goals repeat' (split at h)
    all_goals
      obtain ⟨rfl, rfl⟩ := Prod.mk.inj (Option.some.inj h)
      simp [hp] at ht
  case clearActive =>
    obtain ⟨rfl, rfl⟩ := Prod.mk.inj (Option.some.inj h)
    exact .inl ⟨rfl, rfl, rfl⟩
  case finishRunning =>
    obtain ⟨rfl, rfl⟩ := Prod.mk.inj (Option.some.inj h)
    exact .inr (.inl ⟨rfl, rfl⟩)
  case finishError =>
    split at h <;> obtain ⟨rfl, rfl⟩ := Prod.mk.inj (Option.some.inj h)
    · exact .inr (.inl ⟨rfl, rfl⟩)
    · simp [Timer.call] at ht
  all_goals repeat' (split at h)
  all_goals try contradiction
  all_goals
    obtain ⟨rfl, rfl⟩ := Prod.mk.inj (Option.some.inj h)
    simp [Timer.call] at ht

theorem Completing.step_timer (hc : Completing s) (ht : Threads env s) (hx : InOrder s)
    (hp : Performing s)
    (h : CTimer.run env s.phase.testCase s.phase.objects s.sh s.phase.timer = some (sh, t)) :
    Completing { s with sh := sh, phase := { s.phase with timer := t } } := by
  have he := CTimer.run_effect h
  have hg := he.grows.1.toPersists
  obtain ⟨k, hin, -⟩ := ht.timer_inside (CTimer.run_moves h)
  obtain ⟨-, -, hcb⟩ := ht.testCase k hin
  refine ⟨fun j hj => ?_, fun hpc hfin => ?_⟩
  · rw [hg.enabled]
    rcases he.newly_performed hj with hj | ⟨rfl, -⟩
    · exact hc.enabled j hj
    · rw [hcb]
      refine hx.entered k ?_
      cases hm : s.main <;> simp_all [MainPc.inside, MainPc.entered]
  · change SentFinish s.phase.testCase sh.log at hfin
    rcases CTimer.run_leaves ht.timer hpc h with ⟨hclear, hlog, hall⟩ | ⟨hno, rfl⟩ |
      ⟨-, rfl, hall⟩ | hdone
    · rw [hlog] at hfin ⊢
      rw [hall]
      exact hc.finished (.inl hclear) hfin
    · have hmem := hp.called (hp.sent _ hfin)
      simp [ht.timer.finish hmem] at hno
    · exact .inr hall
    · exact .inl hdone

theorem Completing.step_main (hc : Completing s) (hx : InOrder s) (hp : Performing s)
    (h : mainStep env true s = some s') : Completing s' := by
  have hg := mainStep_persists h
  have hperf := mainStep_performed h
  have hall : s'.sh.g.allPerformed = s.sh.g.allPerformed :=
    allPerformed_congr hperf (funext hg.enabled)
  refine ⟨fun j hj => ?_, ?_⟩
  · rw [hperf] at hj
    exact (hg.enabled j).trans (hc.enabled j hj)
  by_cases hs : ∃ k, s.main = .startTestCase k
  · obtain ⟨k, hm⟩ := hs
    obtain ⟨es, hlog, hes⟩ : ∃ es, s'.sh.log = s.sh.log ++ Event.startTestCase k :: es ∧
        ∀ e ∈ es, ∃ m, e = .platform k m ∧ m.cmd = .started := by
      rcases mainStep_log h with ⟨hl, -⟩ | ⟨l, es, hl, hlog, hes⟩
      · exact absurd hm (hl k)
      · rw [hm, MainPc.startTestCase.injEq] at hl
        exact hl ▸ ⟨es, hlog, hes⟩
    have hk : s'.phase.testCase = k := by
      simp only [mainStep, hm, Option.some.injEq] at h
      exact h ▸ rfl
    intro _ hfin
    rw [hlog, hk] at hfin
    exact absurd (sentFinish_startTestCase hx hp hm hes hfin) (lt_irrefl _)
  by_cases hcon : ∃ k, s.main = .construct k
  · obtain ⟨k, hm⟩ := hcon
    simp only [mainStep, hm, Option.some.injEq] at h
    subst h
    simp
  have hs' : ∀ k, s.main ≠ .startTestCase k := by simpa using hs
  have hcon' : ∀ k, s.main ≠ .construct k := by simpa using hcon
  obtain ⟨-, -, htimer, htc⟩ := mainStep_grows h hcon' hs'
  have hlog : s'.sh.log = s.sh.log := by
    rcases mainStep_log h with ⟨-, hlog⟩ | ⟨k, es, hm, -⟩
    · exact hlog
    · exact absurd hm (hs' k)
  rw [htimer, htc, hlog, hall]
  exact hc.finished

theorem Completing.step (hc : Completing s) (ht : Threads env s) (hx : InOrder s)
    (hp : Performing s) (ha : Created a) (h : IasClient.step env a s = some s') :
    Completing s' := by
  cases step_moved ht.past h with
  | main hm =>
    subst ha
    exact hc.step_main hx hp hm
  | timer hstep => exact hc.step_timer ht hx hp hstep
  | @worker j o w w' g hw hstep =>
    have he := Worker.run_effect hstep
    have hen : g.enabled = s.sh.g.enabled := funext he.grows.enabled
    refine ⟨fun j hj => ?_, ?_⟩
    · rw [he.keeps_performed] at hj
      exact (congrFun hen j).trans (hc.enabled j hj)
    · rw [allPerformed_congr he.keeps_performed hen]
      exact hc.finished
  | stop => exact ⟨hc.enabled, hc.finished⟩
  | clock now => exact ⟨hc.enabled, hc.finished⟩

theorem Completing.run {rtt download upload : Bool} {old : Globals}
    (h : Run (IasClient.step env) (fun _ a => Created a)
      (measurementStart rtt download upload old) s) : Completing s := by
  refine Run.invariant_of (J := fun t => Threads env t ∧ InOrder t ∧ Performing t)
    (fun t hr => ⟨Threads.run (fun _ _ h => h) hr, Performing.run hr⟩) ?_ ?_ h
  · exact fun t a u ⟨ht, hx, hp⟩ _ hc ha hs => hc.step ht hx hp ha hs
  · refine ⟨fun j hj => ?_, by simp [measurementStart, SentFinish]⟩
    cases j <;> contradiction

variable {rtt download upload : Bool} {old : Globals}

/-- At the end, the finishes of all enabled test cases have `completed` behind them. -/
theorem Completing.completed (h : Run (IasClient.step env) (fun _ a => Created a)
      (measurementStart rtt download upload old) s) (hmain : s.main = .finished)
    (hall : ∀ k, s.sh.g.enabled k = true → SentFinish k s.sh.log) : Completed s.sh.log := by
  have ht : Threads env s := Threads.run (fun _ _ h => h) h
  obtain ⟨hx, hp⟩ := Performing.run h
  have hc := Completing.run h
  obtain ⟨q, -, hT⟩ := Told.run h
  have hend := ht.joined
  simp only [Joined, hmain] at hend
  have hperf : s.sh.g.allPerformed = true := allPerformed_of_enabled fun j => by
    cases hj : s.sh.g.enabled j with
    | true => exact hp.sent j (hall j hj)
    | false =>
      cases hpj : s.sh.g.performed j with
      | true => simp [hc.enabled j hpj] at hj
      | false => rfl
  -- the timer of the last test case started has found them all performed
  have hfin : SentFinish s.phase.testCase s.sh.log := by
    cases q with
    | none =>
      obtain ⟨m, hm, -⟩ := hall .ip rfl
      simp [(hT.silent rfl).1] at hm
    | some p =>
      have hk := hT.telling p.1 p.2 rfl
      exact hk.testCase ▸ hall _ (hx.started _ hk.started).2
  exact (hc.finished (.inr hend.1) hfin).resolve_right (by simp [hperf])

/-- At the end, `completed` has been sent exactly when every enabled test case has sent its
finish. -/
theorem completed_iff (env : Env) (c : Choice) (old : Globals)
    (h : Run (step env) (fun _ a => Created a) (measurementStart c.rtt c.download c.upload old) s)
    (hmain : s.main = .finished) : Completed s.sh.log ↔
      ∀ k, (measurementStart c.rtt c.download c.upload old).sh.g.enabled k = true →
        SentFinish k s.sh.log := by
  rw [← run_enabled h]
  refine ⟨?_, Completing.completed h hmain⟩
  rintro ⟨e, he, hcmd⟩ k hk
  obtain ⟨l₁, l₂, hl⟩ := List.append_of_mem he
  rw [hl]
  exact (((Performing.run h).1.closed l₁ e l₂ hl hcmd).2 k hk).append _

/-- The same measurement to its end. -/
def ipAndRttEnded : List Action := ipAndRtt ++ [.timer] ++ List.replicate 10 (.main true)

theorem completed_iff_ipAndRtt : ∃ s : Sys, s.main = .finished ∧
    (Completed s.sh.log ↔ ∀ k,
      (measurementStart true false false Globals.default).sh.g.enabled k = true →
        SentFinish k s.sh.log) :=
  ⟨_, by decide, completed_iff oneStreamEnv rttOnly Globals.default
    (run_of_exec ipAndRttEnded rfl) rfl⟩

/-- The step of a worker that clears RUNNING follows the one that sets `hasError`. -/
theorem Worker.run_caught {o : Outcome} {g g' : Globals} {w w' : Worker}
    (h : Worker.run env k o g w = some (g', w')) :
    (g'.running = false → g.running = false ∨ w.pc = .catchRunning) ∧
      (w'.pc = .catchRunning → g'.hasError = true) := by
  rcases Worker.run_cases h with ⟨-, rfl, rfl⟩ | h | ⟨-, h⟩
  · exact ⟨.inl, by simp⟩
  · cases hp : w.pc <;> simp only [catchException, hp, Worker.goto] at h
    all_goals try contradiction
    all_goals
      obtain ⟨rfl, rfl⟩ := Prod.mk.inj (Option.some.inj h)
      simp
  · cases k <;> cases hp : w.pc <;>
      simp only [Worker.tryBlock, Ip.run, Ping.run, Download.run, Upload.run, connect, receiveLoop,
        hp, Worker.goto] at h
    all_goals try contradiction
    all_goals repeat' (split at h)
    all_goals try contradiction
    all_goals
      obtain ⟨rfl, rfl⟩ := Prod.mk.inj (Option.some.inj h)
      exact ⟨.inl, by simp⟩

/-- Nobody calls `measurementStop`. -/
def Action.unstopped : Action → Bool
  | .stop => false
  | _ => true

/-- Without a stop, every early end has an error behind it. -/
structure Ending (s : Sys) : Prop where
  running : s.main ≠ .finished → s.sh.g.running = false → s.sh.g.hasError = true
  caught : ∀ w ∈ s.phase.workers, w.pc = .catchRunning → s.sh.g.hasError = true
  passed : s.main = .endPhase ∨ s.main = .shutdown ∨ s.main = .finished →
    s.sh.g.hasError = true ∨ ∀ j, s.sh.g.enabled j = true → s.sh.g.performed j = true

/-- Nothing but the upload test comes last. -/
theorem eq_upload_of_ended {k : TestCase} (h : afterTestCase k = .endPhase ∨
    afterTestCase k = .shutdown ∨ afterTestCase k = .finished) : k = .upload := by
  cases k <;> simp [afterTestCase, TestCase.next] at h ⊢

theorem InOrder.passed_of_before (hb : Before s.sh.g s.sh.log .upload)
    (hu : s.sh.g.enabled .upload = true → s.sh.g.performed .upload = true) :
    ∀ j, s.sh.g.enabled j = true → s.sh.g.performed j = true := by
  intro j hj
  by_cases hlt : j.number < TestCase.upload.number
  · exact (hb j hj hlt).1
  · obtain rfl : j = .upload := by cases j <;> simp [TestCase.number] at hlt ⊢
    exact hu hj

theorem Ending.passed_step (he : Ending s) (hx : InOrder s) (h : mainStep env true s = some s')
    (hm : s'.main = .endPhase ∨ s'.main = .shutdown ∨ s'.main = .finished) :
    s.sh.g.hasError = true ∨ ∀ j, s.sh.g.enabled j = true → s.sh.g.performed j = true := by
  have hrun := he.running
  cases hp : s.main <;> simp only [mainStep, hp] at h
  case gate k =>
    obtain rfl := Option.some.inj h
    split at hm
    · simp at hm
    · rename_i hen
      obtain rfl := eq_upload_of_ended hm
      rcases hx.gate .upload (.inl hp) with hr | herr | hb
      · exact .inl (hrun (by simp [hp]) hr)
      · exact .inl herr
      · exact .inr (InOrder.passed_of_before hb fun h => absurd h hen)
  case gateRunning k =>
    obtain rfl := Option.some.inj h
    repeat' split at hm
    all_goals try simp at hm
    rename_i hr
    exact .inl (hrun (by simp [hp]) (by simpa using hr))
  case gateError k =>
    obtain rfl := Option.some.inj h
    split at hm
    · exact .inl ‹_›
    · simp at hm
  case joinTimer k =>
    split at h
    · obtain rfl := Option.some.inj h
      obtain rfl := eq_upload_of_ended hm
      rcases hx.left .upload (.inr hp) with hperf | herr | hr
      · exact .inr (InOrder.passed_of_before (hx.before .upload (.inr (by rw [hp]; rfl)))
          fun _ => hperf)
      · exact .inl herr
      · exact .inl (hrun (by simp [hp]) hr)
    · contradiction
  case endPhase | shutdown => exact he.passed (by simp [hp])
  all_goals repeat' (split at h)
  all_goals try contradiction
  all_goals
    obtain rfl := Option.some.inj h
    simp at hm

/-- The main thread clears RUNNING when it shuts down. -/
theorem mainStep_running {created : Bool} (h : mainStep env created s = some s') :
    s.main ≠ .finished ∧ (s'.main ≠ .finished → s'.sh.g.running = s.sh.g.running) := by
  cases hp : s.main <;> simp only [mainStep, hp] at h
  all_goals repeat' (split at h)
  all_goals try contradiction
  all_goals
    obtain rfl := Option.some.inj h
    refine ⟨by simp, fun hm => ?_⟩
    first | rfl | exact absurd rfl hm

theorem Timer.Effect.running_eq {t' : Timer} {sh' : Shared} (h : Timer.Effect k t t' sh sh') :
    sh'.g.running = sh.g.running := by
  cases h
  case performed => cases sh.cb.mTestCase <;> rfl
  all_goals rfl

theorem Ending.step_main (he : Ending s) (hx : InOrder s) (h : mainStep env true s = some s') :
    Ending s' := by
  have hg := mainStep_persists h
  obtain ⟨-, herr⟩ := mainStep_reason h
  refine ⟨fun hm hr => ?_, fun w hw hpc => ?_, fun hm => ?_⟩
  · obtain ⟨hne, hrun⟩ := mainStep_running h
    rw [herr]
    exact he.running hne (hrun hm ▸ hr)
  · rw [herr]
    rcases mainStep_workers h hw with ⟨v, hv, rfl | ⟨-, rfl⟩⟩ | ⟨k, -, rfl⟩
    · exact he.caught _ hv hpc
    · exact he.caught v hv hpc
    · cases k <;> contradiction
  · exact (he.passed_step hx h hm).imp herr.trans fun hall j hj =>
      hg.performed j (hall j (hg.enabled j ▸ hj))

theorem Ending.step (he : Ending s) (ht : Threads env s) (hx : InOrder s) (ha : Created a)
    (hu : a.unstopped = true) (h : IasClient.step env a s = some s') : Ending s' := by
  cases step_moved ht.past h with
  | main hm =>
    subst ha
    exact he.step_main hx hm
  | timer hstep =>
    have hg := (CTimer.run_effect hstep).grows.1
    refine ⟨fun hm hr => ?_, fun v hv hpc => hg.hasError (he.caught v hv hpc), fun hm => ?_⟩
    · exact hg.hasError (he.running hm ((CTimer.run_effect hstep).running_eq ▸ hr))
    · exact (he.passed hm).imp hg.hasError fun hall j hj =>
        hg.performed j (hall j (hg.enabled j ▸ hj))
  | @worker j o w w' g hw hstep =>
    have hg := (Worker.run_effect hstep).grows
    obtain ⟨hrun, hcaught⟩ := Worker.run_caught hstep
    refine ⟨fun hm hr => ?_, fun v hv hpc => ?_, fun hm => ?_⟩
    · rcases hrun hr with hr | hpc
      · exact hg.hasError (he.running hm hr)
      · exact hg.hasError (he.caught w (List.mem_of_getElem? hw) hpc)
    · rcases List.mem_or_eq_of_mem_set hv with hv | rfl
      · exact hg.hasError (he.caught v hv hpc)
      · exact hcaught hpc
    · exact (he.passed hm).imp hg.hasError fun hall j hj =>
        hg.performed j (hall j (hg.enabled j ▸ hj))
  | stop => contradiction
  | clock now => exact ⟨he.running, he.caught, he.passed⟩

theorem Ending.run (hr : old.running = true) (hany : (rtt || download || upload) = true)
    (h : Run (IasClient.step env) (fun _ a => Created a ∧ a.unstopped = true)
      (measurementStart rtt download upload old) s) : Ending s := by
  have hJ (t : Sys) (ht : Run (IasClient.step env) (fun _ a => Created a ∧ a.unstopped = true)
      (measurementStart rtt download upload old) t) : Threads env t ∧ InOrder t :=
    have ht' := ht.mono fun _ _ h => h.1
    ⟨Threads.run (fun _ _ h => h) ht', (Performing.run ht').1⟩
  refine Run.invariant_of hJ ?_ ?_ h
  · exact fun t a u ⟨ht, hx⟩ _ he ha hs => he.step ht hx ha.1 ha.2 hs
  · exact ⟨by simp [measurementStart, hr, hany], by simp [measurementStart],
      by simp [measurementStart]⟩

/-- A measurement that nobody stops and that ends without an error has sent `completed`. -/
theorem unstopped_completes (env : Env) (c : Choice) (old : Globals) (hr : old.running = true)
    (h : Run (step env) (fun _ a => Created a ∧ a.unstopped = true)
      (measurementStart c.rtt c.download c.upload old) s)
    (hmain : s.main = .finished) (herr : s.sh.g.hasError = false) : Completed s.sh.log := by
  have h' := h.mono fun _ _ h => h.1
  have hx := (Performing.run h').1
  have ht : Threads env s := Threads.run (fun _ _ h => h) h'
  have hend := ht.joined
  simp only [Joined, hmain] at hend
  have hall := ((Ending.run hr c.chosen h).passed (.inr (.inr hmain))).resolve_left (by simp [herr])
  exact Completing.completed h' hmain fun k hk =>
    ((hx.performed k (hall k hk)).2).resolve_right fun hp => by simp [hend.1] at hp

theorem unstopped_completes_ipAndRtt : ∃ s : Sys, s.main = .finished ∧ Completed s.sh.log :=
  ⟨_, by decide, unstopped_completes oneStreamEnv rttOnly Globals.default rfl
    (run_of_exec ipAndRttEnded rfl) rfl rfl⟩

/-- The positions from which a test case may start although `hasError` is true. -/
def MainPc.unasked : MainPc → Bool
  | .gate .ip | .gateRunning .ip | .startTestCase _ => true
  | _ => false

/-- The main thread will start no test case any more. -/
structure Barred (s : Sys) : Prop where
  ended : s.sh.g.hasError = true ∨ s.sh.g.running = false
  main : s.main.unasked = false
  gateError : ∀ j, s.main = .gateError j → s.sh.g.hasError = true

theorem unasked_afterTestCase (j : TestCase) :
    (afterTestCase j).unasked = false ∧ ∀ l, afterTestCase j ≠ .gateError l := by
  cases j <;> simp [afterTestCase, TestCase.next, MainPc.unasked]

theorem barred_of_inside (hin : s.main.inside = some k)
    (h : s.sh.g.hasError = true ∨ s.sh.g.running = false) : Barred s := by
  refine ⟨h, ?_, fun j hj => ?_⟩
  · cases hm : s.main <;> rw [hm] at hin <;> first | rfl | contradiction
  · simp [hj, MainPc.inside] at hin

theorem Barred.congr (hb : Barred s) (hm : s'.main = s.main) (hg : s.sh.g.Persists s'.sh.g) :
    Barred s' :=
  ⟨hb.ended.imp hg.hasError hg.running, hm ▸ hb.main,
    fun j hj => hg.hasError (hb.gateError j (hm ▸ hj))⟩

theorem Barred.step_main (hb : Barred s) (h : mainStep env true s = some s') :
    Barred s' ∧ starts s'.sh.log = starts s.sh.log ∧ s'.phase.testCase = s.phase.testCase := by
  have hg := mainStep_persists h
  have hended := hb.ended.imp hg.hasError hg.running
  have hmain := hb.main
  suffices hgoes : s'.main.unasked = false ∧ (∀ j, s'.main = .gateError j →
      s.sh.g.hasError = true) ∧ starts s'.sh.log = starts s.sh.log ∧
      s'.phase.testCase = s.phase.testCase by
    obtain ⟨h1, h2, h3⟩ := hgoes
    exact ⟨⟨hended, h1, fun j hj => hg.hasError (h2 j hj)⟩, h3⟩
  cases hm : s.main <;> simp only [mainStep, hm] at h hmain
  case startTestCase j => contradiction
  case gate j =>
    obtain rfl := Option.some.inj h
    have hj : (MainPc.gateRunning j).unasked = false := by
      cases j <;> first | contradiction | rfl
    split
    · exact ⟨hj, by simp, rfl, rfl⟩
    · exact ⟨(unasked_afterTestCase j).1, fun l hl => absurd hl ((unasked_afterTestCase j).2 l),
        rfl, rfl⟩
  case gateRunning j =>
    obtain rfl := Option.some.inj h
    have hj : j ≠ .ip := by
      rintro rfl
      contradiction
    simp only [hj, if_false]
    split
    · rename_i hr
      have herr := hb.ended.resolve_right (by simp [hr])
      exact ⟨rfl, fun _ _ => herr, trivial, trivial⟩
    · exact ⟨(unasked_afterTestCase j).1, fun l hl => absurd hl ((unasked_afterTestCase j).2 l),
        trivial, trivial⟩
  case gateError j =>
    obtain rfl := Option.some.inj h
    simp only [hb.gateError j hm, if_true]
    exact ⟨(unasked_afterTestCase j).1, fun _ _ => trivial, trivial, trivial⟩
  all_goals repeat' (split at h)
  all_goals try contradiction
  all_goals
    obtain rfl := Option.some.inj h
    first
      | exact ⟨rfl, by simp, rfl, rfl⟩
      | exact ⟨(unasked_afterTestCase _).1,
          fun l hl => absurd hl ((unasked_afterTestCase _).2 l), rfl, rfl⟩

theorem CTimer.run_starts {objects : List Worker} {sh' : Shared} {t' : Timer}
    (h : CTimer.run env k objects sh t = some (sh', t')) : starts sh'.log = starts sh.log := by
  obtain ⟨es, hlog, hsent⟩ := (CTimer.run_effect h).sent
  rw [hlog, starts_append, hsent.starts, List.append_nil]

theorem Barred.step (hb : Barred s) (ht : Threads env s) (ha : Created a)
    (h : IasClient.step env a s = some s') :
    Barred s' ∧ starts s'.sh.log = starts s.sh.log ∧ s'.phase.testCase = s.phase.testCase := by
  have hg := step_persists ht.past h
  cases step_moved ht.past h with
  | main hm =>
    subst ha
    exact hb.step_main hm
  | timer hstep => exact ⟨hb.congr rfl hg, CTimer.run_starts hstep, rfl⟩
  | worker | stop | clock => exact ⟨hb.congr rfl hg, rfl, rfl⟩

/-- After an error or a stop within a test case no further test case starts, and `completed` is
still sent only if that test case is the last one enabled. -/
theorem nothing_starts_after_end (env : Env) (rtt download upload : Bool) (old : Globals)
    {t : Sys} (h : Run (step env) (fun _ a => Created a)
      (measurementStart rtt download upload old) s)
    (hin : s.main.inside = some k) (hend : s.sh.g.hasError = true ∨ s.sh.g.running = false)
    (h' : Run (step env) (fun _ a => Created a) s t) :
    starts t.sh.log = starts s.sh.log ∧
      (Completed t.sh.log → Last (measurementStart rtt download upload old).sh.g.enabled k) := by
  have hk := (Threads.run (fun _ _ h => h) h : Threads env s).testCase k hin
  obtain ⟨-, hst, htc⟩ : Barred t ∧ starts t.sh.log = starts s.sh.log ∧
      t.phase.testCase = s.phase.testCase := by
    refine Run.invariant_of (J := Threads env) (I := fun u => Barred u ∧
      starts u.sh.log = starts s.sh.log ∧ u.phase.testCase = s.phase.testCase)
      (fun u hu => Threads.run (fun _ _ h => h) (h.trans hu)) ?_ ?_ h'
    · rintro u a v hu - ⟨hb, h1, h2⟩ ha hs
      obtain ⟨hb', h1', h2'⟩ := hb.step hu ha hs
      exact ⟨hb', h1'.trans h1, h2'.trans h2⟩
    · exact ⟨barred_of_inside hin hend, rfl, rfl⟩
  refine ⟨hst, fun ⟨e, he, hcmd⟩ j hj => ?_⟩
  have hrun := h.trans h'
  obtain ⟨l₁, l₂, hl⟩ := List.append_of_mem he
  rw [← run_enabled hrun] at hj
  have hfin := (((Performing.run hrun).1.closed l₁ e l₂ hl hcmd).2 j hj).append (e :: l₂)
  rw [← hl] at hfin
  obtain ⟨q, -, hT⟩ := Told.run hrun
  cases q with
  | none => simp [(hT.silent rfl).1] at he
  | some q =>
    have htell := hT.telling q.1 q.2 rfl
    have hq : q.1 = k := by rw [← htell.testCase, htc, hk.1]
    rcases htell.sent j hfin with hlt | ⟨rfl, -⟩
    · exact hq ▸ hlt.le
    · exact hq ▸ le_refl _

/-- The rest of a measurement that was stopped when the thread of the ip test was created. -/
def stoppedRest : List Action :=
  List.replicate 6 (Action.worker 0 {}) ++ List.replicate 3 Action.timer ++
    List.replicate 14 (Action.main true)

theorem nothing_starts_after_end_stopped : ∃ s t : Sys, t.main = .finished ∧
    starts t.sh.log = starts s.sh.log ∧ (Completed t.sh.log →
      Last (measurementStart true false false Globals.default).sh.g.enabled .ip) :=
  ⟨_, _, rfl, nothing_starts_after_end Env.default true false false Globals.default
    (run_of_exec (List.replicate 8 (Action.main true) ++ [Action.stop]) rfl) rfl (.inr rfl)
    (run_of_exec stoppedRest rfl)⟩

end IasClient
