import IasClient.Control.Lifetime
import IasClient.Control.Window

namespace IasClient

open Framework

/-- The positions from a report to the test of STREAMS_DROPPED. -/
def TimerPc.afterReport : TimerPc → Bool
  | .callback .report _ | .innerRunning | .innerStopped | .ifStreamsDropped => true
  | _ => false

/-- A report has seen no live stream. -/
def Timer.SeenDrop (t : Timer) : Prop := .report ∈ t.drops

/-- The invariant behind the error 9: a drop that a report has seen is signaled before anything
else happens. -/
structure Dropping (g : Globals) (t : Timer) : Prop where
  kinds : ∀ c ∈ t.drops, c ∈ t.calls ∧ (c = .report ∨ c = .finish)
  hasError : t.SeenDrop → t.pc = .callback .report .dropError ∨ g.hasError = true
  exclusive : t.SeenDrop → .finish ∉ t.calls
  pending : t.SeenDrop → g.running = false ∨ .streamsDropped ∈ t.calls ∨ t.pc = .aborted ∨
    t.pc = .callback .report .dropError ∨ t.pc = .callback .report .dropFlag ∨
      g.streamsDropped = true ∧ g.timerStopped = false ∧ t.pc.afterReport = true
  once : t.calls.count .streamsDropped = if t.streamsDroppedSignaled then 1 else 0

variable {env : Env} {k : TestCase} {objects : List Worker} {sh sh' : Shared} {t t' : Timer}

theorem CTimer.run_drops (h : CTimer.run env k objects sh t = some (sh', t')) :
    t'.drops = t.drops ∨ ∃ c, t'.drops = t.drops ++ [c] ∧ t.pc = .callback c .visit ∧
      t'.pc = .callback c .dropError ∧ t'.calls = t.calls ∧ sh' = sh := by
  have resume (c : Call) : (t.resume c).drops = t.drops := by cases c <;> rfl
  cases hp : t.pc <;> simp only [CTimer.run, hp, Timer.goto] at h
  case callback c p =>
    cases p <;> simp only [CCallback.callback, Timer.goto] at h
    all_goals repeat' (split at h)
    all_goals
      simp only [Option.some.injEq, Prod.mk.injEq] at h
      obtain ⟨rfl, rfl⟩ := h
      with_reducible first
        | exact .inl rfl
        | exact .inl (resume c)
        | exact .inr ⟨c, rfl, rfl, rfl, rfl, rfl⟩
  all_goals repeat' (split at h)
  all_goals try contradiction
  all_goals
    simp only [Option.some.injEq, Prod.mk.injEq] at h
    obtain ⟨rfl, rfl⟩ := h
    exact .inl rfl

/-- Where the timer goes on after a report that has seen a drop. -/
theorem CTimer.run_afterReport (hd : sh.g.streamsDropped = true)
    (hs : sh.g.timerStopped = false) (ha : t.pc.afterReport = true)
    (h : CTimer.run env k objects sh t = some (sh', t')) : sh.g.running = false ∨
      t'.pc.afterReport = true ∨ t'.pc = .aborted ∨
      t.pc = .ifStreamsDropped ∧ (t.streamsDroppedSignaled = true ∨
        t'.calls = t.calls ++ [Call.streamsDropped]) := by
  cases hp : t.pc <;> simp only [hp, TimerPc.afterReport] at ha <;> try contradiction
  case callback c p =>
    cases c <;> try contradiction
    cases p <;> simp only [CTimer.run, hp, CCallback.callback, Timer.goto] at h
    all_goals repeat' (split at h)
    all_goals
      simp only [Option.some.injEq, Prod.mk.injEq] at h
      obtain ⟨rfl, rfl⟩ := h
      simp [TimerPc.afterReport, Timer.resume]
  all_goals
    simp only [CTimer.run, hp, Timer.goto] at h
    repeat' (split at h)
  all_goals
    simp only [Option.some.injEq, Prod.mk.injEq] at h
    obtain ⟨rfl, rfl⟩ := h
    simp_all [TimerPc.afterReport, Timer.call]

theorem CTimer.run_signaled (h : CTimer.run env k objects sh t = some (sh', t')) :
    t'.streamsDroppedSignaled = t.streamsDroppedSignaled ∧
        t'.calls.count .streamsDropped = t.calls.count .streamsDropped ∨
      t.streamsDroppedSignaled = false ∧ t'.streamsDroppedSignaled = true ∧
        t'.calls = t.calls ++ [Call.streamsDropped] := by
  have resume (c : Call) : (t.resume c).streamsDroppedSignaled = t.streamsDroppedSignaled ∧
      (t.resume c).calls.count .streamsDropped = t.calls.count .streamsDropped := by
    cases c <;> simp [Timer.resume, Timer.call]
  cases hp : t.pc <;> simp only [CTimer.run, hp, Timer.goto] at h
  case callback c p =>
    cases p <;> simp only [CCallback.callback, Timer.goto] at h
    all_goals repeat' (split at h)
    all_goals
      simp only [Option.some.injEq, Prod.mk.injEq] at h
      obtain ⟨rfl, rfl⟩ := h
      with_reducible first | exact .inl ⟨rfl, rfl⟩ | exact .inl (resume c)
  all_goals repeat' (split at h)
  all_goals try contradiction
  all_goals
    simp only [Option.some.injEq, Prod.mk.injEq] at h
    obtain ⟨rfl, rfl⟩ := h
    simp_all [Timer.call]

theorem CTimer.run_dropError {c : Call} (hp : t.pc = .callback c .dropError)
    (h : CTimer.run env k objects sh t = some (sh', t')) :
    t'.pc = .callback c .dropFlag ∧ sh'.g.hasError = true := by
  simp only [CTimer.run, hp, CCallback.callback, Timer.goto, Option.some.injEq, Prod.mk.injEq] at h
  obtain ⟨rfl, rfl⟩ := h
  exact ⟨rfl, rfl⟩

theorem CTimer.run_dropFlag {c : Call} (hp : t.pc = .callback c .dropFlag)
    (h : CTimer.run env k objects sh t = some (sh', t')) :
    t'.pc = .callback c .stepEnd ∧ sh'.g.streamsDropped = true := by
  simp only [CTimer.run, hp, CCallback.callback, Timer.goto, Option.some.injEq, Prod.mk.injEq] at h
  obtain ⟨rfl, rfl⟩ := h
  exact ⟨rfl, rfl⟩

/-- In a Download or Upload test a report leaves TIMER_STOPPED false. -/
theorem CTimer.run_keeps_open (hk : k = .download ∨ k = .upload) (ht : t.Wf k)
    (hp : t.pc.afterReport = true) (hs : sh.g.timerStopped = false)
    (h : CTimer.run env k objects sh t = some (sh', t')) : sh'.g.timerStopped = false := by
  by_contra hs'
  rcases (CTimer.run_effect h).why_stopped (by simpa using hs') with hs' | (hp' | hp' | hp') | ⟨c, hp'⟩
  · simp [hs] at hs'
  · simp [hp', TimerPc.afterReport] at hp
  · simp [hp', TimerPc.afterReport] at hp
  · simp [hp', TimerPc.afterReport] at hp
  · have := (ht.called c _ hp').2
    rcases hk with rfl | rfl <;> simp [CallbackPc.within] at this

theorem Dropping.once_step (hd : Dropping sh.g t)
    (h : CTimer.run env k objects sh t = some (sh', t')) :
    t'.calls.count .streamsDropped = if t'.streamsDroppedSignaled then 1 else 0 := by
  rcases CTimer.run_signaled h with ⟨h1, h2⟩ | ⟨h1, h2, h3⟩
  · rw [h1, h2]
    exact hd.once
  · rw [h2, h3, List.count_append, hd.once, h1]
    rfl

theorem Dropping.signaled_mem (hd : Dropping sh.g t) (hs : t.streamsDroppedSignaled = true) :
    .streamsDropped ∈ t.calls := by
  have := hd.once
  rw [hs, if_pos rfl] at this
  exact List.count_pos_iff.mp (by omega)

/-- A step that finds no live stream. -/
theorem Dropping.step_drop (hd : Dropping sh.g t) (ht : t.Wf k) {c : Call}
    (hdr : t'.drops = t.drops ++ [c]) (hp : t.pc = .callback c .visit)
    (hp' : t'.pc = .callback c .dropError) (hc : t'.calls = t.calls)
    (h : CTimer.run env k objects sh t = some (sh, t')) : Dropping sh.g t' := by
  have hw := ht.called c _ hp
  have hkind : c = .report ∨ c = .finish := by
    have := hw.2
    simp only [CallbackPc.within, Bool.and_eq_true, Bool.or_eq_true, beq_iff_eq] at this
    exact this.1
  have hseen : t'.SeenDrop ↔ t.SeenDrop ∨ c = .report := by
    simp [Timer.SeenDrop, hdr, eq_comm]
  refine ⟨?_, ?_, ?_, ?_, hd.once_step h⟩
  · intro d hd'
    rw [hdr, List.mem_append, List.mem_singleton] at hd'
    rw [hc]
    rcases hd' with hd' | rfl
    · exact hd.kinds d hd'
    · exact ⟨hw.1, hkind⟩
  · intro hs
    rcases hseen.mp hs with hs | rfl
    · exact .inr ((hd.hasError hs).resolve_left (by simp [hp]))
    · exact .inl hp'
  · intro hs hfin
    rw [hc] at hfin
    rcases hseen.mp hs with hs | rfl
    · exact hd.exclusive hs hfin
    · simpa [hp, TimerPc.finishing] using ht.finish hfin
  · intro hs
    rw [hc, hp']
    by_cases hr : c = .report
    · simp [hr]
    · have := hd.pending ((hseen.mp hs).resolve_right hr)
      rcases hkind with rfl | rfl <;> simp_all [TimerPc.afterReport]

theorem Dropping.step_timer (hd : Dropping sh.g t) (hk : k = .download ∨ k = .upload)
    (ht : t.Wf k) (ho : Opened sh.g t) (h : CTimer.run env k objects sh t = some (sh', t')) :
    Dropping sh'.g t' := by
  have hg := (CTimer.run_effect h).grows.1.toPersists
  have hcalls := CTimer.run_calls ht h
  have hmem (c : Call) (hc : c ∈ t.calls) : c ∈ t'.calls := by
    rcases hcalls with hs | ⟨c', hs, -⟩ <;> simp [hs, hc]
  rcases CTimer.run_drops h with hdr | ⟨c, hdr, hp, hp', hc, rfl⟩
  · have hseen : t'.SeenDrop ↔ t.SeenDrop := by simp [Timer.SeenDrop, hdr]
    refine ⟨?_, ?_, ?_, ?_, hd.once_step h⟩
    · intro c hc
      rw [hdr] at hc
      exact ⟨hmem c (hd.kinds c hc).1, (hd.kinds c hc).2⟩
    · intro hs
      rcases hd.hasError (hseen.mp hs) with hp | he
      · exact .inr (CTimer.run_dropError hp h).2
      · exact .inr (hg.hasError he)
    · intro hs hfin
      have hs := hseen.mp hs
      rcases hcalls with hc | ⟨c, hc, -, hcause, -⟩
      · exact hd.exclusive hs (hc ▸ hfin)
      · rw [hc, List.mem_append, List.mem_singleton] at hfin
        rcases hfin with hfin | rfl
        · exact hd.exclusive hs hfin
        · rcases hd.hasError hs with hp | he
          · simp [hcause.1] at hp
          · simp [hcause.2] at he
    · intro hs
      rcases hd.pending (hseen.mp hs) with hr | hm | hp | hp | hp | ⟨hfl, hst, hp⟩
      · exact .inl (hg.running hr)
      · exact .inr (.inl (hmem _ hm))
      · simp [CTimer.run, hp] at h
      · exact .inr (.inr (.inr (.inr (.inl (CTimer.run_dropError hp h).1))))
      · obtain ⟨hp', hfl⟩ := CTimer.run_dropFlag hp h
        have hst := ho.windowOpen (.inr (by simp [hp, TimerPc.reporting]))
        have hst' := CTimer.run_keeps_open hk ht (by simp [hp, TimerPc.afterReport]) hst h
        exact .inr (.inr (.inr (.inr (.inr ⟨hfl, hst', by simp [hp', TimerPc.afterReport]⟩))))
      · have hst' := CTimer.run_keeps_open hk ht hp hst h
        rcases CTimer.run_afterReport hfl hst hp h with hr | ha | ha | ⟨-, hsig | hc⟩
        · exact .inl (hg.running hr)
        · exact .inr (.inr (.inr (.inr (.inr ⟨hg.streamsDropped hfl, hst', ha⟩))))
        · exact .inr (.inr (.inl ha))
        · exact .inr (.inl (hmem _ (hd.signaled_mem hsig)))
        · exact .inr (.inl (by simp [hc]))
  · exact hd.step_drop ht hdr hp hp' hc h

/-- Past the finish, the PERFORMED flag of the test case is true. -/
theorem CTimer.run_to_performed (ht : t.Wf k)
    (h : CTimer.run env k objects sh t = some (sh', t')) (hp : t'.pc.performed = true)
    (hfin : .finish ∈ t'.calls) :
    t.pc.performed = true ∧ .finish ∈ t.calls ∨ sh'.g.performed sh.cb.mTestCase = true := by
  have hmem : .finish ∈ t.calls := by
    rcases CTimer.run_calls ht h with hc | ⟨c, -, hpc, -⟩
    · exact hc ▸ hfin
    · cases c <;> simp [hpc, TimerPc.performed] at hp
  have hf := ht.finish hmem
  cases hpc : t.pc with
  | callback c p =>
    cases c <;> simp only [hpc, TimerPc.finishing] at hf <;> try contradiction
    cases p <;> simp only [CTimer.run, hpc, CCallback.callback, Timer.goto] at h
    case toPlatform | ifCompleted | completed => exact .inl ⟨rfl, hmem⟩
    all_goals repeat' (split at h)
    all_goals
      simp only [Option.some.injEq, Prod.mk.injEq] at h
      obtain ⟨rfl, rfl⟩ := h
      simp_all [TimerPc.performed, Call.stored]
  | clearActive | returned => exact .inl ⟨rfl, hmem⟩
  | _ => simp [hpc, TimerPc.finishing, CTimer.run] at hf h

/-- What the PERFORMED flags say about the current timer and about the messages. -/
structure Performing (s : Sys) : Prop where
  called : s.sh.g.performed s.phase.testCase = true → .finish ∈ s.phase.timer.calls
  flag : .finish ∈ s.phase.timer.calls → s.phase.timer.pc.performed = true →
    s.sh.g.performed s.phase.testCase = true
  sent : ∀ j, SentFinish j s.sh.log → s.sh.g.performed j = true
  enabled : s.phase.timer.calls ≠ [] → s.sh.g.enabled s.phase.testCase = true
  construct : ∀ k, s.main = .construct k → s.phase.timer.calls = []

variable {s s' : Sys} {a : Action}

theorem sentFinish_append {j : TestCase} {l es : List Event} (h : SentFinish j (l ++ es)) :
    SentFinish j l ∨ SentFinish j es := by
  obtain ⟨m, hm, hf⟩ := h
  rcases List.mem_append.mp hm with hm | hm
  · exact .inl ⟨m, hm, hf⟩
  · exact .inr ⟨m, hm, hf⟩

theorem Performing.step_timer (hp : Performing s) (ht : Threads env s) (hx : InOrder s)
    {sh : Shared} {t : Timer}
    (h : CTimer.run env s.phase.testCase s.phase.objects s.sh s.phase.timer = some (sh, t)) :
    Performing { s with sh := sh, phase := { s.phase with timer := t } } := by
  have he := CTimer.run_effect h
  have hg := he.grows.1.toPersists
  have hcalls := CTimer.run_calls ht.timer h
  obtain ⟨k, hin, hcon⟩ := ht.timer_inside (CTimer.run_moves h)
  obtain ⟨hk, -, hcb⟩ := ht.testCase k hin
  have hmem (hc : .finish ∈ s.phase.timer.calls) : .finish ∈ t.calls := by
    rcases hcalls with hs | ⟨c', hs, -⟩ <;> simp [hs, hc]
  refine ⟨?_, ?_, ?_, ?_, ?_⟩
  · intro hperf
    rcases he.newly_performed hperf with hperf | ⟨-, c, hc, -⟩
    · exact hmem (hp.called hperf)
    · obtain ⟨h1, h2⟩ := ht.timer.called c _ hc
      have hfin : c = .finish := by simpa [CallbackPc.within] using h2
      exact hmem (hfin ▸ h1)
  · intro hfin hpos
    rcases CTimer.run_to_performed ht.timer h hpos hfin with ⟨hpos', hfin'⟩ | hperf
    · exact hg.performed _ (hp.flag hfin' hpos')
    · rwa [hcb, ← hk] at hperf
  · intro j hj
    obtain ⟨es, hlog, hes⟩ := he.sent
    rw [hlog] at hj
    rcases sentFinish_append hj with hj | ⟨m, hm, hcmd⟩
    · exact hg.performed j (hp.sent j hj)
    · rcases hes with rfl | ⟨m', c, rfl, hpos⟩
      · simp at hm
      · simp only [List.mem_singleton, Event.platform.injEq] at hm
        obtain ⟨rfl, rfl⟩ := hm
        rcases hpos with ⟨hpos, hc⟩ | ⟨-, hc⟩
        · have hfin : c = .finish := by
            rw [hcmd] at hc
            cases c <;> simp [Call.cmd] at hc ⊢
          subst hfin
          exact hg.performed _ (hp.flag (ht.timer.called _ _ hpos).1 (by rw [hpos]; rfl))
        · simp [hcmd] at hc
  · intro _
    have hent : s.main.entered = some k := by
      cases hm : s.main <;> simp_all [MainPc.inside, MainPc.entered]
    rw [hg.enabled, hk]
    exact hx.entered k hent
  · intro l hl
    simp only at hl
    have hlk : l = k := by simpa [hl, MainPc.inside] using hin
    exact absurd (hlk ▸ hl) hcon

theorem Performing.step_main (hp : Performing s) (hx : InOrder s)
    (h : mainStep env true s = some s') : Performing s' := by
  have hg := mainStep_persists h
  have hperf := mainStep_performed h
  have hsent (j : TestCase) (hj : SentFinish j s'.sh.log) : SentFinish j s.sh.log := by
    rcases mainStep_log h with ⟨-, hl⟩ | ⟨k, es, -, hl, hes⟩
    · exact hl ▸ hj
    · rw [hl] at hj
      refine (sentFinish_append hj).resolve_right ?_
      rintro ⟨m, hm, hcmd⟩
      rcases List.mem_cons.mp hm with hm | hm
      · simp at hm
      · obtain ⟨m', hm', hst⟩ := hes _ hm
        simp only [Event.platform.injEq] at hm'
        rw [hm'.2, hst] at hcmd
        contradiction
  have hsent' (j : TestCase) (hj : SentFinish j s'.sh.log) : s'.sh.g.performed j = true :=
    hg.performed j (hp.sent j (hsent j hj))
  by_cases hs : ∃ k, s.main = .startTestCase k
  · obtain ⟨k, hm⟩ := hs
    have hno : s.sh.g.performed k = false := by
      by_contra hpk
      have := (hx.performed k (by simpa using hpk)).1
      simp [hm, MainPc.bound] at this
    have hphase : s'.phase.testCase = k ∧ s'.phase.timer.calls = [] := by
      simp only [mainStep, hm, Option.some.injEq] at h
      exact h ▸ ⟨rfl, rfl⟩
    rw [← congrFun hperf] at hno
    refine ⟨?_, ?_, hsent', ?_, ?_⟩ <;> simp [hphase, hno]
  by_cases hc : ∃ k, s.main = .construct k
  · obtain ⟨k, hm⟩ := hc
    have hnil := hp.construct k hm
    have hno : s.sh.g.performed s.phase.testCase = false := by
      by_contra hpk
      simpa [hnil] using hp.called (by simpa using hpk)
    have hphase : s'.phase.testCase = s.phase.testCase ∧ s'.phase.timer.calls = [] := by
      simp only [mainStep, hm, Option.some.injEq] at h
      exact h ▸ ⟨rfl, rfl⟩
    rw [← congrFun hperf] at hno
    refine ⟨?_, ?_, hsent', ?_, ?_⟩ <;> simp [hphase, hno]
  have hc : ∀ k, s.main ≠ .construct k := by simpa using hc
  have hs : ∀ k, s.main ≠ .startTestCase k := by simpa using hs
  obtain ⟨-, -, htimer, htc⟩ := mainStep_grows h hc hs
  refine ⟨?_, ?_, hsent', ?_, fun k hk => absurd hk ((mainStep_inside h hc hs).2.1 k)⟩
  · rw [hperf, htimer, htc]
    exact hp.called
  · rw [hperf, htimer, htc]
    exact hp.flag
  · rw [htimer, htc, hg.enabled]
    exact hp.enabled

/-- A step that leaves the timer and the PERFORMED flags alone. -/
theorem Performing.outside (hp : Performing s) {g : Globals} {ws : List Worker}
    (hg : s.sh.g.Persists g) (hperf : g.performed = s.sh.g.performed) :
    Performing { s with sh := { s.sh with g := g }, phase := { s.phase with workers := ws } } where
  called h := hp.called (by rwa [hperf] at h)
  flag h h' := by rw [hperf]; exact hp.flag h h'
  sent j h := by rw [hperf]; exact hp.sent j h
  enabled h := (hg.enabled _).trans (hp.enabled h)
  construct := hp.construct

theorem Performing.step (hp : Performing s) (ht : Threads env s) (hx : InOrder s) (hc : Created a)
    (h : IasClient.step env a s = some s') : Performing s' := by
  cases step_moved ht.past h with
  | main hm =>
    subst hc
    exact hp.step_main hx hm
  | timer h => exact hp.step_timer ht hx ‹_›
  | worker hw hstep =>
    have he := Worker.run_effect hstep
    exact hp.outside he.grows.toPersists he.keeps_performed
  | stop => exact hp.outside (step_persists ht.past h) rfl
  | clock now => exact hp.outside (step_persists ht.past h) rfl

theorem Dropping.congr {g g' : Globals} (hd : Dropping g t) (hg : g.Persists g')
    (hs : g'.timerStopped = g.timerStopped) : Dropping g' t where
  kinds := hd.kinds
  hasError h := (hd.hasError h).imp_right hg.hasError
  exclusive := hd.exclusive
  pending h := by
    have := hd.pending h
    have := hg.running
    have := hg.streamsDropped
    rw [hs]
    tauto
  once := hd.once

theorem dropping_of_no_calls (g : Globals) (hc : t.calls = []) (hd : t.drops = [])
    (hs : t.streamsDroppedSignaled = false) : Dropping g t := by
  constructor <;> simp [Timer.SeenDrop, hc, hd, hs]

/-- `Dropping` for the current test case. -/
def Drops (s : Sys) : Prop :=
  s.phase.testCase = .download ∨ s.phase.testCase = .upload → Dropping s.sh.g s.phase.timer

theorem Drops.step_main (hd : Drops s) (h : mainStep env true s = some s') : Drops s' := by
  intro hk
  by_cases hc : ∃ k, s.main = .construct k
  · obtain ⟨k, hm⟩ := hc
    simp only [mainStep, hm, Option.some.injEq] at h
    subst h
    exact dropping_of_no_calls _ rfl rfl rfl
  by_cases hs : ∃ k, s.main = .startTestCase k
  · obtain ⟨k, hm⟩ := hs
    simp only [mainStep, hm, Option.some.injEq] at h
    subst h
    exact dropping_of_no_calls _ rfl rfl rfl
  obtain ⟨hg, hkept, htimer, htc⟩ := mainStep_grows h (by simpa using hc) (by simpa using hs)
  rw [htimer]
  exact (hd (htc ▸ hk)).congr hg.toPersists hkept.timerStopped

theorem Drops.step (hd : Drops s) (ht : Threads env s) (ho : Window s) (hc : Created a)
    (h : IasClient.step env a s = some s') : Drops s' := by
  cases step_moved ht.past h with
  | main hm =>
    subst hc
    exact hd.step_main hm
  | timer hstep => exact fun hk => (hd hk).step_timer hk ht.timer (ho hk) hstep
  | worker hj hstep =>
    intro hk
    have he := Worker.run_effect hstep
    obtain ⟨h1, -, -⟩ := he.keeps_window (by rcases hk with hk | hk <;> simp_all)
    exact (hd hk).congr he.grows.toPersists h1
  | stop => exact fun hk => (hd hk).congr (step_persists ht.past h) rfl
  | clock now => exact fun hk => (hd hk).congr (step_persists ht.past h) rfl

variable {rtt download upload : Bool} {old : Globals}

theorem Performing.run
    (h : Run (IasClient.step env) (fun _ a => Created a)
      (measurementStart rtt download upload old) s) : InOrder s ∧ Performing s := by
  refine Run.invariant_of (I := fun t => InOrder t ∧ Performing t)
    (J := Threads env) (fun t hr => Threads.run (fun _ _ h => h) hr) ?_
    ⟨measurementStart_inOrder .., ?_⟩ h
  · intro t a u ht _ ⟨hx, hp⟩ hc hs
    exact ⟨hx.step ht hc hs, hp.step ht hx hc hs⟩
  · constructor <;>
      simp [measurementStart, SentFinish, Globals.performed]

theorem Drops.run
    (h : Run (IasClient.step env) (fun _ a => Created a)
      (measurementStart rtt download upload old) s) : Drops s := by
  refine Run.invariant_of (J := fun t => Threads env t ∧ Window t)
    (fun t hr => ⟨Threads.run (fun _ _ h => h) hr, Window.run (fun _ _ h => h) hr⟩) ?_ ?_ h
  · exact fun t a u ⟨ht, ho⟩ _ hd hc hs => hd.step ht ho hc hs
  · exact fun _ => dropping_of_no_calls _ rfl rfl rfl

theorem countP_error9 (calls : List Call) :
    calls.countP (fun c => c.cmd == .error && c.errorCode == 9) = calls.count .streamsDropped := by
  rw [List.count]
  congr 1
  funext c
  cases c <;> rfl

/-- A drop seen by the finish alone ends in PERFORMED. -/
theorem Performing.of_finish_drop (hp : Performing s) (hret : s.phase.timer.pc = .returned)
    (hfin : .finish ∈ s.phase.timer.calls) : s.sh.g.performed s.phase.testCase = true :=
  hp.flag hfin (by rw [hret]; rfl)

/-- Of a Download or Upload test whose timer has returned with RUNNING still true, and in which a
step of a report or of the finish found no live stream: it ends in exactly one error 9, without
PERFORMED, a finish or `completed`, exactly when a report was among the calls that found none. -/
theorem drop_ends_in_error (env : Env) (rtt download upload : Bool) (old : Globals)
    (h : Run (step env) (fun _ a => Created a) (measurementStart rtt download upload old) s)
    (hk : s.phase.testCase = .download ∨ s.phase.testCase = .upload)
    (hret : s.phase.timer.pc = .returned) (hrun : s.sh.g.running = true)
    (hdrop : s.phase.timer.drops ≠ []) :
    (s.phase.timer.calls.countP (fun c => c.cmd == .error && c.errorCode == 9) = 1 ∧
      s.sh.g.performed s.phase.testCase = false ∧ ¬ SentFinish s.phase.testCase s.sh.log ∧
      ¬ Completed s.sh.log) ↔ .report ∈ s.phase.timer.drops := by
  obtain ⟨hx, hp⟩ := Performing.run h
  have hd := Drops.run h hk
  rw [countP_error9]
  constructor
  · rintro ⟨-, hno, -, -⟩
    obtain ⟨c, hc⟩ := List.exists_mem_of_ne_nil _ hdrop
    obtain ⟨hcall, rfl | rfl⟩ := hd.kinds c hc
    · exact hc
    · simp [hp.of_finish_drop hret hcall] at hno
  · intro hseen
    have hsig : .streamsDropped ∈ s.phase.timer.calls := by
      have := hd.pending hseen
      simp only [hret, hrun, TimerPc.afterReport] at this
      simpa using this
    have hone : s.phase.timer.calls.count .streamsDropped = 1 := by
      have hpos := List.count_pos_iff.mpr hsig
      have := hd.once
      split at this <;> omega
    have hno : s.sh.g.performed s.phase.testCase = false := by
      by_contra hperf
      exact hd.exclusive hseen (hp.called (by simpa using hperf))
    have hsent : ¬ SentFinish s.phase.testCase s.sh.log := by
      intro hs
      simp [hp.sent _ hs] at hno
    refine ⟨hone, hno, hsent, ?_⟩
    rintro ⟨e, he, hcmd⟩
    obtain ⟨l₁, l₂, hl⟩ := List.append_of_mem he
    have hen := hp.enabled (List.ne_nil_of_mem hsig)
    have hfin := (hx.closed l₁ e l₂ hl hcmd).2 _ hen
    exact hsent (hl ▸ hfin.append (e :: l₂))

/-- A measurement with one stream and a window of one second. -/
def Env.oneStream : Env :=
  { Env.default with readLong := fun key value =>
      if key = "TLS" then 0 else if key = "DL_STREAMS" ∨ key = "DL_DURATION" then 1 else value }

/-- After the ip test a download whose only stream fails in its second `receive`; the clock then
shows `now`, and the timer does `n` steps. -/
def downloadDropped (now : UInt64) (n : Nat) : List Action :=
  List.replicate 8 (Action.main true) ++ List.replicate 8 (Action.worker 0 {}) ++
    [Action.worker 0 { code := 5 }] ++ List.replicate 4 (Action.worker 0 {}) ++
    List.replicate 17 Action.timer ++ [Action.clock 600000] ++ List.replicate 27 Action.timer ++
    List.replicate 16 (Action.main true) ++ List.replicate 9 (Action.worker 0 {}) ++
    [Action.worker 0 { code := 5 }] ++ List.replicate 6 (Action.worker 0 {}) ++
    [Action.worker 0 { code := -1 }, .worker 0 {}] ++ List.replicate 18 Action.timer ++
    [Action.clock now] ++ List.replicate n Action.timer

set_option maxRecDepth 2000 in
theorem drop_ends_in_error_inReport : ∃ s : Sys, s.phase.timer.drops = [.report] ∧
    (s.phase.timer.calls.countP (fun c => c.cmd == .error && c.errorCode == 9) = 1 ∧
      s.sh.g.performed s.phase.testCase = false ∧ ¬ SentFinish s.phase.testCase s.sh.log ∧
      ¬ Completed s.sh.log) := by
  have h := drop_ends_in_error Env.oneStream false true false Globals.default
    (run_of_exec (downloadDropped 1200000 29) rfl) (.inl rfl) rfl rfl (by decide)
  exact ⟨_, by decide, h.mpr (by decide)⟩

set_option maxRecDepth 2000 in
/-- The window has ended before the first report: only the finish sees the drop. -/
theorem dropSeenByFinish_completes : ∃ s : Sys,
    Run (step Env.oneStream) (fun _ a => Created a)
      (measurementStart false true false Globals.default) s ∧
    s.phase.testCase = .download ∧ s.phase.timer.pc = .returned ∧ s.sh.g.running = true ∧
    s.phase.timer.drops ≠ [] ∧
    s.phase.timer.calls.countP (fun c => c.cmd == .error && c.errorCode == 9) = 0 ∧
    s.sh.g.performed s.phase.testCase = true ∧ SentFinish s.phase.testCase s.sh.log :=
  ⟨_, run_of_exec (downloadDropped 1700000 33) rfl, rfl, rfl, rfl, by decide, by decide, rfl,
    ⟨_, .tail _ (.tail _ (.tail _ (.tail _ (.tail _ (.tail _ (.tail _ (.tail _ (.head _)))))))), rfl⟩⟩

end IasClient
