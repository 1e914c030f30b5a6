import IasClient.Framework.Simulation
import IasClient.Control.Dropped
import IasClient.Control.Exclusive
import IasClient.Control.Barrier

namespace IasClient

open Framework

/-- What the platform has been told about a test case. -/
inductive TestStage
  | entered
  | opened
  | starting
  | measuring
  | failed
  | dropped
  | finished (erred : Bool)
  | completed
  deriving DecidableEq

namespace TestStage

/-- The calls of `callback` that may come next. -/
def next : TestStage → Call → Option TestStage
  | .opened, .starting => some .starting
  | .starting, .started => some .measuring
  | .measuring, .report => some .measuring
  | .measuring, .streamsDropped => some .dropped
  | .opened, .unreachable | .opened, .forbidden | .opened, .tlsParametersMissing => some .failed
  | .measuring, .unreachable | .measuring, .forbidden | .measuring, .tlsParametersMissing =>
    some .failed
  | .opened, .finish | .measuring, .finish => some (.finished false)
  | .failed, .finish => some (.finished true)
  | _, _ => none

def isFinished : TestStage → Bool
  | .finished _ | .completed => true
  | _ => false

end TestStage

/-- The header of a message. -/
structure Message.Heads (m : Message) (k : TestCase) (cmd : Cmd) (msg : String) (errorCode : Int)
    (errorDescription : String) (phase : MeasurementPhase) : Prop where
  cmd : m.cmd = cmd
  msg : m.msg = msg
  testCase : m.testCase = k
  error : m.error = if errorCode = 0 then none else some (errorCode, errorDescription)
  phase : m.currentTestPhase = phase

/-- `k` is the first enabled test case after `j`. -/
def Follows (enabled : TestCase → Bool) (j k : TestCase) : Prop :=
  j.number < k.number ∧ enabled k = true ∧
    ∀ i, enabled i = true → i.number < k.number → i.number ≤ j.number

def Last (enabled : TestCase → Bool) (k : TestCase) : Prop :=
  ∀ i, enabled i = true → i.number ≤ k.number

/-- What a platform may expect to be told: the state is the test case last started, with its
stage. -/
inductive Protocol (enabled : TestCase → Bool) (mobile : Bool) :
    Option (TestCase × TestStage) → Event → Option (TestCase × TestStage) → Prop
  | first : Protocol enabled mobile none (.startTestCase .ip)
      (some (.ip, if mobile then .entered else .opened))
  | next {j k : TestCase} (h : Follows enabled j k) :
      Protocol enabled mobile (some (j, .finished false)) (.startTestCase k)
        (some (k, if mobile then .entered else .opened))
  | started {k : TestCase} {m : Message} (hm : m.Heads k .started "" 0 "" k.phase) :
      Protocol enabled mobile (some (k, .entered)) (.platform k m) (some (k, .opened))
  | call {k : TestCase} {q r : TestStage} {c : Call} {m : Message} (hc : q.next c = some r)
      (hm : m.Heads k c.cmd c.msg c.errorCode c.errorDescription k.phase) :
      Protocol enabled mobile (some (k, q)) (.platform k m) (some (k, r))
  | completed {k : TestCase} {erred : Bool} {m : Message} (hl : Last enabled k)
      (hm : m.Heads k .completed Call.finish.msg 0 "" .END) :
      Protocol enabled mobile (some (k, .finished erred)) (.platform k m) (some (k, .completed))

/-- The positions behind the message of the finish call. -/
def CallbackPc.sent : CallbackPc → Bool
  | .ifCompleted | .completed => true
  | _ => false

namespace TestStage

/-- The positions at which the timer may be in each stage. -/
def fits : TestStage → TimerPc → Bool
  | .entered, _ => false
  | .opened, p => match p with
    | .outerRunning | .outerStopped | .ifUnreachable | .ifForbidden | .ifTlsParametersMissing
    | .ifTimerRunning | .countSynced | .finishRunning | .finishError | .clearActive | .returned
    | .aborted => true
    | .callback c p => !p.sent && c != .started && c != .streamsDropped && c != .report
    | _ => false
  | .starting, p => match p with
    | .callback c p => !p.sent && c == .started
    | _ => false
  | .measuring, p => match p with
    | .countSynced | .errorStop | .dropStop => false
    | .callback c p => !p.sent && c != .starting && c != .started
    | _ => true
  | .failed, p => match p with
    | .errorStop | .finishRunning | .finishError | .clearActive | .returned | .aborted => true
    | .callback c p => !p.sent && c == .finish
    | _ => false
  | .dropped, p => match p with
    | .dropStop | .outerRunning | .outerStopped | .finishRunning | .finishError | .clearActive
    | .returned => true
    | _ => false
  | .finished _, p => match p with
    | .clearActive | .returned => true
    | .callback c p => p.sent && c == .finish
    | _ => false
  | .completed, p => match p with
    | .clearActive | .returned => true
    | _ => false

/-- What the globals say in each stage. -/
def Holds (g : Globals) (p : TimerPc) : TestStage → Prop
  | .opened => p = .returned ∨ g.timerRunning = false
  | .measuring => p = .setTimerRunning ∨ g.timerRunning = true
  | .failed => g.reason
  | .dropped => g.hasError = true ∧ (p = .dropStop ∨ g.timerStopped = true)
  | .finished erred => erred = true → g.reason
  | _ => True

end TestStage

variable {env : Env} {k : TestCase} {s s' : Sys} {a : Action} {sh sh' : Shared} {t t' : Timer}
variable {objects : List Worker}

theorem TestStage.Holds.grows {st : TestStage} {g g' : Globals} {p : TimerPc} (h : st.Holds g p)
    (hg : g.Grows g') (hr : g'.timerRunning = g.timerRunning) : st.Holds g' p := by
  cases st with
  | opened => exact h.imp_right hr.trans
  | measuring => exact h.imp_right hr.trans
  | failed => exact hg.toPersists.reason h
  | dropped => exact ⟨hg.hasError h.1, h.2.imp_right hg.timerStopped⟩
  | finished f => exact fun hf => hg.toPersists.reason (h hf)
  | entered | starting | completed => trivial

/-- A step between two messages inside a call. -/
theorem CCallback.callback_quiet {c : Call} {p : CallbackPc} (hp : t.pc = .callback c p)
    (hw : t.Wf k) (hq : p ≠ .toPlatform ∧ p ≠ .completed)
    (h : CCallback.callback env k objects c p sh t = some (sh', t')) :
    sh'.g.timerRunning = sh.g.timerRunning ∧
      ((∃ q, t'.pc = .callback c q ∧ q.sent = p.sent) ∨
        t'.pc = .aborted ∧ p.sent = false ∧ (c = .report ∨ c = .finish) ∨
        t'.pc = .clearActive ∧ p.sent = true ∧ c = .finish) := by
  have hin := (hw.called c p hp).2
  have hst : c.stored.sent = false := by
    cases c <;> rfl
  have habort (hin : CallbackPc.visit.within k c = true) : c = .report ∨ c = .finish := by
    simp only [CallbackPc.within, Bool.and_eq_true, Bool.or_eq_true, beq_iff_eq] at hin
    exact hin.1
  cases p <;> simp only [CCallback.callback, Timer.goto] at h
  case toPlatform => exact absurd rfl hq.1
  case completed => exact absurd rfl hq.2
  case performed =>
    obtain ⟨rfl, rfl⟩ := Prod.mk.inj (Option.some.inj h)
    exact ⟨by cases hm : sh.cb.mTestCase <;> rfl, .inl ⟨_, rfl, rfl⟩⟩
  case ifCompleted =>
    have hfin : c = .finish := eq_of_beq hin
    split at h <;> obtain ⟨rfl, rfl⟩ := Prod.mk.inj (Option.some.inj h)
    · exact ⟨rfl, .inl ⟨_, rfl, rfl⟩⟩
    · exact ⟨rfl, .inr (.inr ⟨by rw [hfin]; rfl, rfl, hfin⟩)⟩
  all_goals repeat' (split at h)
  all_goals
    obtain ⟨rfl, rfl⟩ := Prod.mk.inj (Option.some.inj h)
    refine ⟨rfl, ?_⟩
  all_goals
    first
      | exact .inl ⟨_, rfl, rfl⟩
      | exact .inl ⟨_, rfl, hst⟩
      | exact .inl ⟨_, hp, rfl⟩
      | exact .inr (.inl ⟨rfl, rfl, habort hin⟩)

/-- Between two messages the stage stays. -/
theorem CTimer.run_quiet {st : TestStage} (hw : t.Wf k) (hf : st.fits t.pc = true)
    (hh : st.Holds sh.g t.pc)
    (hq : ∀ c, t.pc ≠ .callback c .toPlatform ∧ t.pc ≠ .callback c .completed)
    (h : CTimer.run env k objects sh t = some (sh', t')) :
    st.fits t'.pc = true ∧ st.Holds sh'.g t'.pc := by
  have hg := (CTimer.run_effect h).grows.1
  cases hp : t.pc <;> simp only [CTimer.run, hp, Timer.goto] at h
  case callback c p =>
    obtain ⟨hr, hpc⟩ := CCallback.callback_quiet hp hw
      ⟨fun he => (hq c).1 (hp.trans (congrArg _ he)),
        fun he => (hq c).2 (hp.trans (congrArg _ he))⟩ h
    have hh' := hh.grows hg hr
    rw [hp] at hf hh'
    rcases hpc with ⟨q, hq, hs⟩ | ⟨ha, hs, hc⟩ | ⟨hl, hs, rfl⟩
    · rw [hq]
      cases st <;> simp_all [TestStage.fits, TestStage.Holds]
    · rw [ha]
      rcases hc with rfl | rfl <;> cases st <;> simp_all [TestStage.fits, TestStage.Holds]
    · rw [hl]
      cases st <;> simp_all [TestStage.fits, TestStage.Holds]
  all_goals repeat' (split at h)
  all_goals try contradiction
  all_goals
    obtain ⟨rfl, rfl⟩ := Prod.mk.inj (Option.some.inj h)
    cases st <;> simp_all [TestStage.fits, TestStage.Holds, Timer.call, CallbackPc.sent]
  all_goals exact hh

/-- A message of a call is one that the stage admits. -/
theorem TestStage.emitted {st : TestStage} {c : Call} {g : Globals}
    (hf : st.fits (.callback c .toPlatform) = true) (hh : st.Holds g (.callback c .toPlatform))
    (hr : c.cmd = .error → g.reason) (hd : c = .streamsDropped → g.hasError = true)
    (ht : t' = if c = .finish then { t with pc := .callback c .ifCompleted } else t.resume c) :
    ∃ r, st.next c = some r ∧ r.fits t'.pc = true ∧ r.Holds g t'.pc ∧
      st.isFinished = false ∧ (c.cmd = .finish → r.isFinished = true) ∧ r ≠ .completed := by
  subst ht
  cases st <;> cases c <;>
    simp_all [TestStage.fits, TestStage.Holds, TestStage.next, TestStage.isFinished, Timer.resume,
      Timer.call, Call.cmd, CallbackPc.sent]

/-- The relation between a state of the measurement and what the platform has been told, in a test
case that has started. -/
structure Telling (s : Sys) (k : TestCase) (st : TestStage) : Prop where
  testCase : s.phase.testCase = k
  started : k ∈ starts s.sh.log
  sent : ∀ j, SentFinish j s.sh.log → j.number < k.number ∨ j = k ∧ st.isFinished = true
  completed : st = .completed → Completed s.sh.log
  fits : st.fits s.phase.timer.pc = true
  holds : st.Holds s.sh.g s.phase.timer.pc

structure Told (enabled : TestCase → Bool) (s : Sys) (q : Option (TestCase × TestStage)) :
    Prop where
  silent : q = none → s.sh.log = [] ∧ s.phase.timer.pc = .returned
  telling : ∀ k st, q = some (k, st) → Telling s k st
  construct : ∀ k, s.main = .construct k → q = some (k, .opened)
  phase : ∀ k, s.main.inside = some k →
    s.main = .construct k ∨ s.phase.timer.pc ≠ .clearActive ∧ s.phase.timer.pc ≠ .returned →
    s.sh.g.currentTestPhase = k.phase
  opened : ∀ k, s.main = .startTestCase k → k ≠ .ip → s.sh.g.hasError = false
  dropped : s.sh.g.streamsDropped = true → s.sh.g.hasError = true
  erring : ∀ c p, s.phase.timer.pc = .callback c p → c.cmd = .error →
    s.sh.g.reason ∧ (c = .streamsDropped → s.sh.g.streamsDropped = true)
  enabled : s.sh.g.enabled = enabled

variable {enabled : TestCase → Bool} {q : Option (TestCase × TestStage)}

theorem Call.Cause.erring {c : Call} {g : Globals} (h : c.Cause g t) (he : c.cmd = .error) :
    g.reason ∧ (c = .streamsDropped → g.streamsDropped = true) := by
  refine ⟨h.reason he, ?_⟩
  rintro rfl
  exact h.2

/-- `currentTestPhase` changes with the last message alone. -/
theorem Timer.Effect.keeps_currentTestPhase (h : Timer.Effect k t t' sh sh') (hw : t.Wf k)
    (ht : t'.pc ≠ .clearActive) : sh'.g.currentTestPhase = sh.g.currentTestPhase := by
  cases h
  case performed => cases hm : sh.cb.mTestCase <;> rfl
  case completed c h h' =>
    have hc : c = .finish := eq_of_beq (hw.called c _ h).2
    rw [h', hc] at ht
    contradiction
  all_goals rfl

/-- What the timer does to `streamsDropped` and `hasError`. -/
theorem Timer.Effect.drops (h : Timer.Effect k t t' sh sh')
    (hd : sh.g.streamsDropped = true → sh.g.hasError = true)
    (hf : ∀ c, t.pc = .callback c .dropFlag → sh.g.hasError = true)
    (hs : sh'.g.streamsDropped = true) : sh'.g.hasError = true := by
  cases h
  case streamsDropped c h _ => exact hf c h
  case hasError => rfl
  case performed => cases hm : sh.cb.mTestCase <;> simp_all [Globals.setPerformed]
  all_goals exact hd hs

/-- The header of the message that a call sends. -/
theorem message_heads {g : Globals} {cb : CCallback} {cmd : Cmd} {msg : String} {errorCode : Int}
    {errorDescription : String} (hk : g.nTestCase = k) :
    (message g cb cmd msg errorCode errorDescription).Heads k cmd msg errorCode errorDescription
      g.currentTestPhase :=
  ⟨rfl, rfl, hk, rfl, rfl⟩

/-- The timer enters a call where it makes it. -/
theorem CTimer.run_enters {c : Call} {p : CallbackPc} (hp : t'.pc = .callback c p)
    (h : CTimer.run env k objects sh t = some (sh', t')) :
    (∃ p', t.pc = .callback c p') ∨ t'.calls = t.calls ++ [c] := by
  cases hpc : t.pc <;> simp only [CTimer.run, hpc, Timer.goto] at h
  case callback d p' =>
    cases p' <;> simp only [CCallback.callback, Timer.goto] at h
    all_goals repeat' (split at h)
    all_goals obtain ⟨rfl, rfl⟩ := Prod.mk.inj (Option.some.inj h)
    all_goals try cases d
    all_goals simp_all [Timer.resume, Timer.call]
  all_goals repeat' (split at h)
  all_goals try contradiction
  all_goals
    obtain ⟨rfl, rfl⟩ := Prod.mk.inj (Option.some.inj h)
    simp_all [Timer.call]

theorem Told.erring_step (hT : Told enabled s q)
    (hw : s.phase.timer.Wf s.phase.testCase)
    (h : CTimer.run env s.phase.testCase s.phase.objects s.sh s.phase.timer = some (sh, t)) :
    ∀ c p, t.pc = .callback c p → c.cmd = .error →
      sh.g.reason ∧ (c = .streamsDropped → sh.g.streamsDropped = true) := by
  intro c p hp he
  have hg := (CTimer.run_effect h).grows.1.toPersists
  have hold : s.sh.g.reason ∧ (c = .streamsDropped → s.sh.g.streamsDropped = true) := by
    rcases CTimer.run_enters hp h with ⟨p', hp'⟩ | hc
    · exact hT.erring c p' hp' he
    · rcases CTimer.run_calls hw h with hc' | ⟨d, hd, -, hcause, -⟩
      · simp [hc'] at hc
      · obtain rfl : c = d := by simpa [hd] using hc.symm
        exact hcause.erring he
  exact ⟨hg.reason hold.1, fun hc => hg.streamsDropped (hold.2 hc)⟩

/-- The test case is the last one, if every enabled one has been performed. -/
theorem InOrder.last (hx : InOrder s) (ht : Threads env s) {c : Call}
    (hp : s.phase.timer.pc = .callback c .completed) : Last s.sh.g.enabled s.phase.testCase := by
  intro j hj
  obtain ⟨l, hin, -⟩ := ht.timer_inside (by simp [hp])
  have hbound := (hx.performed j (hx.completing c hp j hj)).1
  rw [(ht.testCase l hin).1]
  cases hm : s.main <;> simp only [hm, MainPc.inside, Option.some.injEq, reduceCtorEq] at hin <;>
    simp only [hm, MainPc.bound] at hbound <;> subst hin <;> omega

theorem Telling.append {st st' : TestStage} {m : Message} (hk : Telling s k st) {g : Globals}
    {cb : CCallback}
    (hsent : st.isFinished = true ∨ m.cmd = .finish → st'.isFinished = true)
    (hcomp : st' = .completed → m.cmd = .completed)
    (hf : st'.fits t.pc = true) (hh : st'.Holds g t.pc) :
    Telling { s with
      sh := { g := g, cb := cb, log := s.sh.log ++ [.platform k m] }
      phase := { s.phase with timer := t } } k st' := by
  refine ⟨hk.testCase, ?_, fun j hj => ?_, fun hc => ?_, hf, hh⟩
  · rw [starts_append]
    exact List.mem_append_left _ hk.started
  · rcases sentFinish_append hj with hj | ⟨m', hm', hcmd⟩
    · exact (hk.sent j hj).imp_right fun h => ⟨h.1, hsent (.inl h.2)⟩
    · obtain ⟨rfl, rfl⟩ := Event.platform.inj (List.mem_singleton.mp hm')
      exact .inr ⟨rfl, hsent (.inr hcmd)⟩
  · exact completed_append.mpr (.inr ⟨_, List.mem_singleton.mpr rfl, congrArg some (hcomp hc)⟩)

theorem CTimer.run_emits {c : Call} (hp : t.pc = .callback c .toPlatform)
    (h : CTimer.run env k objects sh t = some (sh', t')) :
    sh' = callbackToPlatform k c.cmd c.msg c.errorCode c.errorDescription sh ∧
      t' = if c = .finish then { t with pc := .callback c .ifCompleted } else t.resume c := by
  simp only [CTimer.run, hp, CCallback.callback, Timer.goto] at h
  split at h <;> rename_i hc <;> obtain ⟨rfl, rfl⟩ := Prod.mk.inj (Option.some.inj h)
  · exact ⟨rfl, (if_pos hc).symm⟩
  · exact ⟨rfl, (if_neg hc).symm⟩

/-- What the timer says of a test case is what the protocol admits. -/
theorem Telling.step_timer {st : TestStage} (mobile : Bool) (hk : Telling s k st)
    (hT : Told enabled s (some (k, st))) (ht : Threads env s) (hx : InOrder s)
    (h : CTimer.run env s.phase.testCase s.phase.objects s.sh s.phase.timer = some (sh, t)) :
    ∃ es st', sh.log = s.sh.log ++ es ∧
      Path (Protocol enabled mobile) (some (k, st)) es (some (k, st')) ∧
      Telling { s with sh := sh, phase := { s.phase with timer := t } } k st' := by
  obtain ⟨l, hin, hcon⟩ := ht.timer_inside (CTimer.run_moves h)
  obtain ⟨hl, hn, -⟩ := ht.testCase l hin
  obtain rfl : l = k := hl.symm.trans hk.testCase
  have hfits := hk.fits
  have hholds := hk.holds
  by_cases hemit : ∃ c, s.phase.timer.pc = .callback c .toPlatform
  · obtain ⟨c, hp⟩ := hemit
    have hphase := hT.phase l hin (.inr (by simp [hp]))
    rw [hp] at hfits hholds
    rw [hl] at h
    obtain ⟨rfl, htimer⟩ := CTimer.run_emits hp h
    obtain ⟨r, hnext, hf, hh, hno, hfin, hr⟩ := TestStage.emitted hfits hholds
      (fun he => (hT.erring c _ hp he).1)
      (fun hc => hT.dropped ((hT.erring c _ hp (by rw [hc]; rfl)).2 hc)) htimer
    have hm : (message s.sh.g s.sh.cb c.cmd c.msg c.errorCode c.errorDescription).Heads l c.cmd
        c.msg c.errorCode c.errorDescription l.phase := hphase ▸ message_heads hn
    exact ⟨_, r, rfl, .single (.call hnext hm),
      hk.append (fun h => h.elim (fun h => absurd h (by simp [hno])) hfin) (fun h => absurd h hr)
        hf hh⟩
  by_cases hcomp : ∃ c, s.phase.timer.pc = .callback c .completed
  · obtain ⟨c, hp⟩ := hcomp
    have hc : c = .finish := eq_of_beq (ht.timer.called c _ hp).2
    subst hc
    obtain ⟨f, rfl⟩ : ∃ f, st = .finished f := by
      rw [hp] at hfits
      cases st <;> simp [TestStage.fits, CallbackPc.sent] at hfits ⊢
    have hlast := hx.last ht hp
    rw [hT.enabled, hl] at hlast
    simp only [CTimer.run, hp, CCallback.callback, hl] at h
    obtain ⟨rfl, rfl⟩ := Prod.mk.inj (Option.some.inj h)
    exact ⟨_, .completed, rfl, .single (.completed hlast (message_heads hn)),
      hk.append (fun _ => rfl) (fun _ => rfl) rfl trivial⟩
  · have hlog : sh.log = s.sh.log := by
      rcases (CTimer.run_effect h).log with hlog | ⟨m, c, -, ⟨hp, -⟩ | ⟨hp, -⟩⟩
      · exact hlog
      · exact absurd ⟨c, hp⟩ hemit
      · exact absurd ⟨c, hp⟩ hcomp
    obtain ⟨hf, hh⟩ := CTimer.run_quiet ht.timer hk.fits hk.holds
      (fun c => ⟨fun hp => hemit ⟨c, hp⟩, fun hp => hcomp ⟨c, hp⟩⟩) h
    refine ⟨[], st, by simp [hlog], .nil, hk.testCase, ?_, ?_, ?_, hf, hh⟩
    · exact hlog ▸ hk.started
    · exact hlog ▸ hk.sent
    · exact hlog ▸ hk.completed

theorem Told.step_timer (mobile : Bool) (hT : Told enabled s q) (ht : Threads env s)
    (hx : InOrder s) (ho : Owing s)
    (h : CTimer.run env s.phase.testCase s.phase.objects s.sh s.phase.timer = some (sh, t)) :
    ∃ es q', sh.log = s.sh.log ++ es ∧ Path (Protocol enabled mobile) q es q' ∧
      Told enabled { s with sh := sh, phase := { s.phase with timer := t } } q' := by
  obtain ⟨l, hin, hcon⟩ := ht.timer_inside (CTimer.run_moves h)
  have he := CTimer.run_effect h
  have hg := he.grows.1.toPersists
  have hcon' (j : TestCase) (hj : s.main = .construct j) : False := by
    rw [hj] at hin
    exact hcon (hj.trans (congrArg _ (Option.some.inj hin)))
  cases q with
  | none => exact absurd (hT.silent rfl).2 (CTimer.run_moves h)
  | some p =>
    obtain ⟨k, st⟩ := p
    obtain ⟨es, st', hlog, hpath, hk⟩ :=
      (hT.telling k st rfl).step_timer mobile hT ht hx h
    refine ⟨es, _, hlog, hpath, ⟨by simp, ?_, fun j hj => (hcon' j hj).elim, ?_, ?_, ?_, ?_, ?_⟩⟩
    · rintro _ _ ⟨⟩
      exact hk
    · rintro j hj (hpc | ⟨hc, hret⟩)
      · exact (hcon' j hpc).elim
      · rw [he.keeps_currentTestPhase ht.timer hc]
        exact hT.phase j hj
          (.inr ⟨fun hp => hret (CTimer.run_clearActive hp h), CTimer.run_moves h⟩)
    · intro j hj
      change s.main = _ at hj
      simp [hj, MainPc.inside] at hin
    · exact he.drops hT.dropped ho.dropFlag
    · exact hT.erring_step ht.timer h
    · exact (funext hg.enabled).trans hT.enabled

theorem Told.step_worker (hT : Told enabled s q) (ht : Threads env s) {j : Nat} {o : Outcome}
    {w w' : Worker} {g : Globals} (hw : s.phase.workers[j]? = some w)
    (h : Worker.run env s.phase.testCase o s.sh.g w = some (g, w')) (ws : List Worker) :
    Told enabled { s with
      sh := { s.sh with g := g }, phase := { s.phase with workers := ws } } q := by
  have he := Worker.run_effect h
  have hg := he.grows
  obtain ⟨l, hin, -⟩ := ht.worker_inside (List.mem_of_getElem? hw) (Worker.run_kept h).moves
  have hkeep : g.currentTestPhase = s.sh.g.currentTestPhase ∧
      g.streamsDropped = s.sh.g.streamsDropped := by
    cases he <;> exact ⟨rfl, rfl⟩
  refine ⟨hT.silent, fun k st hq => ?_, hT.construct, ?_, ?_, ?_, ?_, ?_⟩
  · obtain ⟨h1, h2, h3, h4, h5, h6⟩ := hT.telling k st hq
    exact ⟨h1, h2, h3, h4, h5, h6.grows hg he.keeps_timerRunning⟩
  · exact fun k hin hpc => hkeep.1.trans (hT.phase k hin hpc)
  · intro k hk
    change s.main = _ at hk
    simp [hk, MainPc.inside] at hin
  · exact fun hd => hg.hasError (hT.dropped (hkeep.2 ▸ hd))
  · intro c p hp hc
    obtain ⟨hr, hd⟩ := hT.erring c p hp hc
    exact ⟨hg.toPersists.reason hr, fun hs => hkeep.2 ▸ hd hs⟩
  · exact (funext hg.enabled).trans hT.enabled

/-- A test case starts first, or after the finish of the one before it. -/
theorem Told.admits_startTestCase (mobile : Bool) (hT : Told enabled s q) (ht : Threads env s)
    (hx : InOrder s) (ho : Owing s) (hm : s.main = .startTestCase k) :
    Protocol enabled mobile q (.startTestCase k)
      (some (k, if mobile then .entered else .opened)) := by
  have hj := ht.joined
  simp only [Joined, hm] at hj
  have hb := hx.before k (.inl hm)
  cases q with
  | none =>
    have hk : k = .ip := by
      by_contra hne
      obtain ⟨m, hmem, -⟩ := (hb .ip rfl (by cases k <;> simp_all [TestCase.number])).2
      simp [(hT.silent rfl).1] at hmem
    subst hk
    exact .first
  | some p =>
    obtain ⟨j, st⟩ := p
    have hk := hT.telling j st rfl
    obtain ⟨hlt, hen⟩ := hx.started j hk.started
    simp only [hm, MainPc.bound] at hlt
    have hne : k ≠ .ip := by
      rintro rfl
      cases j <;> simp [TestCase.number] at hlt
    have herr := hT.opened k hm hne
    have hst : st = .finished false := by
      have hfin := (hk.sent j (hb j hen hlt).2).resolve_left (lt_irrefl _)
      have hholds := hk.holds
      cases st with
      | finished erred =>
        cases erred with
        | false => rfl
        | true => simp [ho.hasError hj.2 (hholds rfl)] at herr
      | completed =>
        have hopen := (hx.completed (hk.completed rfl)).2.2
        simp [hm, MainPc.opening] at hopen
      | _ => simp [TestStage.isFinished] at hfin
    subst hst
    refine .next ⟨hlt, ?_, fun i hi hik => ?_⟩
    · exact hT.enabled ▸ hx.entered k (by simp [hm, MainPc.entered])
    · rcases hk.sent i (hb i (hT.enabled ▸ hi) hik).2 with h | ⟨rfl, -⟩
      · exact h.le
      · exact le_refl _

/-- No finish of a test case is in the log when it starts, and its start adds none. -/
theorem sentFinish_startTestCase {es : List Event} (hx : InOrder s) (hp : Performing s)
    (hm : s.main = .startTestCase k) (hes : ∀ e ∈ es, ∃ m, e = .platform k m ∧ m.cmd = .started)
    {j : TestCase} (hj : SentFinish j (s.sh.log ++ Event.startTestCase k :: es)) :
    j.number < k.number := by
  rcases sentFinish_append hj with hj | ⟨m, hmem, hcmd⟩
  · simpa [hm, MainPc.bound] using (hx.performed j (hp.sent j hj)).1
  · exact absurd ⟨_, hmem, congrArg some hcmd⟩ (startTestCase_cmds hes .finish (by simp))

theorem Told.step_startTestCase (hT : Told enabled s q) (ht : Threads env s) (hx : InOrder s)
    (hp : Performing s) (ho : Owing s) (hm : s.main = .startTestCase k)
    (h : mainStep env true s = some s') :
    ∃ es q', s'.sh.log = s.sh.log ++ es ∧ Path (Protocol enabled env.mobile) q es q' ∧
      Told enabled s' q' := by
  have hstart := hT.admits_startTestCase env.mobile ht hx ho hm
  have hdropped := hT.dropped
  have henabled := hT.enabled
  -- the event, and the message that goes with it on a mobile platform
  obtain ⟨es, hlog, hpath, hes⟩ : ∃ es, s'.sh.log = s.sh.log ++ Event.startTestCase k :: es ∧
      Path (Protocol enabled env.mobile) q (.startTestCase k :: es) (some (k, .opened)) ∧
      ∀ e ∈ es, ∃ m, e = .platform k m ∧ m.cmd = .started := by
    simp only [mainStep, hm, Option.some.injEq] at h
    subst h
    cases hmob : env.mobile
    · rw [hmob] at hstart
      exact ⟨[], rfl, .single hstart, by simp⟩
    · rw [hmob] at hstart
      refine ⟨[_], (List.append_assoc ..).trans rfl,
        .snoc (.single hstart) (.started (message_heads rfl)), ?_⟩
      simp [message]
  obtain ⟨hmain, hphase, hg⟩ : s'.main = .construct k ∧
      (s'.phase.testCase = k ∧ s'.phase.timer.pc = .returned) ∧
      s'.sh.g = { s.sh.g with
        nTestCase := k
        currentTestPhase := k.phase
        syncingThreads := .empty } := by
    simp only [mainStep, hm, Option.some.injEq] at h
    subst h
    refine ⟨rfl, ⟨rfl, rfl⟩, ?_⟩
    split <;> rfl
  refine ⟨_, _, hlog, hpath, ⟨by simp, ?_, ?_, ?_, ?_, ?_, ?_, ?_⟩⟩
  · rintro _ _ ⟨⟩
    refine ⟨hphase.1, ?_, fun j hj => ?_, by simp, by rw [hphase.2]; rfl, .inl hphase.2⟩
    · rw [hlog, starts_append, starts_startTestCase hes]
      exact List.mem_append_right _ (List.mem_singleton.mpr rfl)
    · exact .inl (sentFinish_startTestCase hx hp hm hes (hlog ▸ hj))
  · exact fun j hj => by rw [MainPc.construct.inj (hmain.symm.trans hj)]
  · intro j hj _
    rw [hmain] at hj
    rw [hg, ← Option.some.inj hj]
  · simp [hmain]
  · rw [hg]
    exact hdropped
  · simp [hphase.2]
  · rw [hg]
    exact henabled

/-- Where the main thread goes, when it neither starts a test case nor its timer. -/
theorem mainStep_goes {created : Bool} (h : mainStep env created s = some s')
    (hc : ∀ k, s.main ≠ .construct k) (hs : ∀ k, s.main ≠ .startTestCase k) :
    s'.sh.g.streamsDropped = s.sh.g.streamsDropped ∧ (∀ k, s'.main ≠ .construct k) ∧
      (∀ k, s'.main.inside = some k → s.main.inside = some k ∧
        s'.sh.g.currentTestPhase = s.sh.g.currentTestPhase) ∧
      ∀ k, s'.main = .startTestCase k → k ≠ .ip → s.sh.g.hasError = false := by
  have hafter (k : TestCase) : (∀ l, afterTestCase k ≠ .construct l) ∧
      (∀ l, afterTestCase k ≠ .startTestCase l) ∧ (afterTestCase k).inside = none :=
    ⟨fun _ => afterTestCase_ne k rfl, by cases k <;> simp [afterTestCase, TestCase.next],
      inside_afterTestCase k⟩
  have houtside (k : TestCase) : (MainPc.gateRunning k).inside = none ∧
      (MainPc.gateError k).inside = none ∧ (MainPc.startTestCase k).inside = none :=
    ⟨rfl, rfl, rfl⟩
  cases hm : s.main <;> simp only [mainStep, hm] at h
  case construct k => exact absurd hm (hc k)
  case startTestCase k => exact absurd hm (hs k)
  case gate k =>
    obtain rfl := Option.some.inj h
    split <;> simp [hafter, houtside]
  case gateRunning k =>
    obtain rfl := Option.some.inj h
    repeat' split
    all_goals simp_all
  case gateError k =>
    obtain rfl := Option.some.inj h
    split <;> simp_all
  case waitPerformed k | waitError k | waitRunning k =>
    obtain rfl := Option.some.inj h
    split <;> simp [MainPc.inside]
  case create k =>
    repeat' (split at h)
    all_goals try contradiction
    all_goals obtain rfl := Option.some.inj h
    · simp [MainPc.inside]
    · simp [hafter]
    · simp [MainPc.inside]
  case joinTimer k =>
    split at h
    · obtain rfl := Option.some.inj h
      simp [hafter]
    · contradiction
  all_goals repeat' (split at h)
  all_goals try contradiction
  all_goals
    obtain rfl := Option.some.inj h
    simp [MainPc.inside]

theorem Told.step_construct (hT : Told enabled s q) (hm : s.main = .construct k)
    (h : mainStep env true s = some s') : s'.sh.log = s.sh.log ∧ Told enabled s' q := by
  have hq := hT.construct k hm
  have hk := hT.telling k _ hq
  have hphase := hT.phase k (by rw [hm]; rfl) (.inl hm)
  simp only [mainStep, hm, Option.some.injEq] at h
  subst h
  refine ⟨rfl, ⟨by simp [hq], ?_, by simp, ?_, by simp, hT.dropped, by simp, hT.enabled⟩⟩
  · intro l st hl
    obtain ⟨rfl, rfl⟩ : k = l ∧ .opened = st := by simpa [hq] using hl
    exact ⟨hk.testCase, hk.started, hk.sent, hk.completed, rfl, .inr rfl⟩
  · rintro l hl -
    exact Option.some.inj hl ▸ hphase

theorem Told.step_main (hT : Told enabled s q) (ht : Threads env s) (hx : InOrder s)
    (hp : Performing s) (ho : Owing s) (h : mainStep env true s = some s') :
    ∃ es q', s'.sh.log = s.sh.log ++ es ∧ Path (Protocol enabled env.mobile) q es q' ∧
      Told enabled s' q' := by
  by_cases hs : ∃ k, s.main = .startTestCase k
  · obtain ⟨k, hm⟩ := hs
    exact hT.step_startTestCase ht hx hp ho hm h
  by_cases hc : ∃ k, s.main = .construct k
  · obtain ⟨k, hm⟩ := hc
    obtain ⟨hlog, hT'⟩ := hT.step_construct hm h
    exact ⟨[], q, by simp [hlog], .nil, hT'⟩
  have hs' : ∀ k, s.main ≠ .startTestCase k := by simpa using hs
  have hc' : ∀ k, s.main ≠ .construct k := by simpa using hc
  obtain ⟨hg, hkept, htimer, htc⟩ := mainStep_grows h hc' hs'
  obtain ⟨hdropped, hcon, hinside, hopen⟩ := mainStep_goes h hc' hs'
  obtain ⟨-, herr⟩ := mainStep_reason h
  have hlog : s'.sh.log = s.sh.log := by
    rcases mainStep_log h with ⟨-, hlog⟩ | ⟨k, es, hm, -⟩
    · exact hlog
    · exact absurd hm (hs' k)
  refine ⟨[], q, by simp [hlog], .nil, ⟨?_, ?_, ?_, ?_, ?_, ?_, ?_, ?_⟩⟩
  · rw [hlog, htimer]
    exact hT.silent
  · intro k st hq
    obtain ⟨h1, h2, h3, h4, h5, h6⟩ := hT.telling k st hq
    exact ⟨htc.trans h1, hlog ▸ h2, hlog ▸ h3, hlog ▸ h4, htimer ▸ h5,
      htimer ▸ h6.grows hg hkept.timerRunning⟩
  · exact fun k hk => absurd hk (hcon k)
  · intro k hin hpc
    obtain ⟨hin', hphase⟩ := hinside k hin
    rw [htimer] at hpc
    exact hphase.trans (hT.phase k hin' (.inr (hpc.resolve_left (hcon k))))
  · exact fun k hk hne => herr.trans (hopen k hk hne)
  · rw [hdropped, herr]
    exact hT.dropped
  · rw [htimer, hdropped]
    exact fun c p hp he => ⟨hg.toPersists.reason (hT.erring c p hp he).1, (hT.erring c p hp he).2⟩
  · exact (funext hg.enabled).trans hT.enabled

theorem Told.step (hT : Told enabled s q) (ht : Threads env s) (hx : InOrder s)
    (hp : Performing s) (ho : Owing s) (hc : Created a) (h : IasClient.step env a s = some s') :
    ∃ es q', s'.sh.log = s.sh.log ++ es ∧ Path (Protocol enabled env.mobile) q es q' ∧
      Told enabled s' q' := by
  cases step_moved ht.past h with
  | main hm =>
    subst hc
    exact hT.step_main ht hx hp ho hm
  | timer hstep => exact hT.step_timer env.mobile ht hx ho hstep
  | worker hw hstep => exact ⟨[], q, by simp, .nil, hT.step_worker ht hw hstep _⟩
  | stop =>
    refine ⟨[], q, by simp, .nil, ⟨hT.silent, fun k st hq => ?_, hT.construct, hT.phase, hT.opened,
      hT.dropped, hT.erring, hT.enabled⟩⟩
    obtain ⟨h1, h2, h3, h4, h5, h6⟩ := hT.telling k st hq
    exact ⟨h1, h2, h3, h4, h5, h6⟩
  | clock now =>
    refine ⟨[], q, by simp, .nil, ⟨hT.silent, fun k st hq => ?_, hT.construct, hT.phase, hT.opened,
      hT.dropped, hT.erring, hT.enabled⟩⟩
    obtain ⟨h1, h2, h3, h4, h5, h6⟩ := hT.telling k st hq
    exact ⟨h1, h2, h3, h4, h5, h6⟩

theorem measurementStart_told (rtt download upload : Bool) (old : Globals) :
    Told (measurementStart rtt download upload old).sh.g.enabled
      (measurementStart rtt download upload old) none := by
  constructor <;> simp [measurementStart, MainPc.inside]

theorem Told.run {rtt download upload : Bool} {old : Globals}
    (h : Run (IasClient.step env) (fun _ a => Created a)
      (measurementStart rtt download upload old) s) :
    ∃ q, Path (Protocol (measurementStart rtt download upload old).sh.g.enabled env.mobile) none
      s.sh.log q ∧ Told (measurementStart rtt download upload old).sh.g.enabled s q := by
  refine Run.simulated (fun t => t.sh.log)
    (J := fun t => Threads env t ∧ (InOrder t ∧ Performing t) ∧ Owing t)
    (fun t hr =>
      ⟨Threads.run (fun _ _ h => h) hr, Performing.run hr, Owing.run (fun _ _ h => h) hr⟩)
    ?_ .nil (measurementStart_told rtt download upload old) h
  exact fun t a u q ⟨ht, ⟨hx, hp⟩, ho⟩ hT hc hs => hT.step ht hx hp ho hc hs

/-- In every run in which no `createThread` fails, whatever the workers do and whenever RUNNING
turns false, the platform is told what the protocol admits. -/
theorem protocol_followed (env : Env) (c : Choice) (old : Globals)
    (h : Run (step env) (fun _ a => Created a) (measurementStart c.rtt c.download c.upload old) s) :
    ∃ q, Path (Protocol (measurementStart c.rtt c.download c.upload old).sh.g.enabled env.mobile)
      none s.sh.log q :=
  let ⟨q, hq, _⟩ := Told.run h
  ⟨q, hq⟩

def rttOnly : Choice where
  rtt := true
  download := false
  upload := false
  chosen := rfl

theorem protocol_followed_ipThenRtt : ∃ s : Sys,
    s.sh.log.filterMap Event.cmd = [.info, .info, .report, .finish] ∧
    ∃ q, Path (Protocol (measurementStart true false false Globals.default).sh.g.enabled false) none
      s.sh.log q :=
  ⟨_, by decide, protocol_followed Env.default rttOnly Globals.default
    (run_of_exec ipThenRtt rfl)⟩

/-- On Android the message goes to `callbackFinished` too. -/
def Event.finished : Event → Bool
  | .startTestCase _ => false
  | .platform _ m => m.currentTestPhase == .END

theorem TestCase.phase_ne_end (k : TestCase) : k.phase ≠ .END := by
  cases k <;> simp [TestCase.phase]

/-- The last message is the only one in the phase END. -/
theorem Protocol.finished_iff {mobile : Bool} {q r : Option (TestCase × TestStage)} {e : Event}
    (h : Protocol enabled mobile q e r) : e.finished = true ↔ e.cmd = some .completed := by
  cases h with
  | first | next => simp [Event.finished, Event.cmd]
  | started hm => simp [Event.finished, Event.cmd, hm.cmd, hm.phase, TestCase.phase_ne_end]
  | call hc hm =>
    have hne (c : Call) : c.cmd ≠ .completed := by
      cases c <;> simp [Call.cmd]
    simp [Event.finished, Event.cmd, hm.cmd, hm.phase, TestCase.phase_ne_end, hne]
  | completed hl hm => simp [Event.finished, Event.cmd, hm.cmd, hm.phase]

/-- On Android `callbackFinished` is called at most once, with the last of all messages,
`completed`, after the finish of every enabled test case. -/
theorem finished_once (env : Env) (c : Choice) (old : Globals)
    (h : Run (step env) (fun _ a => Created a) (measurementStart c.rtt c.download c.upload old) s) :
    s.sh.log.countP Event.finished ≤ 1 ∧ ∀ l₁ e l₂, s.sh.log = l₁ ++ e :: l₂ →
      (e.finished = true ↔ e.cmd = some .completed) ∧
      (e.finished = true → l₂ = [] ∧
        ∀ k, (measurementStart c.rtt c.download c.upload old).sh.g.enabled k = true →
          SentFinish k l₁) := by
  obtain ⟨q, hq, hT⟩ := Told.run h
  have hx := (Performing.run h).1
  have hiff (e : Event) (he : e ∈ s.sh.log) : e.finished = true ↔ e.cmd = some .completed :=
    let ⟨_, _, hs⟩ := hq.of_mem he
    hs.finished_iff
  have hlast (l₁ : List Event) (e : Event) (l₂ : List Event) (hl : s.sh.log = l₁ ++ e :: l₂)
      (he : e.finished = true) : l₂ = [] ∧ ∀ k, s.sh.g.enabled k = true → SentFinish k l₁ :=
    hx.closed l₁ e l₂ hl ((hiff e (by simp [hl])).mp he)
  refine ⟨countP_le_one fun l₁ e l₂ hl he => (hlast l₁ e l₂ hl he).1, fun l₁ e l₂ hl => ?_⟩
  exact ⟨hiff e (by simp [hl]), hT.enabled ▸ hlast l₁ e l₂ hl⟩

/-- A measurement of the ip test and of the RTT test, whose pings nobody answers. -/
def ipAndRtt : List Action :=
  let ping : List Action := [.worker 0 {}, .worker 0 { code := -1 }, .worker 0 {}, .worker 0 {}]
  ipThenRtt ++ List.replicate 5 (Action.main true) ++ List.replicate 7 (Action.worker 0 {}) ++
    ping ++ List.replicate 17 Action.timer ++ ping ++ [.worker 0 {}] ++
    List.replicate 25 Action.timer

theorem finished_once_ipAndRtt : ∃ s : Sys,
    s.sh.log.filterMap Event.cmd =
        [.info, .info, .report, .finish, .info, .info, .finish, .completed] ∧
      s.sh.log.countP Event.finished ≤ 1 :=
  ⟨_, by decide, (finished_once oneStreamEnv rttOnly Globals.default
    (run_of_exec ipAndRtt rfl)).1⟩

end IasClient
