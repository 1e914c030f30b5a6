import IasClient.Control.Barrier
import IasClient.Control.FailedStart
import IasClient.Control.Lifetime
import IasClient.Control.Window

namespace IasClient

open Framework

/-- The flag behind a call of the outer loop of `CTimer::run`. -/
def Globals.raised (g : Globals) : Call → Bool
  | .unreachable => g.unreachable
  | .forbidden => g.forbidden
  | .tlsParametersMissing => g.tlsParametersMissing
  | _ => false

namespace TimerPc

/-- The positions after which the timer tests the flags once more before it measures. -/
def polling (timerRunning : Bool) : TimerPc → Bool
  | .outerRunning | .outerStopped | .ifUnreachable | .ifForbidden | .ifTlsParametersMissing
  | .countSynced | .setTimerRunning | .setTime1 => true
  | .ifTimerRunning => !timerRunning
  | .callback c _ => c == .starting || c == .started
  | _ => false

/-- The positions of the inner loop, and its head once TIMER_RUNNING is true. -/
def measuring (timerRunning : Bool) : TimerPc → Bool
  | .ifTimerRunning => timerRunning
  | .ifStreamsDropped | .dropStop | .readTime | .ifDuration | .closeWindow | .setIndex | .ifIndex
  | .setCurrent | .innerRunning | .innerStopped | .aborted => true
  | .callback c _ => c == .report || c == .streamsDropped
  | _ => false

end TimerPc

namespace WorkerPc

/-- The positions that write UNREACHABLE or FORBIDDEN. -/
def refusing : WorkerPc → Bool
  | .setUnreachable | .httpUnreachable | .httpForbidden => true
  | _ => false

/-- The positions from such a write, or a failed request, to the write of `hasError`. -/
def silent : WorkerPc → Bool
  | .setHasError | .httpHasError => true
  | pc => pc.refusing

/-- The positions after such a write. -/
def refused : WorkerPc → Bool
  | .setHasError | .httpHasError | .catchHasError | .catchRunning | .returned => true
  | _ => false

end WorkerPc

/-- The timer has reported a flag. -/
def Timer.Spoken (g : Globals) (t : Timer) : Prop := ∃ c ∈ t.calls, g.raised c = true

/-- The message of an error call has been handed to the platform. -/
def Delivered (k : TestCase) (c : Call) (log : List Event) : Prop :=
  ∃ m, .platform k m ∈ log ∧ m.cmd = .error ∧ m.error = some (c.errorCode, c.errorDescription)

/-- What the timer knows inside a call. -/
def Call.Placed (g : Globals) (t : Timer) : Call → Prop
  | .unreachable | .forbidden | .tlsParametersMissing => t.Spoken g
  | .report | .streamsDropped => g.timerRunning = true
  | .finish => g.timerStopped = true ∨ g.running = false
  | .starting | .started => True

/-- What the position of the timer says about the flags that brought it there. -/
def Timer.Placed (g : Globals) (t : Timer) : Prop :=
  match t.pc with
  | .errorStop => t.Spoken g
  | .ifStreamsDropped | .dropStop | .readTime | .ifDuration | .closeWindow | .setIndex | .ifIndex
  | .setCurrent | .innerRunning | .innerStopped => g.timerRunning = true
  | .finishRunning | .finishError | .clearActive | .returned =>
      g.timerStopped = true ∨ g.running = false
  | .aborted => g.timerRunning = true ∨ g.timerStopped = true ∨ g.running = false
  | .callback c _ => c.Placed g t
  | _ => True

variable {env : Env} {k : TestCase} {objects : List Worker} {sh sh' : Shared} {t t' : Timer}

theorem Globals.Persists.raised {g g' : Globals} (h : g.Persists g') {c : Call}
    (hc : g.raised c = true) : g'.raised c = true := by
  cases c
  case unreachable => exact h.unreachable hc
  case forbidden => exact h.forbidden hc
  case tlsParametersMissing => exact h.tlsParametersMissing hc
  all_goals exact absurd hc Bool.false_ne_true

theorem Timer.Spoken.persists {g g' : Globals} (h : t.Spoken g) (hg : g.Persists g')
    (ht : ∀ c ∈ t.calls, c ∈ t'.calls) : t'.Spoken g' := by
  obtain ⟨c, hc, hr⟩ := h
  exact ⟨c, ht c hc, hg.raised hr⟩

/-- The timer raises no flag. -/
theorem Timer.Effect.raised (h : Timer.Effect k t t' sh sh') {c : Call}
    (hc : sh'.g.raised c = true) : sh.g.raised c = true := by
  cases h
  case performed =>
    cases hk : sh.cb.mTestCase <;> rw [hk] at hc <;> cases c <;> exact hc
  all_goals exact hc

theorem Timer.spoken_call {g : Globals} {c : Call} (hc : g.raised c = true) :
    (t.call c).Spoken g :=
  ⟨c, List.mem_append_right _ (List.mem_singleton_self c), hc⟩

theorem Call.Placed.persists {g g' : Globals} {c : Call} (h : c.Placed g t) (hg : g.Grows g')
    (hr : g.timerRunning = true → g'.timerRunning = true) (ht : ∀ c ∈ t.calls, c ∈ t'.calls) :
    c.Placed g' t' := by
  cases c
  case unreachable | forbidden | tlsParametersMissing =>
    exact Timer.Spoken.persists h hg.toPersists ht
  case report | streamsDropped => exact hr h
  case finish => exact h.imp hg.timerStopped hg.running
  all_goals trivial

/-- The flags that the position rests on stay. -/
theorem Timer.Placed.grows {g g' : Globals} (h : t.Placed g) (hg : g.Grows g')
    (hr : g.timerRunning = true → g'.timerRunning = true) : t.Placed g' := by
  have hcalls : ∀ c ∈ t.calls, c ∈ t.calls := fun _ hc => hc
  unfold Timer.Placed at h ⊢
  split at h
  case h_1 => exact h.persists hg.toPersists hcalls
  case h_16 => exact h.imp hr (Or.imp hg.timerStopped hg.running)
  case h_17 => exact Call.Placed.persists h hg hr hcalls
  case h_18 => trivial
  all_goals first | exact hr h | exact h.imp hg.timerStopped hg.running

theorem Timer.Placed.resume {g : Globals} {c : Call} (h : c.Placed g t) :
    (t.resume c).Placed g := by
  cases c
  case starting | started => trivial
  all_goals exact h

theorem Timer.Placed.step_callback {c : Call} {p : CallbackPc} (h : c.Placed sh'.g t)
    (hw : t.Wf k) (hp : t.pc = .callback c p)
    (hs : CCallback.callback env k objects c p sh t = some (sh', t')) : t'.Placed sh'.g := by
  have hin := (hw.called c p hp).2
  have hmove {q : CallbackPc} (hq : t'.pc = .callback c q) (hc : t'.calls = t.calls) :
      t'.Placed sh'.g := by
    simp only [Timer.Placed, hq]
    exact h.persists (Globals.Grows.refl _) id (fun _ hm => hc ▸ hm)
  -- a report or a finish that runs out of the bounds of its arrays
  have habort (hwalk : (c == .report || c == .finish) = true) : c = .report ∨ c = .finish := by
    simpa using hwalk
  cases p <;> simp only [CCallback.callback, Timer.goto] at hs
  all_goals repeat' (split at hs)
  all_goals
    simp only [Option.some.injEq, Prod.mk.injEq] at hs
    obtain ⟨rfl, rfl⟩ := hs
  all_goals try with_reducible exact hmove rfl rfl
  all_goals try with_reducible exact hmove hp rfl
  all_goals try with_reducible exact Timer.Placed.resume h
  all_goals
    simp only [CallbackPc.within, Bool.and_eq_true] at hin
    obtain rfl | rfl := habort hin.1
    · exact .inl h
    · exact .inr h

theorem Timer.Placed.step_timer (h : t.Placed sh.g) (hw : t.Wf k)
    (hs : CTimer.run env k objects sh t = some (sh', t')) : t'.Placed sh'.g := by
  have he := CTimer.run_effect hs
  have hold : t.Placed sh'.g := h.grows he.grows.1 he.keeps_running
  cases hp : t.pc <;> simp only [CTimer.run, hp, Timer.goto] at hs <;>
    simp only [Timer.Placed, hp] at hold
  case callback c p => exact Timer.Placed.step_callback hold hw hp hs
  all_goals repeat' (split at hs)
  all_goals try contradiction
  all_goals
    simp only [Option.some.injEq, Prod.mk.injEq] at hs
    obtain ⟨rfl, rfl⟩ := hs
  case ifUnreachable.isTrue hc => exact Timer.spoken_call hc.1
  case ifForbidden.isTrue hc => exact Timer.spoken_call hc.1
  case ifTlsParametersMissing.isTrue hc => exact Timer.spoken_call hc.1
  case errorStop => exact .inl rfl
  all_goals simp_all [Timer.Placed, Timer.call, Call.Placed]

/-- The calls that the members of CTimer remember have been made. -/
def Timer.Remembers (t : Timer) : Prop := ∀ c, t.signaled c = true → c ∈ t.calls

theorem Timer.Remembers.congr (h : t.Remembers) (hs : ∀ c, t'.signaled c = t.signaled c)
    (hc : t'.calls = t.calls) : t'.Remembers := fun c hr => hc ▸ h c (hs c ▸ hr)

theorem Timer.Remembers.resume (h : t.Remembers) (c : Call) : (t.resume c).Remembers := by
  intro d hd
  cases c
  case starting => exact List.mem_append_left _ (h d hd)
  all_goals exact h d hd

theorem Timer.Remembers.step_timer (h : t.Remembers)
    (hs : CTimer.run env k objects sh t = some (sh', t')) : t'.Remembers := by
  cases hp : t.pc <;> simp only [CTimer.run, hp, Timer.goto] at hs
  case callback c p =>
    cases p <;> simp only [CCallback.callback, Timer.goto] at hs
    all_goals repeat' (split at hs)
    all_goals
      simp only [Option.some.injEq, Prod.mk.injEq] at hs
      obtain ⟨rfl, rfl⟩ := hs
      with_reducible first | exact h.resume c | exact h.congr (fun _ => rfl) rfl
  all_goals repeat' (split at hs)
  all_goals try contradiction
  all_goals
    simp only [Option.some.injEq, Prod.mk.injEq] at hs
    obtain ⟨rfl, rfl⟩ := hs
  all_goals try with_reducible exact h.congr (fun _ => rfl) rfl
  -- a new call, with or without a member that remembers it
  all_goals
    intro d hd
    have hold := h d
    cases d <;> simp_all [Timer.call, Timer.signaled]

theorem CTimer.calls_subset (hw : t.Wf k)
    (hs : CTimer.run env k objects sh t = some (sh', t')) : ∀ c ∈ t.calls, c ∈ t'.calls := by
  intro c hc
  rcases CTimer.run_calls hw hs with h | ⟨d, h, -⟩
  · exact h ▸ hc
  · exact h ▸ List.mem_append_left _ hc

theorem Delivered.append {c : Call} {log : List Event} (h : Delivered k c log)
    (es : List Event) : Delivered k c (log ++ es) := by
  obtain ⟨m, hm, h⟩ := h
  exact ⟨m, List.mem_append_left _ hm, h⟩

theorem Timer.Effect.delivered {c : Call} (he : Timer.Effect k t t' sh sh')
    (h : Delivered k c sh.log) : Delivered k c sh'.log := by
  rcases he.log with hl | ⟨m, d, hl, -⟩
  · exact hl ▸ h
  · exact hl ▸ h.append _

/-- An error call leads to its message. -/
theorem CTimer.run_delivers (hw : t.Wf k) {c : Call} {p : CallbackPc} (hc : c.cmd = .error)
    (hp : t.pc = .callback c p) (hs : CTimer.run env k objects sh t = some (sh', t')) :
    t'.pc = .callback c .toPlatform ∨ Delivered k c sh'.log := by
  have hin := (hw.called c p hp).2
  have hne : c ≠ .report ∧ c ≠ .finish := by
    constructor <;> rintro rfl <;> contradiction
  have hcode : c.errorCode ≠ 0 := by
    cases c <;> simp_all [Call.cmd, Call.errorCode]
  cases p
  case enter =>
    simp only [CTimer.run, hp, CCallback.callback, hne, or_self, if_false, Timer.goto,
      Option.some.injEq, Prod.mk.injEq] at hs
    exact .inl (hs.2 ▸ rfl)
  case toPlatform =>
    right
    rw [CTimer.run_toPlatform hp hs]
    refine ⟨_, List.mem_append_right _ (List.mem_singleton_self _), hc, ?_⟩
    exact if_neg hcode
  all_goals simp [CallbackPc.within, hne] at hin

/-- Every error call is under way or its message is in the log. -/
def Reporting (k : TestCase) (t : Timer) (log : List Event) : Prop :=
  ∀ c ∈ t.calls, c.cmd = .error → (∃ p, t.pc = .callback c p) ∨ Delivered k c log

theorem Reporting.step_timer (h : Reporting k t sh.log) (hw : t.Wf k)
    (hs : CTimer.run env k objects sh t = some (sh', t')) : Reporting k t' sh'.log := by
  have he := CTimer.run_effect hs
  have hold (c : Call) (hc : c ∈ t.calls) (herr : c.cmd = .error) :
      (∃ p, t'.pc = .callback c p) ∨ Delivered k c sh'.log := by
    rcases h c hc herr with ⟨p, hp⟩ | hd
    · exact (CTimer.run_delivers hw herr hp hs).imp_left fun hq => ⟨_, hq⟩
    · exact .inr (he.delivered hd)
  intro c hc herr
  rcases CTimer.run_calls hw hs with hcalls | ⟨d, hcalls, hpc, -⟩
  · exact hold c (hcalls ▸ hc) herr
  · rw [hcalls] at hc
    rcases List.mem_append.mp hc with hc | hc
    · exact hold c hc herr
    · exact .inl ⟨.enter, List.mem_singleton.mp hc ▸ hpc⟩

section

variable {o : Outcome} {g g' : Globals} {w w' : Worker}

/-- UNREACHABLE and FORBIDDEN are written before the first receive. -/
theorem Worker.run_silent (h : Worker.run env k o g w = some (g', w'))
    (hr : w'.pc.silent = true) :
    (w.pc.beforeLoop = true ∨ w.pc.silent = true) ∧ w'.dataReceived = w.dataReceived := by
  rcases Worker.run_cases h with ⟨-, rfl, rfl⟩ | h | ⟨-, h⟩
  · exact absurd hr Bool.false_ne_true
  · cases hp : w.pc <;> simp only [catchException, hp, Worker.goto] at h
    all_goals try contradiction
    all_goals
      simp only [Option.some.injEq, Prod.mk.injEq] at h
      obtain ⟨rfl, rfl⟩ := h
      exact absurd hr Bool.false_ne_true
  · cases k <;> cases hp : w.pc <;>
      simp only [Worker.tryBlock, Ip.run, Ping.run, Download.run, Upload.run, connect, receiveLoop,
        hp, Worker.goto] at h
    all_goals try contradiction
    all_goals repeat' (split at h)
    all_goals try contradiction
    all_goals
      simp only [Option.some.injEq, Prod.mk.injEq] at h
      obtain ⟨rfl, rfl⟩ := h
      first
        | exact absurd hr Bool.false_ne_true
        | exact ⟨.inl rfl, rfl⟩
        | exact ⟨.inr rfl, rfl⟩

theorem Worker.run_refused (h : Worker.run env k o g w = some (g', w'))
    (hr : w.pc.refused = true) :
    w'.pc.refused = true ∧ w'.dataReceived = w.dataReceived ∧ g'.timerStopped = g.timerStopped := by
  rcases Worker.run_cases h with ⟨-, rfl, rfl⟩ | h | ⟨-, h⟩
  · exact ⟨rfl, rfl, rfl⟩
  · cases hp : w.pc <;> simp only [catchException, hp, Worker.goto] at h
    all_goals try contradiction
    all_goals
      simp only [Option.some.injEq, Prod.mk.injEq] at h
      obtain ⟨rfl, rfl⟩ := h
      exact ⟨rfl, rfl, rfl⟩
  · cases hp : w.pc <;> simp only [WorkerPc.refused, hp, Bool.false_eq_true] at hr <;>
      cases k <;> simp only [Worker.tryBlock, Ip.run, Ping.run, Download.run, Upload.run, connect,
        hp, Worker.goto] at h
    all_goals try contradiction
    all_goals
      simp only [Option.some.injEq, Prod.mk.injEq] at h
      obtain ⟨rfl, rfl⟩ := h
      exact ⟨rfl, rfl, rfl⟩

/-- How a worker raises a flag. -/
theorem Worker.run_raises (h : Worker.run env k o g w = some (g', w')) :
    (∀ c, g'.raised c = true → g.raised c = true) ∨
      w.pc.refusing = true ∧ w'.pc.refused = true ∧ w'.dataReceived = w.dataReceived ∧
        (g'.unreachable = true ∨ g'.forbidden = true) ∨
      k = .ip ∧ w.pc = .tlsMissing ∧ o.throws = false ∧ g'.tlsParametersMissing = true := by
  rcases Worker.run_cases h with ⟨-, rfl, rfl⟩ | h | ⟨ht, h⟩
  · exact .inl fun _ => id
  · cases hp : w.pc <;> simp only [catchException, hp, Worker.goto] at h
    all_goals try contradiction
    all_goals
      simp only [Option.some.injEq, Prod.mk.injEq] at h
      obtain ⟨rfl, rfl⟩ := h
      exact .inl fun _ => id
  · cases k <;> cases hp : w.pc <;>
      simp only [Worker.tryBlock, Ip.run, Ping.run, Download.run, Upload.run, connect, receiveLoop,
        hp, Worker.goto] at h
    all_goals try contradiction
    all_goals repeat' (split at h)
    all_goals try contradiction
    all_goals
      simp only [Option.some.injEq, Prod.mk.injEq] at h
      obtain ⟨rfl, rfl⟩ := h
      first
        | exact .inl fun _ => id
        | exact .inr (.inl ⟨rfl, rfl, rfl, .inl rfl⟩)
        | exact .inr (.inl ⟨rfl, rfl, rfl, .inr rfl⟩)
        | exact .inr (.inr ⟨rfl, rfl, ht, rfl⟩)

end

/-- A worker that fails before its receive loop has received nothing. -/
def Silent (s : Sys) : Prop :=
  ∀ w ∈ s.phase.workers, w.pc.silent = true → w.dataReceived = false

/-- A worker has left before it received anything. -/
def Sys.Blocked (s : Sys) : Prop :=
  ∃ w ∈ s.phase.workers, w.pc.refused = true ∧ w.dataReceived = false

/-- A raised flag that the timer has not reported, while it is still going to test it. -/
structure Unheard (s : Sys) : Prop where
  timerStopped : s.sh.g.timerStopped = false
  polling : s.phase.timer.pc.polling s.sh.g.timerRunning = true
  raised : s.sh.g.tlsParametersMissing = true ∧ s.phase.testCase = .ip ∨
    s.Blocked ∧ (s.sh.g.unreachable = true ∨ s.sh.g.forbidden = true)

/-- What a raised flag comes to. -/
def Pending (s : Sys) : Prop := s.phase.timer.Spoken s.sh.g ∨ Unheard s

variable {s s' : Sys} {a : Action}

theorem Barrier.not_passed (hb : Barrier env s) (hbl : s.Blocked) :
    s.sh.g.timerRunning = false := by
  obtain ⟨w, hw, -, hd⟩ := hbl
  rw [← Bool.not_eq_true]
  intro hr
  exact absurd ((hb.passed (.inr hr)).received w hw) (by simp [hd])

theorem Unheard.step_timer (h : Unheard s) (hb : Barrier env s) (ht : Threads env s)
    (hrun : s.sh.g.running = true) (hm : s.phase.timer.Remembers) {sh : Shared} {t : Timer}
    (hs : CTimer.run env s.phase.testCase s.phase.objects s.sh s.phase.timer = some (sh, t)) :
    Pending { s with sh := sh, phase := { s.phase with timer := t } } := by
  obtain ⟨hstop, hpoll, hraised⟩ := h
  have hgo {sh' : Shared} {t' : Timer} (hs : some (sh', t') = some (sh, t))
      (hst : sh'.g.timerStopped = false) (hpc : t'.pc.polling sh'.g.timerRunning = true)
      (hg : s.sh.g.Persists sh'.g) :
      Pending { s with sh := sh, phase := { s.phase with timer := t } } := by
    simp only [Option.some.injEq, Prod.mk.injEq] at hs
    obtain ⟨rfl, rfl⟩ := hs
    exact .inr ⟨hst, hpc, hraised.imp (.imp_left hg.tlsParametersMissing)
      (.imp_right (Or.imp hg.unreachable hg.forbidden))⟩
  have hsame := (Globals.Grows.refl s.sh.g).toPersists
  have hspeak {c : Call} {t' : Timer} (hs : some (s.sh, t'.call c) = some (sh, t))
      (hc : s.sh.g.raised c = true) :
      Pending { s with sh := sh, phase := { s.phase with timer := t } } := by
    simp only [Option.some.injEq, Prod.mk.injEq] at hs
    obtain ⟨rfl, rfl⟩ := hs
    exact .inl (Timer.spoken_call hc)
  cases hp : s.phase.timer.pc <;> simp only [TimerPc.polling, hp, Bool.false_eq_true] at hpoll <;>
    simp only [CTimer.run, hp, Timer.goto] at hs
  case outerRunning =>
    rw [hrun] at hs
    exact hgo hs hstop rfl hsame
  case outerStopped =>
    rw [hstop] at hs
    exact hgo hs hstop rfl hsame
  case ifUnreachable =>
    split at hs
    · rename_i hc
      exact hspeak hs hc.1
    · exact hgo hs hstop rfl hsame
  case ifForbidden =>
    split at hs
    · rename_i hc
      exact hspeak hs hc.1
    · exact hgo hs hstop rfl hsame
  case ifTlsParametersMissing =>
    split at hs
    · rename_i hc
      exact hspeak hs hc.1
    · rename_i hc
      rcases hraised with ⟨htls, -⟩ | ⟨hbl, -⟩
      · have hsig : s.phase.timer.tlsParametersMissingSignaled = true := by
          rw [← Bool.not_eq_false]
          exact fun hn => hc ⟨htls, hn⟩
        simp only [Option.some.injEq, Prod.mk.injEq] at hs
        obtain ⟨rfl, rfl⟩ := hs
        exact .inl ⟨.tlsParametersMissing, hm .tlsParametersMissing hsig, htls⟩
      · have hr := hb.not_passed hbl
        refine hgo hs hstop ?_ hsame
        simp [TimerPc.polling, hr]
  case ifTimerRunning =>
    rw [Bool.not_eq_true'] at hpoll
    rw [hpoll] at hs
    exact hgo hs hstop rfl hsame
  case countSynced => split at hs <;> exact hgo hs hstop rfl hsame
  case setTimerRunning =>
    exact hgo hs hstop rfl ⟨id, id, id, id, id, id, fun _ => id, fun _ => rfl⟩
  case setTime1 => exact hgo hs hstop rfl hsame
  case callback c p =>
    have hin := (ht.timer.called c p hp).2
    have hc : c = .starting ∨ c = .started := by simpa using hpoll
    -- neither call enters `ipCallback`, `rttUdpCallback` or the calculation
    have hne : c ≠ .report ∧ c ≠ .finish := by
      rcases hc with rfl | rfl <;> simp
    cases p <;> simp [CallbackPc.within, hne] at hin
    case enter =>
      simp only [CCallback.callback, hne, or_self, if_false, Timer.goto] at hs
      exact hgo hs hstop (by simpa [TimerPc.polling] using hc) hsame
    case toPlatform =>
      simp only [CCallback.callback, hne, if_false] at hs
      refine hgo hs hstop ?_ hsame
      rcases hc with rfl | rfl <;> rfl

theorem Unheard.step_worker (h : Unheard s) (ht : Threads env s) {j : Nat} {o : Outcome}
    {w w' : Worker} {g : Globals} (hw : s.phase.workers[j]? = some w)
    (hs : Worker.run env s.phase.testCase o s.sh.g w = some (g, w')) :
    Unheard { s with
      sh := { s.sh with g := g }
      phase := { s.phase with workers := s.phase.workers.set j w' } } := by
  obtain ⟨hstop, hpoll, hraised⟩ := h
  have he := Worker.run_effect hs
  have hg := he.grows.toPersists
  have hblocked (hb : s.Blocked) : Sys.Blocked { s with
      sh := { s.sh with g := g }
      phase := { s.phase with workers := s.phase.workers.set j w' } } := by
    obtain ⟨v, hv, hp, hd⟩ := hb
    rcases mem_set_of_mem w' hw hv with rfl | hv
    · obtain ⟨hp', hd', -⟩ := Worker.run_refused hs hp
      exact ⟨w', mem_set_self w' hw, hp', hd'.trans hd⟩
    · exact ⟨v, hv, hp, hd⟩
  refine ⟨?_, ?_, ?_⟩
  · -- only the ping that counts its queries sets TIMER_STOPPED
    by_cases hk : s.phase.testCase = .rttUdp
    · rcases hraised with ⟨-, hip⟩ | ⟨⟨v, hv, hp, -⟩, -⟩
      · simp [hk] at hip
      · obtain ⟨k, hi, hc⟩ := ht.worker_inside (List.mem_of_getElem? hw) (Worker.run_kept hs).moves
        have hlen := ht.single hi hc (.inr ((ht.testCase k hi).1.symm.trans hk))
        have hvw : v = w := eq_of_mem_of_length_le_one hlen hv (List.mem_of_getElem? hw)
        exact (Worker.run_refused hs (hvw ▸ hp)).2.2.trans hstop
    · exact (he.keeps_window hk).1.trans hstop
  · rw [he.keeps_timerRunning]
    exact hpoll
  · exact hraised.imp (.imp_left hg.tlsParametersMissing)
      (And.imp hblocked (Or.imp hg.unreachable hg.forbidden))

theorem Silent.step (h : Silent s) (ht : Threads env s) (hb : Barrier env s) (hc : Created a)
    (hs : IasClient.step env a s = some s') : Silent s' := by
  cases step_moved ht.past hs with
  | main hm =>
    intro w' hw' hr
    rcases mainStep_workers hm hw' with ⟨w, hw, rfl | ⟨-, rfl⟩⟩ | ⟨k, -, rfl⟩
    · exact h w' hw hr
    · exact h w hw hr
    · rfl
  | timer => exact h
  | @worker j o w w' g hw hstep =>
    have hmem := List.mem_of_getElem? hw
    intro v hv hr
    rcases List.mem_or_eq_of_mem_set hv with hv | rfl
    · exact h v hv hr
    · obtain ⟨hbefore | hsil, hd⟩ := Worker.run_silent hstep hr
      · exact hd.trans ((hb.entered w hmem).before hbefore)
      · exact hd.trans (h w hmem hsil)
  | stop => exact h
  | clock now => exact h

theorem Silent.run {rtt download upload : Bool} {old : Globals} {ok : Sys → Action → Prop}
    (hpid : ∀ k, Function.Injective (env.pid k)) (hok : ∀ t a, ok t a → Created a)
    (h : Run (IasClient.step env) ok (measurementStart rtt download upload old) s) : Silent s :=
  Run.invariant_of (fun _ hr => And.intro (Threads.run hok hr) (Barrier.run hpid hok hr))
    (fun _ _ _ ht _ hi ha hs => hi.step ht.1 ht.2 (hok _ _ ha) hs) (by simp [Silent, measurementStart])
    h

theorem mainStep_blocked {created : Bool} (h : mainStep env created s = some s')
    (hs : ∀ k, s.main ≠ .startTestCase k) (hb : s.Blocked) : s'.Blocked := by
  obtain ⟨w, hw, hpc, hd⟩ := hb
  rcases mainStep_keeps h hs hw with hw | hw
  · exact ⟨w, hw, hpc, hd⟩
  · exact ⟨{ w with destroyed := true }, hw, hpc, hd⟩

/-- The main thread raises no flag. -/
theorem mainStep_raised {created : Bool} (h : mainStep env created s = some s') (c : Call) :
    s'.sh.g.raised c = s.sh.g.raised c := by
  cases hm : s.main <;> simp only [mainStep, hm] at h
  all_goals repeat' (split at h)
  all_goals try contradiction
  all_goals
    simp only [Option.some.injEq] at h
    subst h
    rfl

theorem Globals.reason_of_raised {g : Globals} {c : Call} (h : g.raised c = true) : g.reason := by
  cases c
  case unreachable => exact .inl h
  case forbidden => exact .inr (.inl h)
  case tlsParametersMissing => exact .inr (.inr (.inl h))
  all_goals contradiction

/-- No flag is up when a test case starts. -/
theorem Opening.not_raised (h : Opening s) (ht : Threads env s) (ho : Owing s)
    (hm : (∃ k, s.main = .startTestCase k) ∨ ∃ k, s.main = .construct k) (c : Call) :
    s.sh.g.raised c = false := by
  rw [← Bool.not_eq_true]
  intro hc
  have hj := ht.joined
  rcases hm with ⟨k, hm⟩ | ⟨k, hm⟩
  · simp only [Opening, hm] at h
    simp only [Joined, hm] at hj
    have := ho.hasError hj.2 (Globals.reason_of_raised hc)
    simp [h] at this
  · simp only [Opening, hm] at h
    simp only [Joined, hm] at hj
    have := ho.hasError hj.1.2 (Globals.reason_of_raised hc)
    simp [h.1] at this

theorem Pending.step_main (h : Pending s) {created : Bool}
    (hm : mainStep env created s = some s') (hc : ∀ k, s.main ≠ .construct k)
    (hs : ∀ k, s.main ≠ .startTestCase k) : Pending s' := by
  obtain ⟨hg, hkept, ht, hk⟩ := mainStep_grows hm hc hs
  rcases h with h | ⟨hstop, hpoll, hraised⟩
  · exact .inl (h.persists hg.toPersists (fun c hc => ht ▸ hc))
  · refine .inr ⟨hkept.timerStopped.trans hstop, ?_, ?_⟩
    · rw [ht, hkept.timerRunning]
      exact hpoll
    · rw [hk]
      exact hraised.imp (.imp_left hg.tlsParametersMissing)
        (And.imp (mainStep_blocked hm hs) (Or.imp hg.unreachable hg.forbidden))

/-- A flag that the timer is going to report stays so while RUNNING is true. -/
theorem Pending.step (h : Pending s) (ht : Threads env s) (hb : Barrier env s)
    (hm : s.phase.timer.Remembers) (hc : ∀ k, s.main ≠ .construct k)
    (hst : ∀ k, s.main ≠ .startTestCase k) (hs : IasClient.step env a s = some s')
    (hrun : s'.sh.g.running = true) : Pending s' := by
  have hrun' : s.sh.g.running = true := by
    rw [← Bool.not_eq_false]
    intro hf
    simp [(step_persists ht.past hs).running hf] at hrun
  cases step_moved ht.past hs with
  | main hmain => exact h.step_main hmain hc hst
  | timer hstep =>
    rcases h with h | h
    · exact .inl (h.persists (CTimer.run_effect hstep).grows.1.toPersists
        (CTimer.calls_subset ht.timer hstep))
    · exact h.step_timer hb ht hrun' hm hstep
  | worker hw hstep =>
    rcases h with h | h
    · exact .inl (h.persists (Worker.run_effect hstep).grows.toPersists (fun _ hc => hc))
    · exact .inr (h.step_worker ht hw hstep)
  | stop => contradiction
  | clock now => exact h.imp id fun ⟨h1, h2, h3⟩ => ⟨h1, h2, h3⟩

/-- TLS_PARAMETERS_MISSING is not written while the timer measures. -/
def Audible (s : Sys) : Action → Prop
  | .worker j o => ∀ w, s.phase.workers[j]? = some w → w.pc = .tlsMissing → o.throws = false →
      s.sh.g.running = true → s.sh.g.timerStopped = false →
        s.phase.timer.pc.measuring s.sh.g.timerRunning = false
  | _ => True

instance (s : Sys) : DecidablePred (Audible s)
  | .worker j o =>
    match hj : s.phase.workers[j]? with
    | none => isTrue fun w hw => absurd (hj.symm.trans hw) (by simp)
    | some w =>
      decidable_of_iff (w.pc = .tlsMissing → o.throws = false → s.sh.g.running = true →
          s.sh.g.timerStopped = false → s.phase.timer.pc.measuring s.sh.g.timerRunning = false)
        ⟨fun h _ hv => Option.some.inj (hj.symm.trans hv) ▸ h, fun h => h w hj⟩
  | .main _ | .timer | .pastTimer .. | .pastWorker .. | .stop | .clock .. => isTrue trivial

/-- The invariant behind the flags: a raised one is reported or going to be, unless TIMER_STOPPED
was true first. -/
structure Polled (s : Sys) : Prop where
  placed : ∀ k, s.main.inside = some k → s.main ≠ .construct k → s.phase.timer.Placed s.sh.g
  remembers : s.phase.timer.Remembers
  reporting : Reporting s.phase.testCase s.phase.timer s.sh.log
  heard : ∀ c, s.sh.g.raised c = true → s.sh.g.running = true → s.sh.g.timerStopped = false →
    Pending s

/-- The timer of a test case that measures nothing yet tests the flags. -/
theorem Timer.Placed.polling {g : Globals} (h : t.Placed g)
    (hm : t.pc.measuring g.timerRunning = false) (hr : g.running = true)
    (hs : g.timerStopped = false) :
    t.Spoken g ∨ t.pc.polling g.timerRunning = true := by
  cases hp : t.pc <;> simp_all [Timer.Placed, TimerPc.measuring, TimerPc.polling]
  case callback c p =>
    cases c <;> simp_all [Call.Placed]

theorem Timer.Placed.not_measuring {g : Globals} (h : t.Placed g) (ht : g.timerRunning = false)
    (hr : g.running = true) (hs : g.timerStopped = false) :
    t.pc.measuring g.timerRunning = false := by
  cases hp : t.pc <;> simp_all [Timer.Placed, TimerPc.measuring]
  case callback c p =>
    cases c <;> simp_all [Call.Placed]

/-- What the timer of the next test case starts with. -/
theorem mainStep_timer {created : Bool} (h : mainStep env created s = some s') :
    s'.phase.timer = s.phase.timer ∧ s'.phase.testCase = s.phase.testCase ∧
        s'.sh.log = s.sh.log ∨
      s'.phase.timer.calls = [] ∧ (∀ c, s'.phase.timer.signaled c = false) ∧
        (s'.phase.timer.pc = .returned ∨ s'.phase.timer.pc = .outerRunning) := by
  cases hm : s.main <;> simp only [mainStep, hm] at h
  case startTestCase | construct =>
    simp only [Option.some.injEq] at h
    subst h
    exact .inr ⟨rfl, fun c => by cases c <;> rfl, by simp⟩
  all_goals repeat' (split at h)
  all_goals try contradiction
  all_goals
    simp only [Option.some.injEq] at h
    subst h
    exact .inl ⟨rfl, rfl, rfl⟩

theorem Polled.step_main (h : Polled s) (ht : Threads env s) (ho : Owing s)
    (hop : Opening s) (hm : mainStep env true s = some s') : Polled s' := by
  have hs : IasClient.step env (.main true) s = some s' := hm
  have hraised := mainStep_raised hm
  have htimer := mainStep_timer hm
  refine ⟨?_, ?_, ?_, ?_⟩
  · intro k hi hc
    by_cases hst : ∃ l, s.main = .startTestCase l
    · obtain ⟨l, hl⟩ := hst
      simp only [mainStep, hl, Option.some.injEq] at hm
      subst hm
      simp only [MainPc.inside, Option.some.injEq] at hi
      exact absurd (congrArg MainPc.construct hi) hc
    by_cases hcn : ∃ l, s.main = .construct l
    · obtain ⟨l, hl⟩ := hcn
      simp only [mainStep, hl, Option.some.injEq] at hm
      subst hm
      trivial
    · rw [not_exists] at hst hcn
      obtain ⟨hg, hkept, htm, -⟩ := mainStep_grows hm hcn hst
      rw [htm]
      exact (h.placed k ((mainStep_inside hm hcn hst).1 k hi) (hcn k)).grows hg
        (fun hr => hkept.timerRunning.trans hr)
  · rcases htimer with ⟨htm, -⟩ | ⟨-, hsig, -⟩
    · exact htm ▸ h.remembers
    · exact fun c hc => absurd hc (by simp [hsig c])
  · intro c hc herr
    rcases htimer with ⟨htm, hk, hlog⟩ | ⟨hcalls, -⟩
    · rw [htm, hk, hlog]
      exact h.reporting c (htm ▸ hc) herr
    · simp [hcalls] at hc
  · intro c hc hrun hstop
    rw [hraised] at hc
    have hne (hst : (∃ k, s.main = .startTestCase k) ∨ ∃ k, s.main = .construct k) : False := by
      simp [hop.not_raised ht ho hst c] at hc
    have hcn : ∀ k, s.main ≠ .construct k := fun k hk => hne (.inr ⟨k, hk⟩)
    have hst : ∀ k, s.main ≠ .startTestCase k := fun k hk => hne (.inl ⟨k, hk⟩)
    obtain ⟨hg, hkept, -⟩ := mainStep_grows hm hcn hst
    have hrun' : s.sh.g.running = true := by
      rw [← Bool.not_eq_false]
      intro hf
      simp [hg.running hf] at hrun
    exact (h.heard c hc hrun' (hkept.timerStopped ▸ hstop)).step_main hm hcn hst

theorem Polled.step_timer (h : Polled s) (ht : Threads env s) (hb : Barrier env s)
    {sh : Shared} {t : Timer}
    (hs : CTimer.run env s.phase.testCase s.phase.objects s.sh s.phase.timer = some (sh, t)) :
    Polled { s with sh := sh, phase := { s.phase with timer := t } } := by
  have he := CTimer.run_effect hs
  have hg := he.grows.1
  refine ⟨?_, h.remembers.step_timer hs, Reporting.step_timer h.reporting ht.timer hs, ?_⟩
  · intro k hi hc
    exact (h.placed k hi hc).step_timer ht.timer hs
  · intro c hc hrun hstop
    have hrun' : s.sh.g.running = true := by
      rw [← Bool.not_eq_false]
      intro hf
      simp [hg.running hf] at hrun
    have hstop' : s.sh.g.timerStopped = false := by
      rw [← Bool.not_eq_true]
      intro hf
      simp [hg.timerStopped hf] at hstop
    have hraised : s.sh.g.raised c = true := he.raised hc
    rcases h.heard c hraised hrun' hstop' with hsp | hu
    · exact .inl (hsp.persists hg.toPersists (CTimer.calls_subset ht.timer hs))
    · exact hu.step_timer hb ht hrun' h.remembers hs

theorem Polled.step_worker (h : Polled s) (ht : Threads env s) (hb : Barrier env s)
    (hsil : Silent s) {j : Nat} {o : Outcome} (ha : Audible s (.worker j o)) {w w' : Worker}
    {g : Globals}
    (hw : s.phase.workers[j]? = some w)
    (hs : Worker.run env s.phase.testCase o s.sh.g w = some (g, w')) :
    Polled { s with
      sh := { s.sh with g := g }
      phase := { s.phase with workers := s.phase.workers.set j w' } } := by
  have he := Worker.run_effect hs
  have hg := he.grows
  have hmem := List.mem_of_getElem? hw
  have hk := Worker.run_kept hs
  obtain ⟨k, hin, hcn⟩ := ht.worker_inside hmem hk.moves
  refine ⟨?_, h.remembers, h.reporting, ?_⟩
  · intro l hi hc
    exact (h.placed l hi hc).grows hg (fun hr => he.keeps_timerRunning.trans hr)
  · intro c hc hrun hstop
    have hrun' : s.sh.g.running = true := by
      rw [← Bool.not_eq_false]
      intro hf
      simp [hg.running hf] at hrun
    have hstop' : s.sh.g.timerStopped = false := by
      rw [← Bool.not_eq_true]
      intro hf
      simp [hg.timerStopped hf] at hstop
    have hplaced := h.placed k hin hcn
    -- the flag is new: the timer is still going to test it
    have hnew (hm : s.phase.timer.pc.measuring s.sh.g.timerRunning = false)
        (hu : s.phase.timer.pc.polling g.timerRunning = true → Unheard { s with
          sh := { s.sh with g := g }
          phase := { s.phase with workers := s.phase.workers.set j w' } }) : Pending { s with
        sh := { s.sh with g := g }
        phase := { s.phase with workers := s.phase.workers.set j w' } } := by
      rcases hplaced.polling hm hrun' hstop' with hsp | hp
      · exact .inl (hsp.persists hg.toPersists (fun _ hc => hc))
      · exact .inr (hu (he.keeps_timerRunning ▸ hp))
    rcases Worker.run_raises hs with hold | ⟨hr, hr', hd, hflag⟩ | ⟨hip, hpc, hthr, hflag⟩
    · rcases h.heard c (hold c hc) hrun' hstop' with hsp | hu
      · exact .inl (hsp.persists hg.toPersists (fun _ hc => hc))
      · exact .inr (hu.step_worker ht hw hs)
    · have hd0 : w.dataReceived = false := by
        apply hsil w hmem
        cases hp : w.pc <;> simp_all [WorkerPc.refusing, WorkerPc.silent]
      have htr : s.sh.g.timerRunning = false := by
        rw [← Bool.not_eq_true]
        intro htr
        simp [(hb.passed (.inr htr)).received w hmem] at hd0
      apply hnew (hplaced.not_measuring htr hrun' hstop')
      intro hp
      exact ⟨hstop, hp, .inr ⟨⟨w', mem_set_self w' hw, hr', hd.trans hd0⟩, hflag⟩⟩
    · apply hnew (ha w hw hpc hthr hrun' hstop')
      intro hp
      exact ⟨hstop, hp, .inl ⟨hflag, hip⟩⟩

theorem Polled.step (h : Polled s) (ht : Threads env s) (hb : Barrier env s) (hsil : Silent s)
    (ho : Owing s) (hop : Opening s) (hc : Created a) (ha : Audible s a)
    (hs : IasClient.step env a s = some s') :
    Polled s' := by
  cases step_moved ht.past hs with
  | main hm =>
    subst hc
    exact h.step_main ht ho hop hm
  | timer hstep => exact h.step_timer ht hb hstep
  | worker hw hstep => exact h.step_worker ht hb hsil ha hw hstep
  | stop =>
    refine ⟨?_, h.remembers, h.reporting, fun _ _ hrun => absurd hrun (by simp)⟩
    intro k hi hcn
    exact (h.placed k hi hcn).grows ⟨step_persists ht.past hs, id, id⟩ id
  | clock now =>
    refine ⟨?_, h.remembers, h.reporting, ?_⟩
    · intro k hi hcn
      exact (h.placed k hi hcn).grows ⟨step_persists ht.past hs, id, id⟩ id
    · intro c hc hrun hstop
      exact (h.heard c hc hrun hstop).imp id fun ⟨h1, h2, h3⟩ => ⟨h1, h2, h3⟩

/-- What the proofs about the flags know of every state of a run. -/
structure Heeded (env : Env) (s : Sys) : Prop where
  threads : Threads env s
  barrier : Barrier env s
  owing : Owing s
  opening : Opening s
  polled : Polled s

theorem Heeded.run (hpid : ∀ k, Function.Injective (env.pid k)) {rtt download upload : Bool}
    {old : Globals} (h : Run (IasClient.step env) (fun s a => Created a ∧ Audible s a)
      (measurementStart rtt download upload old) s) : Heeded env s := by
  have hall (u : Sys) (hu : Run (IasClient.step env) (fun s a => Created a ∧ Audible s a)
      (measurementStart rtt download upload old) u) :
      Threads env u ∧ Barrier env u ∧ Silent u ∧ Owing u ∧ Opening u :=
    ⟨Threads.run (fun _ _ h => h.1) hu, Barrier.run hpid (fun _ _ h => h.1) hu,
      Silent.run hpid (fun _ _ h => h.1) hu, Owing.run (fun _ _ h => h.1) hu,
      Opening.run (fun _ _ h => h.1) hu⟩
  have hpolled : Polled s := by
    refine Run.invariant_of hall ?_ ?_ h
    · intro u a v ⟨ht, hb, hsil, ho, hop⟩ _ hp ha hs
      exact hp.step ht hb hsil ho hop ha.1 ha.2 hs
    · refine ⟨?_, ?_, ?_, ?_⟩
      · intro k hi
        simp [measurementStart, MainPc.inside] at hi
      · intro c hc
        cases c <;> contradiction
      · intro c hc
        simp [measurementStart] at hc
      · intro c hc
        cases c <;> contradiction
  obtain ⟨ht, hb, -, ho, hop⟩ := hall s h
  exact ⟨ht, hb, ho, hop, hpolled⟩

theorem Heeded.not_opening (h : Heeded env s) {c : Call} (hc : s.sh.g.raised c = true) :
    (∀ k, s.main ≠ .construct k) ∧ ∀ k, s.main ≠ .startTestCase k := by
  have hne := h.opening.not_raised h.threads h.owing
  refine ⟨fun k hk => ?_, fun k hk => ?_⟩
  · simp [hne (.inr ⟨k, hk⟩) c] at hc
  · simp [hne (.inl ⟨k, hk⟩) c] at hc

/-- A pending report stays so to the end of the test case. -/
theorem Pending.run {ok : Sys → Action → Prop} (h : Pending s) {c : Call}
    (hc : s.sh.g.raised c = true)
    (hall : ∀ u, Run (IasClient.step env) ok s u → Heeded env u) {t : Sys}
    (hr : Run (IasClient.step env) ok s t) : s.past.length < t.past.length ∨
      t.past = s.past ∧ t.sh.g.raised c = true ∧ (t.sh.g.running = true → Pending t) := by
  induction hr with
  | refl => exact .inr ⟨rfl, hc, fun _ => h⟩
  | @tail u v a hu ha hs ih =>
    have hk := hall u hu
    have hg := step_persists hk.threads.past hs
    have hpast := step_past hk.threads hs
    rcases ih with hlt | ⟨hp, hcu, hpend⟩
    · rcases hpast with hp | hp
      · exact .inl (Nat.lt_trans hlt hp)
      · exact .inl (hp ▸ hlt)
    · rcases hpast with hlt | hp'
      · exact .inl (hp ▸ hlt)
      · refine .inr ⟨hp'.trans hp, hg.raised hcu, ?_⟩
        intro hrun
        have hrun' : u.sh.g.running = true := by
          rw [← Bool.not_eq_false]
          intro hf
          simp [hg.running hf] at hrun
        obtain ⟨hcn, hst⟩ := hk.not_opening hcu
        exact (hpend hrun').step hk.threads hk.barrier hk.polled.remembers hcn hst hs hrun

/-- A flag raised before TIMER_STOPPED is reported before `CTimer::run` returns, if RUNNING stays
true and TLS_PARAMETERS_MISSING is not written while the timer measures. -/
theorem raised_flag_reported (env : Env) (hpid : ∀ k, Function.Injective (env.pid k))
    (rtt download upload : Bool) (old : Globals) {s t : Sys}
    (hs : Run (step env) (fun s a => Created a ∧ Audible s a)
      (measurementStart rtt download upload old) s)
    {c : Call} (hc : s.sh.g.raised c = true) (hstop : s.sh.g.timerStopped = false)
    (ht : Run (step env) (fun s a => Created a ∧ Audible s a) s t) (hp : t.past = s.past)
    (hret : t.phase.timer.pc = .returned) (hrun : t.sh.g.running = true) :
    ∃ d m, t.sh.g.raised d = true ∧ .platform t.phase.testCase m ∈ t.sh.log ∧ m.cmd = .error ∧
      m.error = some (d.errorCode, d.errorDescription) := by
  have hall (u : Sys) (hu : Run (step env) (fun s a => Created a ∧ Audible s a) s u) :
      Heeded env u := Heeded.run hpid (hs.trans hu)
  have hrun' : s.sh.g.running = true := by
    rw [← Bool.not_eq_false]
    intro hf
    have hstays : t.sh.g.running = false :=
      ht.invariant_of (I := fun u => u.sh.g.running = false) hall
        (fun _ _ _ hk _ hf _ hs => (step_persists hk.threads.past hs).running hf) hf
    simp [hstays] at hrun
  have hpend := (hall s .refl).polled.heard c hc hrun' hstop
  rcases hpend.run hc hall ht with hlt | ⟨-, -, hend⟩
  · simp [hp] at hlt
  · rcases hend hrun with ⟨d, hd, hr⟩ | hu
    · have herr : d.cmd = .error := by
        cases d <;> first | rfl | contradiction
      rcases (hall t ht).polled.reporting d hd herr with ⟨p, hpc⟩ | ⟨m, hm, hcmd, he⟩
      · simp [hret] at hpc
      · exact ⟨d, m, hr, hm, hcmd, he⟩
    · have hpoll := hu.polling
      simp [hret, TimerPc.polling] at hpoll

/-- The ip test until its worker, which cannot resolve the name of the peer, sets UNREACHABLE. -/
def unresolvedFlag : List Action :=
  List.replicate 8 (Action.main true) ++ [Action.worker 0 { ok := false }, .worker 0 {}]

theorem raised_flag_reported_unresolved : ∃ t : Sys, t.phase.timer.pc = .returned ∧
    ∃ d m, t.sh.g.raised d = true ∧ .platform t.phase.testCase m ∈ t.sh.log ∧ m.cmd = .error ∧
      m.error = some (d.errorCode, d.errorDescription) := by
  obtain ⟨s, t, hs, hc, hstop, ht, hp, hret, hrun⟩ : ∃ s t : Sys,
      Run (step Env.default) (fun s a => Created a ∧ Audible s a)
        (measurementStart true true true Globals.default) s ∧
      s.sh.g.raised .unreachable = true ∧ s.sh.g.timerStopped = false ∧
      Run (step Env.default) (fun s a => Created a ∧ Audible s a) s t ∧ t.past = s.past ∧
      t.phase.timer.pc = .returned ∧ t.sh.g.running = true :=
    ⟨_, _, run_of_exec unresolvedFlag rfl, by decide, by decide,
      run_of_exec (.worker 0 {} :: List.replicate 9 .timer) rfl, by rfl, by decide, by decide⟩
  exact ⟨t, hret, raised_flag_reported Env.default (fun _ i j h => Int.ofNat.inj h) true true true
    Globals.default hs hc hstop ht hp hret hrun⟩

/-- Every parameter at its default, so that TLS is on. -/
def tlsEnv : Env :=
  { Env.default with
    readLong := fun _ value => value
    parse := Libtool.parse }

/-- An ip report without TLS parameters. -/
def bareReport : List Char := "\x7b\"cmd\":\"ip_report\",\"client\":\"192.0.2.1\"\x7d".toList

/-- The ip test until its worker sets TLS_PARAMETERS_MISSING; the timer has entered the inner
loop. -/
def tlsFlag : List Action :=
  List.replicate 8 (Action.main true) ++ List.replicate 8 (Action.worker 0 {}) ++
    [Action.worker 0 { code := bareReport.length, text := bareReport }, .worker 0 {}] ++
    List.replicate 19 Action.timer ++ List.replicate 4 (Action.worker 0 {})

/-- The report after half a second ends the test case before the timer tests the flag again. -/
theorem tlsFlag_not_reported : ∃ s t, Run (step tlsEnv) (fun _ a => Created a)
      (measurementStart true true true Globals.default) s ∧
    s.sh.g.tlsParametersMissing = true ∧ s.sh.g.timerStopped = false ∧
    Run (step tlsEnv) (fun _ a => Created a) s t ∧ t.past.length = s.past.length ∧
    t.phase.timer.pc = .returned ∧ t.sh.g.running = true ∧
    ∀ e ∈ t.sh.log, e.cmd ≠ some .error :=
  ⟨_, _, run_of_exec tlsFlag rfl, by decide, by decide,
    run_of_exec (List.replicate 2 (Action.worker 0 {}) ++ [Action.clock 600000] ++
      List.replicate 18 Action.timer)
      rfl, by decide, by decide, by decide, by decide⟩

end IasClient
