import IasClient.Model.TimeInfo
import IasClient.Control.Completion
import IasClient.Control.FinalResults
import IasClient.Control.RelativeTimes

namespace IasClient

open Framework

namespace TimeInfo

/-- An instant of the test case. The start of a worker that has not read the clock is none. -/
def At (i : TimeInfo) (k : TestCase) (v : UInt64) : Prop :=
  i.started k = some (some v) ∨ i.ended k = some v

/-- The instants follow each other as what they stand for. -/
structure Ordered (i : TimeInfo) : Prop where
  began : ∀ k v, i.At k v → i.measurementStart ≤ v
  within : ∀ k u v, i.started k = some (some u) → i.ended k = some v → u ≤ v
  follow : ∀ j k u v, j.number < k.number → i.At j u → i.At k v → u ≤ v
  last : ∀ k u v, i.At k u → i.measurementEnd = some v → u ≤ v

section Record

variable {i : TimeInfo} {j k : TestCase} {c : Call} {now u v : UInt64} {w : Worker}

theorem started_record :
    (i.record k c now w).started j = some (some u) ↔
      if j = k then ∃ a, w.measurementTimeStart = some a ∧ a * 1000 = u
      else i.started j = some (some u) := by
  by_cases hj : j = k <;> simp [record, hj]

theorem ended_record :
    (i.record k c now w).ended j = some v ↔
      if j = k ∧ c = .finish then now * 1000 = v else i.ended j = some v := by
  by_cases hj : j = k <;> by_cases hc : c = .finish <;>
    simp [record, hj, hc]

theorem at_record (h : (i.record k c now w).At j v) :
    i.At j v ∨
      j = k ∧ ((∃ a, w.measurementTimeStart = some a ∧ a * 1000 = v) ∨ v = now * 1000) := by
  rcases h with h | h
  · rw [started_record] at h
    split at h
    · exact .inr ⟨‹_›, .inl h⟩
    · exact .inl (.inl h)
  · rw [ended_record] at h
    split at h
    · rename_i hc
      exact .inr ⟨hc.1, .inr h.symm⟩
    · exact .inl (.inr h)

end Record

end TimeInfo

/-- The positions behind the last instant. -/
def TimerPc.dated : TimerPc → Bool
  | .callback _ p => p.sent
  | .clearActive | .returned => true
  | _ => false

variable {env : Env} {k : TestCase} {sh sh' : Shared} {t t' : Timer} {objects : List Worker}
variable {s s' : Dated} {a : Action} {now floor : UInt64}

theorem CCallback.times_cases (hw : t.Wf k) (hn : sh.g.nTestCase = k) (i : TimeInfo) :
    CCallback.times objects sh t i = i ∨
      (∃ c p w, t.pc = .callback c p ∧ p.sent = false ∧ w ∈ objects ∧
        CCallback.times objects sh t i = i.record k c sh.g.now w) ∨
      ∃ c, t.pc = .callback c .toPlatform ∧ sh.g.allPerformed = true ∧
        CCallback.times objects sh t i = { i with measurementEnd := some (sh.g.now * 1000) } := by
  cases hp : t.pc
  case callback c p =>
    have hin := (hw.called c p hp).2
    cases p <;> simp only [CCallback.times, hp]
    case ipTimes =>
      obtain rfl : k = .ip := by simp_all [CallbackPc.within]
      split
      · exact .inl rfl
      · exact .inr (.inl ⟨_, _, _, rfl, rfl, List.mem_of_getElem? ‹_›, rfl⟩)
    case rttCounters r =>
      obtain rfl : k = .rttUdp := by simp_all [CallbackPc.within]
      cases r
      case requestsReplies =>
        simp only
        split
        · exact .inl rfl
        · exact .inr (.inl ⟨_, _, _, rfl, rfl, List.mem_of_getElem? ‹_›, rfl⟩)
      all_goals exact .inl rfl
    case visit =>
      split
      · exact .inl rfl
      · rename_i w hobj
        subst hn
        cases hk : sh.g.nTestCase
        case ip | rttUdp => exact .inl rfl
        all_goals exact .inr (.inl ⟨_, _, w, rfl, rfl, List.mem_of_getElem? hobj, rfl⟩)
    case toPlatform =>
      split
      · exact .inr (.inr ⟨c, rfl, ‹_›, rfl⟩)
      · exact .inl rfl
    all_goals exact .inl trivial
  all_goals exact .inl (by simp only [CCallback.times, hp])

/-- The instants of a measurement whose current test case was entered at `floor`. -/
structure Chronicle (floor : UInt64) (s : Dated) : Prop where
  now : floor ≤ s.sys.sh.g.now
  bound : s.sys.sh.g.now.toNat * 1000 < 2 ^ 64
  begun : s.time.measurementStart ≤ floor * 1000
  workers : ∀ w ∈ s.sys.phase.workers, ∀ v, w.measurementTimeStart = some v →
    floor ≤ v ∧ v ≤ s.sys.sh.g.now
  past : ∀ k v, s.time.At k v → v ≤ s.sys.sh.g.now * 1000
  before : ∀ k v, s.time.At k v → k ≠ s.sys.phase.testCase → v ≤ floor * 1000
  started : ∀ k v, s.time.At k v → k ∈ starts s.sys.sh.log
  finish : ∀ v, s.time.ended s.sys.phase.testCase = some v → .finish ∈ s.sys.phase.timer.calls
  ended : s.time.measurementEnd ≠ none →
    s.sys.sh.g.allPerformed = true ∧ s.sys.phase.timer.pc.dated = true
  ordered : s.time.Ordered

theorem ns_le {a b : UInt64} (h : a ≤ b) (hb : b.toNat * 1000 < 2 ^ 64) : a * 1000 ≤ b * 1000 := by
  have hab := Nat.mul_le_mul_right 1000 (UInt64.le_iff_toNat_le.mp h)
  rw [UInt64.le_iff_toNat_le, toNat_ns (lt_of_le_of_lt hab hb), toNat_ns hb]
  exact hab

/-- A report or finish records a worker of the current test case. -/
theorem Chronicle.record (h : Chronicle floor s) (hx : InOrder s.sys) {k : TestCase}
    (hin : s.sys.main.inside = some k) (hk : s.sys.phase.testCase = k)
    (hst : k ∈ starts s.sys.sh.log) (hwf : s.sys.phase.timer.Wf k) {c : Call} {p : CallbackPc}
    (hp : s.sys.phase.timer.pc = .callback c p) (hsent : p.sent = false) {w : Worker}
    (hw : w ∈ s.sys.phase.workers) :
    Chronicle floor { s with time := s.time.record k c s.sys.sh.g.now w } := by
  have hfloor := ns_le h.now h.bound
  -- the new instants lie between the entry of the test case and the clock
  have hnew (v : UInt64) (hv : (∃ a, w.measurementTimeStart = some a ∧ a * 1000 = v) ∨
      v = s.sys.sh.g.now * 1000) : floor * 1000 ≤ v ∧ v ≤ s.sys.sh.g.now * 1000 := by
    rcases hv with ⟨a, ha, rfl⟩ | rfl
    · obtain ⟨hlow, hhigh⟩ := h.workers w hw a ha
      have hb := UInt64.le_iff_toNat_le.mp hhigh
      have hstart := lt_of_le_of_lt (Nat.mul_le_mul_right 1000 hb) h.bound
      exact ⟨ns_le hlow hstart, ns_le hhigh h.bound⟩
    · exact ⟨hfloor, UInt64.le_refl _⟩
  have hend : s.time.measurementEnd = none := by
    by_contra hne
    have := (h.ended hne).2
    simp [hp, TimerPc.dated, hsent] at this
  have habove (j : TestCase) (v : UInt64) (hj : s.time.At j v) : ¬ k.number < j.number := by
    have hb := (hx.started j (h.started j v hj)).1
    rw [bound_inside hin] at hb
    omega
  refine ⟨h.now, h.bound, h.begun, h.workers, fun j v hv => ?_, fun j v hv hne => ?_,
    fun j v hv => ?_, fun v hv => ?_, fun hne => absurd hend hne, ?_, fun j u v hu hv => ?_,
    fun j l u v hjl hu hv => ?_, fun j u v _ hv => ?_⟩
  · rcases TimeInfo.at_record hv with hv | ⟨-, hv⟩
    · exact h.past j v hv
    · exact (hnew v hv).2
  · rcases TimeInfo.at_record hv with hv | ⟨hj, -⟩
    · exact h.before j v hv hne
    · exact absurd (hj.trans hk.symm) hne
  · rcases TimeInfo.at_record hv with hv | ⟨rfl, -⟩
    · exact h.started j v hv
    · exact hst
  · rw [hk, TimeInfo.ended_record] at hv
    split at hv
    · rename_i hc
      exact hc.2 ▸ (hwf.called c p hp).1
    · exact h.finish v (hk ▸ hv)
  · intro j v hv
    rcases TimeInfo.at_record hv with hv | ⟨-, hv⟩
    · exact h.ordered.began j v hv
    · exact UInt64.le_trans h.begun (hnew v hv).1
  · rw [TimeInfo.started_record] at hu
    rw [TimeInfo.ended_record] at hv
    by_cases hj : j = k
    · subst hj
      by_cases hc : c = .finish
      · simp only [hc, and_self, if_true] at hu hv
        exact hv ▸ (hnew u (.inl hu)).2
      · -- a report comes before the finish
        simp only [hc, and_false, if_false] at hv
        have hfin := hwf.finish (h.finish v (hk ▸ hv))
        rw [hp] at hfin
        cases c <;> simp_all [TimerPc.finishing]
    · simp only [hj, false_and, if_false] at hu hv
      exact h.ordered.within j u v hu hv
  · rcases TimeInfo.at_record hu with hu' | ⟨hj, -⟩
    · rcases TimeInfo.at_record hv with hv' | ⟨hl, hv'⟩
      · exact h.ordered.follow j l u v hjl hu' hv'
      · have hjk : j ≠ s.sys.phase.testCase := by
          rintro rfl
          rw [hk, hl] at hjl
          exact lt_irrefl _ hjl
        exact UInt64.le_trans (h.before j u hu' hjk) (hnew v hv').1
    · rcases TimeInfo.at_record hv with hv' | ⟨hl, -⟩
      · exact absurd (hj ▸ hjl) (habove l v hv')
      · exact absurd hjl (by rw [hj, hl]; exact lt_irrefl _)
  · have hv' : s.time.measurementEnd = some v := hv
    simp [hend] at hv'

/-- A step that writes no instant. -/
theorem Chronicle.congr (h : Chronicle floor s) (htime : s'.time = s.time)
    (hnow : s.sys.sh.g.now ≤ s'.sys.sh.g.now) (hbound : s'.sys.sh.g.now.toNat * 1000 < 2 ^ 64)
    (hk : s'.sys.phase.testCase = s.sys.phase.testCase)
    (hworkers : ∀ w ∈ s'.sys.phase.workers, ∀ v, w.measurementTimeStart = some v →
      floor ≤ v ∧ v ≤ s'.sys.sh.g.now)
    (hstarts : ∀ k ∈ starts s.sys.sh.log, k ∈ starts s'.sys.sh.log)
    (hcalls : ∀ c ∈ s.sys.phase.timer.calls, c ∈ s'.sys.phase.timer.calls)
    (hended : s.time.measurementEnd ≠ none → s'.sys.sh.g.allPerformed = true ∧
      s'.sys.phase.timer.pc.dated = true) : Chronicle floor s' where
  now := UInt64.le_trans h.now hnow
  bound := hbound
  begun := htime ▸ h.begun
  workers := hworkers
  past k v hv := UInt64.le_trans (h.past k v (htime ▸ hv)) (ns_le hnow hbound)
  before k v hv hne := h.before k v (htime ▸ hv) (hk ▸ hne)
  started k v hv := hstarts k (h.started k v (htime ▸ hv))
  finish v hv := hcalls _ (h.finish v (by rwa [htime, hk] at hv))
  ended hne := hended (htime ▸ hne)
  ordered := htime ▸ h.ordered

/-- Behind the last instant comes no other. -/
theorem CTimer.run_dated (hw : t.Wf k) (hd : t.pc.dated = true)
    (h : CTimer.run env k objects sh t = some (sh', t')) :
    t'.pc.dated = true ∧ sh'.g.allPerformed = sh.g.allPerformed := by
  cases hp : t.pc <;> simp only [hp, TimerPc.dated, Bool.false_eq_true] at hd <;>
    simp only [CTimer.run, hp, Timer.goto] at h
  case callback c p =>
    have hin := (hw.called c p hp).2
    cases p <;> simp only [CallbackPc.sent, Bool.false_eq_true] at hd
    all_goals
      obtain rfl : c = .finish := eq_of_beq hin
      simp only [CCallback.callback, Timer.goto] at h
    · split at h <;> obtain ⟨rfl, rfl⟩ := Prod.mk.inj (Option.some.inj h) <;> exact ⟨rfl, rfl⟩
    · obtain ⟨rfl, rfl⟩ := Prod.mk.inj (Option.some.inj h)
      exact ⟨rfl, rfl⟩
  case clearActive =>
    obtain ⟨rfl, rfl⟩ := Prod.mk.inj (Option.some.inj h)
    exact ⟨rfl, rfl⟩
  case returned => contradiction

/-- The last instant. -/
theorem Chronicle.close (h : Chronicle floor s) (hall : s.sys.sh.g.allPerformed = true)
    (hd : s.sys.phase.timer.pc.dated = true) :
    Chronicle floor
      { s with time := { s.time with measurementEnd := some (s.sys.sh.g.now * 1000) } } :=
  { h with
    ended := fun _ => ⟨hall, hd⟩
    ordered :=
      { h.ordered with
        last := fun k u _ hu hv => Option.some.inj hv ▸ h.past k u hu } }

variable {enabled : TestCase → Bool} {q : Option (TestCase × TestStage)}

theorem Chronicle.step_timer (h : Chronicle floor s) (ht : Threads env s.sys)
    (hx : InOrder s.sys) (hp : Performing s.sys) (hT : Told enabled s.sys q)
    (hs : CTimer.run env s.sys.phase.testCase s.sys.phase.objects s.sys.sh s.sys.phase.timer =
      some (sh', t')) (events : List (Event × TimeInfo)) :
    Chronicle floor
      { sys := { s.sys with sh := sh', phase := { s.sys.phase with timer := t' } }
        time := CCallback.times s.sys.phase.objects s.sys.sh s.sys.phase.timer s.time
        events := events } := by
  obtain ⟨k, hin, -⟩ := ht.timer_inside (CTimer.run_moves hs)
  obtain ⟨hk, hn, -⟩ := ht.testCase k hin
  have hwf := ht.timer
  have he := CTimer.run_effect hs
  have hnow := he.keeps_clock.1
  have hcalls : ∀ c ∈ s.sys.phase.timer.calls, c ∈ t'.calls := by
    intro c hc
    rcases CTimer.run_calls hwf hs with h | ⟨d, h, -⟩ <;> rw [h]
    · exact hc
    · exact List.mem_append_left _ hc
  have hstarts : ∀ j ∈ starts s.sys.sh.log, j ∈ starts sh'.log :=
    fun j hj => (CTimer.run_starts hs).symm ▸ hj
  -- a step that leaves the instants of `i` alone
  have hmove {i : TimeInfo} (hi : Chronicle floor { s with time := i })
      (hd : i.measurementEnd ≠ none → s.sys.phase.timer.pc.dated = true) : Chronicle floor
        { sys := { s.sys with sh := sh', phase := { s.sys.phase with timer := t' } }
          time := i
          events := events } := by
    refine hi.congr rfl (hnow ▸ UInt64.le_refl _) (hnow ▸ hi.bound) rfl ?_ hstarts hcalls ?_
    · exact hnow ▸ hi.workers
    · intro hne
      obtain ⟨h1, h2⟩ := CTimer.run_dated hwf (hd hne) hs
      exact ⟨h2.trans (hi.ended hne).1, h1⟩
  rcases CCallback.times_cases (hk ▸ hwf) hn s.time with hsame | ⟨c, p, w, hpc, hsent, hw, hrec⟩ |
    ⟨c, hpc, hall, hclose⟩
  · rw [hsame]
    exact hmove h fun hne => (h.ended hne).2
  · rw [hrec]
    obtain ⟨st, htell⟩ := hT.telling_of (by simp [hpc]) hk
    have hw' : w ∈ s.sys.phase.workers := by
      unfold Phase.objects at hw
      split at hw
      · exact hw
      · contradiction
    have hi := h.record hx hin hk htell.started (hk ▸ hwf) hpc hsent hw'
    exact hmove hi fun hne => (hi.ended hne).2
  · -- only the finish finds every test case performed
    have hperf := hp.called (enabled_performed_of_allPerformed hall
      (hp.enabled (List.ne_nil_of_mem (hwf.called c _ hpc).1)))
    obtain rfl : c = .finish := by
      have hfin := hwf.finish hperf
      rw [hpc] at hfin
      cases c <;> simp_all [TimerPc.finishing]
    have hnone : s.time.measurementEnd ≠ none → s.sys.phase.timer.pc.dated = true :=
      fun hne => (h.ended hne).2
    have hi := hmove h hnone
    simp only [CTimer.run, hpc, CCallback.callback, Timer.goto, if_true] at hs
    obtain ⟨rfl, rfl⟩ := Prod.mk.inj (Option.some.inj hs)
    rw [hclose]
    exact hi.close hall rfl

theorem Chronicle.step_main (h : Chronicle floor s) (ht : Threads env s.sys) (hx : InOrder s.sys)
    (hp : Performing s.sys) {s₁ : Sys} (hs : mainStep env true s.sys = some s₁)
    (events : List (Event × TimeInfo)) :
    ∃ floor', Chronicle floor' { sys := s₁, time := s.time, events := events } := by
  obtain ⟨hnow, -⟩ := mainStep_clock hs
  by_cases hst : ∃ k, s.sys.main = .startTestCase k
  · obtain ⟨k, hm⟩ := hst
    have hstarts : starts s₁.sh.log = starts s.sys.sh.log ++ [k] := by
      rcases mainStep_log hs with ⟨hl, -⟩ | ⟨l, es, hl, hlog, hes⟩
      · exact absurd hm (hl k)
      · rw [hm, MainPc.startTestCase.injEq] at hl
        rw [hlog, starts_append, starts_startTestCase hes, hl]
    have hfresh : k ∉ starts s.sys.sh.log := fun hk => by
      have := (hx.started k hk).1
      simp [hm, MainPc.bound] at this
    have hopen : s.time.measurementEnd = none := by
      by_contra hne
      have hperf := enabled_performed_of_allPerformed (h.ended hne).1
        (hx.entered k (by simp [hm, MainPc.entered]))
      have := (hx.performed k hperf).1
      simp [hm, MainPc.bound] at this
    have htime : s₁.phase.workers = [] ∧ s₁.phase.testCase = k := by
      simp only [mainStep, hm] at hs
      exact (Option.some.inj hs) ▸ ⟨rfl, rfl⟩
    refine ⟨s.sys.sh.g.now, ⟨hnow ▸ UInt64.le_refl _, hnow ▸ h.bound,
      UInt64.le_trans h.begun (ns_le h.now h.bound), by simp [htime.1],
      fun j v hv => hnow ▸ h.past j v hv, fun j v hv _ => h.past j v hv, fun j v hv => ?_,
      fun v hv => ?_, fun hne => absurd hopen hne, h.ordered⟩⟩
    · rw [hstarts]
      exact List.mem_append_left _ (h.started j v hv)
    · exact absurd (h.started k v (.inr (htime.2 ▸ hv))) hfresh
  by_cases hcon : ∃ k, s.sys.main = .construct k
  · obtain ⟨k, hm⟩ := hcon
    have hcalls := hp.construct k hm
    have hk := (ht.testCase k (by rw [hm]; rfl)).1
    have hentered := hx.entered k (by rw [hm]; rfl)
    simp only [mainStep, hm] at hs
    obtain rfl := Option.some.inj hs
    refine ⟨floor, ⟨h.now, h.bound, h.begun, h.workers, h.past, h.before, h.started,
      fun v hv => ?_, fun hne => ?_, h.ordered⟩⟩
    · have := h.finish v hv
      simp [hcalls] at this
    · have := hp.called (hk ▸ enabled_performed_of_allPerformed (h.ended hne).1 hentered)
      simp [hcalls] at this
  · rw [not_exists] at hst hcon
    obtain ⟨-, -, htimer, htc⟩ := mainStep_grows hs hcon hst
    have hlog : s₁.sh.log = s.sys.sh.log := by
      rcases mainStep_log hs with ⟨-, hlog⟩ | ⟨k, es, hm, -⟩
      · exact hlog
      · exact absurd hm (hst k)
    have hg := mainStep_persists hs
    have hall : s₁.sh.g.allPerformed = s.sys.sh.g.allPerformed :=
      allPerformed_congr (mainStep_performed hs) (funext hg.enabled)
    refine ⟨floor, h.congr rfl (hnow ▸ UInt64.le_refl _) (hnow ▸ h.bound) htc ?_ (by simp [hlog])
      (by simp [htimer]) fun hne => ?_⟩
    · intro w hw
      rw [hnow]
      rcases mainStep_workers hs hw with ⟨v, hv, rfl | ⟨-, rfl⟩⟩ | ⟨k, -, rfl⟩
      · exact h.workers _ hv
      · exact h.workers v hv
      · intro v hread
        contradiction
    · rw [hall, htimer]
      exact h.ended hne

/-- A reading of the clock is not before `now`, and its nanoseconds do not wrap. -/
def NotBefore (now : UInt64) : Action → Prop
  | .clock next => now ≤ next ∧ next.toNat * 1000 < 2 ^ 64
  | _ => True

/-- No `createThread` fails, and the clock runs forwards. -/
def Onward (s : Dated) (a : Action) : Prop := Created a ∧ NotBefore s.sys.sh.g.now a

theorem Chronicle.step (h : Chronicle floor s) (ht : Threads env s.sys) (hx : InOrder s.sys)
    (hp : Performing s.sys) (hT : Told enabled s.sys q) (ha : Onward s a)
    (hs : Dated.step env a s = some s') : ∃ floor', Chronicle floor' s' := by
  obtain ⟨hcreated, hclock⟩ := ha
  simp only [Dated.step, Option.map_eq_some_iff] at hs
  obtain ⟨s₁, hs, rfl⟩ := hs
  cases step_moved ht.past hs with
  | main hm =>
    subst hcreated
    exact h.step_main ht hx hp hm _
  | timer hstep => exact ⟨floor, h.step_timer ht hx hp hT hstep _⟩
  | @worker j o w w' g hw hstep =>
    have he := Worker.run_effect hstep
    have hnow : g.now = s.sys.sh.g.now := he.keeps_now
    refine ⟨floor, h.congr rfl (hnow ▸ UInt64.le_refl _) (hnow ▸ h.bound) rfl (fun v hv => ?_)
      (fun _ hk => hk) (fun _ hc => hc) fun hne => ?_⟩
    · change ∀ a, _ → _ ∧ a ≤ g.now
      rw [hnow]
      rcases List.mem_or_eq_of_mem_set hv with hv | rfl
      · exact h.workers v hv
      · rcases Worker.run_start hstep with hsame | ⟨-, hread⟩
        · exact hsame ▸ h.workers w (List.mem_of_getElem? hw)
        · rw [hread]
          rintro a ⟨⟩
          exact ⟨h.now, hnow ▸ UInt64.le_refl _⟩
    · obtain ⟨h1, h2⟩ := h.ended hne
      exact ⟨(allPerformed_congr he.keeps_performed (funext he.grows.enabled)).trans h1, h2⟩
  | stop =>
    exact ⟨floor, h.congr rfl (UInt64.le_refl _) h.bound rfl h.workers (fun _ hk => hk)
      (fun _ hc => hc) h.ended⟩
  | clock now =>
    obtain ⟨hle, hbound⟩ := hclock
    refine ⟨floor, h.congr rfl hle hbound rfl (fun w hw v hv => ?_) (fun _ hk => hk)
      (fun _ hc => hc) h.ended⟩
    obtain ⟨hlow, hhigh⟩ := h.workers w hw v hv
    exact ⟨hlow, UInt64.le_trans hhigh hle⟩

variable {rtt download upload : Bool} {old : Globals}

theorem Dated.run_sys (h : Run (Dated.step env) Onward (Dated.start rtt download upload old) s) :
    Run (IasClient.step env) (fun _ a => Created a) (measurementStart rtt download upload old)
      s.sys := by
  refine Run.map Dated.sys (fun _ _ ha => ha.1) (fun t a u hs => ?_) h
  simp only [Dated.step, Option.map_eq_some_iff] at hs
  obtain ⟨s₁, hs, rfl⟩ := hs
  exact hs

theorem Chronicle.run (hnow : old.now.toNat * 1000 < 2 ^ 64)
    (h : Run (Dated.step env) Onward (Dated.start rtt download upload old) s) :
    (∃ floor, Chronicle floor s) ∧ ∀ e ∈ s.events, e.2.Ordered := by
  refine Run.invariant_of (I := fun t => (∃ floor, Chronicle floor t) ∧ ∀ e ∈ t.events, e.2.Ordered)
    (J := fun t => Run (IasClient.step env) (fun _ a => Created a)
      (measurementStart rtt download upload old) t.sys) (fun t => Dated.run_sys) ?_ ?_ h
  · rintro t a u ht - ⟨⟨floor, hc⟩, he⟩ ha hs
    obtain ⟨hx, hp⟩ := Performing.run ht
    obtain ⟨q, -, hT⟩ := Told.run ht
    obtain ⟨floor', hc'⟩ := hc.step (Threads.run (fun _ _ h => h) ht) hx hp hT ha hs
    refine ⟨⟨floor', hc'⟩, fun e hmem => ?_⟩
    have hordered := hc'.ordered
    simp only [Dated.step, Option.map_eq_some_iff] at hs
    obtain ⟨s₁, -, rfl⟩ := hs
    rcases List.mem_append.mp hmem with hmem | hmem
    · exact he e hmem
    · obtain ⟨e', -, rfl⟩ := List.mem_map.mp hmem
      exact hordered
  · have hnone (k : TestCase) (v : UInt64) :
        ¬ (Dated.start rtt download upload old).time.At k v := by
      simp [Dated.start, TimeInfo.At]
    refine ⟨⟨old.now, UInt64.le_refl _, hnow, UInt64.le_refl _,
      by simp [Dated.start, measurementStart], fun k v hv => absurd hv (hnone k v),
      fun k v hv => absurd hv (hnone k v), fun k v hv => absurd hv (hnone k v),
      by simp [Dated.start], by simp [Dated.start], ?_⟩,
      by simp [Dated.start]⟩
    exact ⟨fun k v hv => absurd hv (hnone k v), by simp [Dated.start],
      fun j k u v _ hv => absurd hv (hnone j u), fun k u v hv => absurd hv (hnone k u)⟩

instance (now : UInt64) : DecidablePred (NotBefore now)
  | .clock _ => inferInstanceAs (Decidable (_ ∧ _))
  | .main _ | .timer | .worker .. | .pastTimer .. | .pastWorker .. | .stop => isTrue trivial

instance (s : Dated) : DecidablePred (Onward s) := fun _ => inferInstanceAs (Decidable (_ ∧ _))

end IasClient
