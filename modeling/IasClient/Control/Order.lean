import IasClient.Control.Joined
import IasClient.Model.Libtool

namespace IasClient

open Framework

/-- The test cases below this number have been passed, or the last of them is being worked on. -/
def MainPc.bound : MainPc → Nat
  | .gate k | .gateRunning k | .gateError k | .startTestCase k => k.number
  | .construct k | .startMeasurement k | .create k | .store k | .join k _ | .waitPerformed k
  | .waitError k | .waitRunning k | .destroy k _ | .joinTimer k => k.number + 1
  | .endPhase | .shutdown | .finished => 5

/-- The test case that the main thread has found enabled and not yet left. -/
def MainPc.entered : MainPc → Option TestCase
  | .gateRunning k | .gateError k | .startTestCase k => some k
  | m => m.inside

/-- The main thread has decided to run a test case, whose threads are not there yet. -/
def MainPc.opening : MainPc → Bool
  | .startTestCase _ | .construct _ => true
  | _ => false

/-- The thread of the test case `k` has sent its finish. -/
def SentFinish (k : TestCase) (log : List Event) : Prop :=
  ∃ m, .platform k m ∈ log ∧ m.cmd = .finish

/-- Every enabled test case before `k` has sent its finish, and its PERFORMED flag is true. -/
def Before (g : Globals) (log : List Event) (k : TestCase) : Prop :=
  ∀ j, g.enabled j = true → j.number < k.number → g.performed j = true ∧ SentFinish j log

/-- The test cases started, in order. -/
def starts (log : List Event) : List TestCase :=
  log.filterMap fun e => match e with
    | .startTestCase k => some k
    | .platform .. => none

def Completed (log : List Event) : Prop := ∃ e ∈ log, e.cmd = some .completed

/-- The invariant behind the order of the test cases. -/
structure InOrder (s : Sys) : Prop where
  started : ∀ k ∈ starts s.sh.log, k.number < s.main.bound ∧ s.sh.g.enabled k = true
  sorted : (starts s.sh.log).Pairwise fun j k => j.number < k.number
  gate : ∀ k, s.main = .gate k ∨ s.main = .gateRunning k →
    s.sh.g.running = false ∨ s.sh.g.hasError = true ∨ Before s.sh.g s.sh.log k
  gateError : ∀ k, s.main = .gateError k →
    s.sh.g.hasError = true ∨ Before s.sh.g s.sh.log k
  before : ∀ k, s.main = .startTestCase k ∨ s.main.inside = some k → Before s.sh.g s.sh.log k
  entered : ∀ k, s.main.entered = some k → s.sh.g.enabled k = true
  left : ∀ k, (∃ i, s.main = .destroy k i) ∨ s.main = .joinTimer k →
    s.sh.g.performed k = true ∨ s.sh.g.hasError = true ∨ s.sh.g.running = false
  performed : ∀ j, s.sh.g.performed j = true → j.number < s.main.bound ∧
    (SentFinish j s.sh.log ∨
      j = s.phase.testCase ∧ s.phase.timer.pc = .callback .finish .toPlatform)
  completing : ∀ c, s.phase.timer.pc = .callback c .completed →
    ∀ j, s.sh.g.enabled j = true → s.sh.g.performed j = true
  completed : Completed s.sh.log → (∀ j, s.sh.g.enabled j = true → j.number < s.main.bound) ∧
    (s.phase.timer.pc = .clearActive ∨ s.phase.timer.pc = .returned) ∧ s.main.opening = false
  closed : ∀ l₁ e l₂, s.sh.log = l₁ ++ e :: l₂ → e.cmd = some .completed →
    l₂ = [] ∧ ∀ k, s.sh.g.enabled k = true → SentFinish k l₁
  ordered : ∀ l₁ k l₂, s.sh.log = l₁ ++ Event.startTestCase k :: l₂ →
    ∀ j, s.sh.g.enabled j = true → j.number < k.number → SentFinish j l₁

variable {env : Env} {s s' : Sys} {a : Action}

theorem SentFinish.append {k : TestCase} {log : List Event} (h : SentFinish k log)
    (es : List Event) : SentFinish k (log ++ es) := by
  obtain ⟨m, hm, hf⟩ := h
  exact ⟨m, List.mem_append_left _ hm, hf⟩

theorem Before.persists {g g' : Globals} {log : List Event} {k : TestCase} (h : Before g log k)
    (hg : g.Persists g') (es : List Event) : Before g' (log ++ es) k := by
  intro j he hj
  rw [hg.enabled] at he
  exact ⟨hg.performed j (h j he hj).1, (h j he hj).2.append es⟩

theorem starts_append (l es : List Event) : starts (l ++ es) = starts l ++ starts es :=
  List.filterMap_append

/-- Splitting a list that grew: at an old element, or at a new one. -/
theorem append_eq_split {α : Type} {log es l₁ l₂ : List α} {e : α} (h : log ++ es = l₁ ++ e :: l₂) :
    (∃ r, log = l₁ ++ e :: r ∧ l₂ = r ++ es) ∨
      ∃ r, l₁ = log ++ r ∧ es = r ++ e :: l₂ := by
  rcases List.append_eq_append_iff.mp h with ⟨r, h1, h2⟩ | ⟨r, h1, h2⟩
  · exact .inr ⟨r, h1, h2⟩
  · cases r with
    | nil => exact .inr ⟨[], by simpa using h1.symm, by simpa using h2.symm⟩
    | cons a r =>
      simp only [List.cons_append, List.cons.injEq] at h2
      obtain ⟨rfl, rfl⟩ := h2
      exact .inl ⟨r, h1, rfl⟩

theorem bound_afterTestCase (k : TestCase) : (afterTestCase k).bound = k.number + 1 := by
  cases k <;> rfl

theorem entered_afterTestCase (k : TestCase) : (afterTestCase k).entered = none := by
  cases k <;> rfl

/-- A step that moves neither the timer nor the log. -/
theorem InOrder.goto (hx : InOrder s) (hlog : s'.sh.log = s.sh.log)
    (ht : s'.phase.timer.pc = s.phase.timer.pc) (hk : s'.phase.testCase = s.phase.testCase)
    (hg : s.sh.g.Persists s'.sh.g) (hp : s'.sh.g.performed = s.sh.g.performed)
    (hb : s.main.bound ≤ s'.main.bound)
    (hgate : ∀ k, s'.main = .gate k ∨ s'.main = .gateRunning k →
      s'.sh.g.running = false ∨ s'.sh.g.hasError = true ∨ Before s'.sh.g s'.sh.log k)
    (herr : ∀ k, s'.main = .gateError k → s'.sh.g.hasError = true ∨ Before s'.sh.g s'.sh.log k)
    (hbefore : ∀ k, s'.main = .startTestCase k ∨ s'.main.inside = some k →
      Before s'.sh.g s'.sh.log k)
    (hent : ∀ k, s'.main.entered = some k → s'.sh.g.enabled k = true)
    (hleft : ∀ k, (∃ i, s'.main = .destroy k i) ∨ s'.main = .joinTimer k →
      s'.sh.g.performed k = true ∨ s'.sh.g.hasError = true ∨ s'.sh.g.running = false)
    (hopen : Completed s.sh.log → s'.main.opening = false) : InOrder s' where
  started k h := by
    rw [hlog] at h
    exact ⟨Nat.lt_of_lt_of_le (hx.started k h).1 hb, (hg.enabled k).trans (hx.started k h).2⟩
  sorted := hlog ▸ hx.sorted
  gate := hgate
  gateError := herr
  before := hbefore
  entered := hent
  left := hleft
  performed j h := by
    rw [hp] at h
    obtain ⟨h1, h2⟩ := hx.performed j h
    rw [hlog, hk, ht]
    exact ⟨Nat.lt_of_lt_of_le h1 hb, h2⟩
  completing c h j he := by
    rw [hp]
    exact hx.completing c (ht ▸ h) j ((hg.enabled j) ▸ he)
  completed h := by
    rw [hlog] at h
    obtain ⟨h1, h2, -⟩ := hx.completed h
    refine ⟨fun j he => Nat.lt_of_lt_of_le (h1 j ((hg.enabled j) ▸ he)) hb, ?_, hopen h⟩
    rw [ht]
    exact h2
  closed l₁ e l₂ h he := by
    rw [hlog] at h
    obtain ⟨h1, h2⟩ := hx.closed l₁ e l₂ h he
    exact ⟨h1, fun k hk => h2 k ((hg.enabled k) ▸ hk)⟩
  ordered l₁ k l₂ h j he hj := by
    rw [hlog] at h
    exact hx.ordered l₁ k l₂ h j ((hg.enabled j) ▸ he) hj

theorem measurementStart_inOrder (rtt download upload : Bool) (old : Globals) :
    InOrder (measurementStart rtt download upload old) where
  started k h := by simp [measurementStart, starts] at h
  sorted := by simp [measurementStart, starts]
  gate k h := by
    have hk : k = .ip := by simpa [measurementStart, eq_comm] using h
    refine .inr (.inr fun j _ hj => ?_)
    rw [hk] at hj
    cases j <;> simp [TestCase.number] at hj
  gateError k h := by simp [measurementStart] at h
  before k h := by simp [measurementStart, MainPc.inside] at h
  entered k h := by simp [measurementStart, MainPc.entered, MainPc.inside] at h
  left k h := by simp [measurementStart] at h
  performed j h := by cases j <;> simp [measurementStart, Globals.performed] at h
  completing c h := by simp [measurementStart] at h
  completed h := by simp [measurementStart, Completed] at h
  closed l₁ e l₂ h := by simp [measurementStart] at h
  ordered l₁ k l₂ h := by simp [measurementStart] at h

theorem mainStep_performed {created : Bool} (h : mainStep env created s = some s') :
    s'.sh.g.performed = s.sh.g.performed := by
  cases hm : s.main <;> simp only [mainStep, hm] at h
  all_goals repeat' (split at h)
  all_goals try contradiction
  all_goals
    simp only [Option.some.injEq] at h
    subst h
    rfl

/-- The steps of the main thread that leave the log and the position of the timer alone. -/
theorem InOrder.goto_main (hx : InOrder s) {created : Bool} (h : mainStep env created s = some s')
    (hc : ∀ k, s.main ≠ .construct k) (hs : ∀ k, s.main ≠ .startTestCase k)
    (hb : s.main.bound ≤ s'.main.bound)
    (hgate : ∀ k, s'.main = .gate k ∨ s'.main = .gateRunning k →
      s'.sh.g.running = false ∨ s'.sh.g.hasError = true ∨ Before s'.sh.g s'.sh.log k)
    (herr : ∀ k, s'.main = .gateError k → s'.sh.g.hasError = true ∨ Before s'.sh.g s'.sh.log k)
    (hbefore : ∀ k, s'.main = .startTestCase k ∨ s'.main.inside = some k →
      Before s'.sh.g s'.sh.log k)
    (hent : ∀ k, s'.main.entered = some k → s'.sh.g.enabled k = true)
    (hleft : ∀ k, (∃ i, s'.main = .destroy k i) ∨ s'.main = .joinTimer k →
      s'.sh.g.performed k = true ∨ s'.sh.g.hasError = true ∨ s'.sh.g.running = false)
    (hopen : Completed s.sh.log → s'.main.opening = false) : InOrder s' := by
  obtain ⟨-, -, ht, hk⟩ := mainStep_grows h hc hs
  have hlog : s'.sh.log = s.sh.log := by
    rcases mainStep_log h with ⟨-, hl⟩ | ⟨k, _, hm, -⟩
    · exact hl
    · exact absurd hm (hs k)
  exact hx.goto hlog (by rw [ht]) hk (mainStep_persists h) (mainStep_performed h) hb hgate herr
    hbefore hent hleft hopen

/-- Inside a test case, before its wait loop is left. -/
theorem InOrder.goto_inside (hx : InOrder s) {created : Bool} {k : TestCase}
    (h : mainStep env created s = some s') (hc : ∀ k, s.main ≠ .construct k)
    (hi : s.main.inside = some k) (hi' : s'.main.inside = some k)
    (ho : s'.main.opening = false)
    (hleft : (∃ i, s'.main = .destroy k i) ∨ s'.main = .joinTimer k →
      s.sh.g.performed k = true ∨ s.sh.g.hasError = true ∨ s.sh.g.running = false) :
    InOrder s' := by
  have hs : ∀ k, s.main ≠ .startTestCase k := by
    intro l hm
    simp [hm, MainPc.inside] at hi
  have hp := mainStep_persists h
  have hlog : s'.sh.log = s.sh.log := by
    rcases mainStep_log h with ⟨-, hl⟩ | ⟨k, _, hm, -⟩
    · exact hl
    · exact absurd hm (hs k)
  have hbound (m : MainPc) (hm : m.inside = some k) : m.bound = k.number + 1 := by
    cases m <;> simp_all [MainPc.inside, MainPc.bound]
  have hent (m : MainPc) (hm : m.inside = some k) : m.entered = some k := by
    cases m <;> simp_all [MainPc.inside, MainPc.entered]
  refine hx.goto_main h hc hs (Nat.le_of_eq ((hbound _ hi).trans (hbound _ hi').symm)) ?_ ?_ ?_ ?_ ?_
    (fun _ => ho)
  · rintro l (hl | hl) <;> simp [hl, MainPc.inside] at hi'
  · rintro l hl
    simp [hl, MainPc.inside] at hi'
  · rintro l (hl | hl)
    · simp [hl, MainPc.inside] at hi'
    · have := (hx.before k (.inr hi)).persists hp []
      rw [hi', Option.some.injEq] at hl
      rw [hlog]
      simpa [hl] using this
  · intro l hl
    rw [hent _ hi', Option.some.injEq] at hl
    rw [hp.enabled, ← hl]
    exact hx.entered k (hent _ hi)
  · intro l hl
    have hkl : l = k := by
      rcases hl with ⟨i, hl⟩ | hl <;> simpa [hl, MainPc.inside] using hi'
    subst hkl
    rcases hleft hl with h1 | h1 | h1
    · exact .inl (hp.performed _ h1)
    · exact .inr (.inl (hp.hasError h1))
    · exact .inr (.inr (hp.running h1))

/-- What holds at the gate of the test case after `k`. -/
theorem before_afterTestCase {g : Globals} {log : List Event} {k l : TestCase}
    (hl : afterTestCase k = .gate l ∨ afterTestCase k = .gateRunning l) (hb : Before g log k)
    (hk : g.enabled k = true → g.performed k = true ∧ SentFinish k log) : Before g log l := by
  intro j he hj
  have hjk : j.number < k.number ∨ j = k := by
    cases k <;> cases l <;> cases j <;>
      simp_all [afterTestCase, TestCase.next, TestCase.number]
  rcases hjk with hjk | rfl
  · exact hb j he hjk
  · exact hk he

/-- The steps to the next test case, or past the last one. -/
theorem InOrder.goto_after (hx : InOrder s) {k : TestCase}
    (hb : s.main.bound ≤ k.number + 1)
    (hgate : s.sh.g.running = false ∨ s.sh.g.hasError = true ∨ (Before s.sh.g s.sh.log k ∧
      (s.sh.g.enabled k = true → s.sh.g.performed k = true ∧ SentFinish k s.sh.log))) :
    InOrder { s with main := afterTestCase k } := by
  have hin : (afterTestCase k).inside = none := inside_afterTestCase k
  have hent : (afterTestCase k).entered = none := entered_afterTestCase k
  refine hx.goto rfl rfl rfl (Globals.Grows.refl _).toPersists rfl
    (by rw [bound_afterTestCase]; exact hb) ?_ ?_ ?_ ?_ ?_ ?_
  · intro l hl
    exact hgate.imp_right (Or.imp_right fun h => before_afterTestCase hl h.1 h.2)
  · intro l hl
    cases k <;> simp [afterTestCase, TestCase.next] at hl
  · rintro l (hl | hl)
    · cases k <;> simp [afterTestCase, TestCase.next] at hl
    · simp [hin] at hl
  · simp [hent]
  · rintro l (⟨i, hl⟩ | hl) <;> cases k <;> simp [afterTestCase, TestCase.next] at hl
  · intro _
    cases k <;> rfl

/-- The steps from one gate of a test case to the next. -/
theorem InOrder.goto_gate (hx : InOrder s) {k : TestCase} {pc : MainPc} (hs : s.main.bound = k.number)
    (hpc : pc.bound = k.number)
    (hgate : pc = .gateRunning k → s.sh.g.running = false ∨ s.sh.g.hasError = true ∨
      Before s.sh.g s.sh.log k)
    (herr : pc = .gateError k → s.sh.g.hasError = true ∨ Before s.sh.g s.sh.log k)
    (hstart : pc = .startTestCase k → Before s.sh.g s.sh.log k)
    (hkind : pc = .gateRunning k ∨ pc = .gateError k ∨ pc = .startTestCase k)
    (hen : s.sh.g.enabled k = true) : InOrder { s with main := pc } := by
  refine hx.goto rfl rfl rfl (Globals.Grows.refl _).toPersists rfl (by simp [hs, hpc]) ?_ ?_ ?_ ?_ ?_ ?_
  · rintro l (hl | hl) <;> rcases hkind with rfl | rfl | rfl <;> simp at hl
    exact hl ▸ hgate rfl
  · intro l hl
    rcases hkind with rfl | rfl | rfl <;> simp at hl
    exact hl ▸ herr rfl
  · rintro l (hl | hl) <;> rcases hkind with rfl | rfl | rfl <;> simp [MainPc.inside] at hl
    exact hl ▸ hstart rfl
  · intro l hl
    rcases hkind with rfl | rfl | rfl <;>
      simp only [MainPc.entered, Option.some.injEq] at hl <;> exact hl ▸ hen
  · rintro l (⟨i, hl⟩ | hl) <;> rcases hkind with rfl | rfl | rfl <;> simp at hl
  · intro hc
    have := (hx.completed hc).1 k hen
    omega

theorem starts_startTestCase {k : TestCase} {es : List Event}
    (hes : ∀ e ∈ es, ∃ m, e = .platform k m ∧ m.cmd = .started) :
    starts (.startTestCase k :: es) = [k] := by
  have hnil : starts es = [] := by
    refine List.filterMap_eq_nil_iff.mpr fun e he => ?_
    obtain ⟨m, rfl, -⟩ := hes e he
    rfl
  simpa [starts] using hnil

theorem InOrder.step_startTestCase (hx : InOrder s) (ht : Threads env s) {k : TestCase}
    (hm : s.main = .startTestCase k) (h : mainStep env true s = some s') : InOrder s' := by
  have hj := ht.joined
  simp only [Joined, hm] at hj
  have hp := mainStep_persists h
  have hperf := mainStep_performed h
  have hb := hx.before k (.inl hm)
  have hen := hx.entered k (by simp [hm, MainPc.entered])
  have hno : ¬ Completed s.sh.log := fun hc => by simpa [hm, MainPc.opening] using (hx.completed hc).2.2
  obtain ⟨es, hlog, hes⟩ : ∃ es, s'.sh.log = s.sh.log ++ Event.startTestCase k :: es ∧
      ∀ e ∈ es, ∃ m, e = .platform k m ∧ m.cmd = .started := by
    rcases mainStep_log h with ⟨hl, -⟩ | ⟨l, es, hl, hlog, hes⟩
    · exact absurd hm (hl k)
    · rw [hm, MainPc.startTestCase.injEq] at hl
      subst hl
      exact ⟨es, hlog, hes⟩
  have hno' : ¬ Completed s'.sh.log := by
    rintro ⟨e, he, hc⟩
    rw [hlog, List.mem_append, List.mem_cons] at he
    rcases he with he | rfl | he
    · exact hno ⟨e, he, hc⟩
    · simp [Event.cmd] at hc
    · obtain ⟨m, rfl, hm⟩ := hes e he
      simp [Event.cmd, hm] at hc
  have hst : starts s'.sh.log = starts s.sh.log ++ [k] := by
    rw [hlog, starts_append, starts_startTestCase hes]
  have hm' : s'.main = .construct k ∧ s'.phase.timer.pc = .returned := by
    simp only [mainStep, hm, Option.some.injEq] at h
    subst h
    exact ⟨rfl, rfl⟩
  obtain ⟨hm', htimer⟩ := hm'
  refine ⟨?_, ?_, by simp [hm'], by simp [hm'], ?_, ?_, by simp [hm'], ?_, by simp [htimer],
    fun hc => absurd hc hno', ?_, ?_⟩
  · intro l hl
    rw [hst, List.mem_append, List.mem_singleton] at hl
    rw [hp.enabled, hm']
    rcases hl with hl | rfl
    · obtain ⟨h1, h2⟩ := hx.started l hl
      simp only [hm, MainPc.bound] at h1 ⊢
      exact ⟨by omega, h2⟩
    · exact ⟨by simp [MainPc.bound], hen⟩
  · rw [hst]
    refine List.pairwise_append.mpr ⟨hx.sorted, List.pairwise_singleton .., ?_⟩
    intro i hi j hj
    rw [List.mem_singleton.mp hj]
    simpa [hm, MainPc.bound] using (hx.started i hi).1
  · intro l hl
    have hl : k = l := by simpa [hm', MainPc.inside] using hl
    rw [hlog]
    exact (hl ▸ hb).persists hp _
  · intro l hl
    have hl : k = l := by simpa [hm', MainPc.entered, MainPc.inside] using hl
    rw [hp.enabled]
    exact hl ▸ hen
  · intro j hj'
    rw [hperf] at hj'
    obtain ⟨h1, h2⟩ := hx.performed j hj'
    refine ⟨?_, .inl ?_⟩
    · simp only [hm, hm', MainPc.bound] at h1 ⊢
      omega
    · rw [hlog]
      exact (h2.resolve_right (by simp [hj.1])).append _
  · intro l₁ e l₂ hsplit hc
    exact absurd ⟨e, by simp [hsplit], hc⟩ hno'
  · intro l₁ l l₂ hsplit j he hjl
    rw [hp.enabled] at he
    rw [hlog] at hsplit
    rcases append_eq_split hsplit with ⟨r, hr, -⟩ | ⟨r, hr, hes'⟩
    · exact hx.ordered l₁ l r hr j he hjl
    · cases r with
      | nil =>
        simp only [List.nil_append, List.cons.injEq, Event.startTestCase.injEq] at hes'
        rw [hr, List.append_nil]
        exact (hb j he (hes'.1 ▸ hjl)).2
      | cons a r =>
        simp only [List.cons_append, List.cons.injEq] at hes'
        obtain ⟨m, hbad, -⟩ := hes (.startTestCase l) (by simp [hes'.2])
        simp at hbad

theorem InOrder.step_construct (hx : InOrder s) (ht : Threads env s) {k : TestCase}
    (hm : s.main = .construct k) (h : mainStep env true s = some s') : InOrder s' := by
  have hj := ht.joined
  simp only [Joined, hm] at hj
  have hno : ¬ Completed s.sh.log := fun hc => by simpa [hm, MainPc.opening] using (hx.completed hc).2.2
  have hent := hx.entered k (by simp [hm, MainPc.entered, MainPc.inside])
  have hb := hx.before k (.inr (by simp [hm, MainPc.inside]))
  have hperf := hx.performed
  have hst := hx.started
  simp only [mainStep, hm, Option.some.injEq] at h
  subst h
  refine ⟨?_, hx.sorted, by simp, by simp, ?_, ?_, by simp, ?_, by simp,
    fun hc => absurd hc hno, hx.closed, hx.ordered⟩
  · intro l hl
    obtain ⟨h1, h2⟩ := hst l hl
    exact ⟨by simpa [hm, MainPc.bound] using h1, h2⟩
  · intro l hl
    have hl : k = l := by simpa [MainPc.inside] using hl
    exact hl ▸ hb
  · intro l hl
    have hl : k = l := by simpa [MainPc.entered, MainPc.inside] using hl
    exact hl ▸ hent
  · intro j hj'
    obtain ⟨h1, h2⟩ := hperf j hj'
    exact ⟨by simpa [hm, MainPc.bound] using h1, .inl (h2.resolve_right (by simp [hj.1.1]))⟩

theorem InOrder.step_main (hx : InOrder s) (ht : Threads env s)
    (h : mainStep env true s = some s') : InOrder s' := by
  have hj := ht.joined
  have hstep := h
  cases hm : s.main <;> simp only [mainStep, hm] at h
  case startTestCase k => exact hx.step_startTestCase ht hm hstep
  case construct k => exact hx.step_construct ht hm hstep
  case gate k =>
    simp only [Option.some.injEq] at h
    subst h
    have hg := hx.gate k (.inl hm)
    split
    · rename_i hen
      exact hx.goto_gate (by simp [hm, MainPc.bound]) rfl (fun _ => hg) (by simp) (by simp)
        (.inl rfl) hen
    · rename_i hen
      exact hx.goto_after (by simp [hm, MainPc.bound])
        (hg.imp_right (Or.imp_right fun hb => ⟨hb, fun he => absurd he hen⟩))
  case gateRunning k =>
    simp only [Option.some.injEq] at h
    subst h
    have hg := hx.gate k (.inr hm)
    have hen := hx.entered k (by simp [hm, MainPc.entered])
    split
    · rename_i hr
      have hg := hg.resolve_left (by simp [hr])
      split
      · rename_i hk
        refine hx.goto_gate (by simp [hm, MainPc.bound]) rfl (by simp) (by simp) (fun _ => ?_)
          (.inr (.inr rfl)) hen
        intro j _ hj
        cases j <;> simp [hk, TestCase.number] at hj
      · exact hx.goto_gate (by simp [hm, MainPc.bound]) rfl (by simp) (fun _ => hg) (by simp)
          (.inr (.inl rfl)) hen
    · rename_i hr
      exact hx.goto_after (by simp [hm, MainPc.bound]) (.inl (by simpa using hr))
  case gateError k =>
    simp only [Option.some.injEq] at h
    subst h
    have hg := hx.gateError k hm
    have hen := hx.entered k (by simp [hm, MainPc.entered])
    split
    · rename_i he
      exact hx.goto_after (by simp [hm, MainPc.bound]) (.inr (.inl he))
    · rename_i he
      exact hx.goto_gate (by simp [hm, MainPc.bound]) rfl (by simp) (by simp)
        (fun _ => hg.resolve_left he) (.inr (.inr rfl)) hen
  case joinTimer k =>
    split at h
    case isFalse => contradiction
    rename_i hr
    simp only [Option.some.injEq] at h
    subst h
    refine hx.goto_after (by simp [hm, MainPc.bound]) ?_
    rcases hx.left k (.inr hm) with h1 | h1 | h1
    · refine .inr (.inr ⟨hx.before k (.inr (by simp [hm, MainPc.inside])), fun _ => ⟨h1, ?_⟩⟩)
      exact (hx.performed k h1).2.resolve_right (by simp [hr])
    · exact .inr (.inl h1)
    · exact .inl h1
  case endPhase | shutdown =>
    simp only [Option.some.injEq] at h
    subst h
    exact hx.goto_main hstep (by simp [hm]) (by simp [hm]) (by simp [hm, MainPc.bound]) (by simp)
      (by simp) (by simp [MainPc.inside]) (by simp [MainPc.entered, MainPc.inside]) (by simp)
      (fun _ => rfl)
  case finished => contradiction
  case waitPerformed k =>
    simp only [Option.some.injEq] at h
    subst h
    refine hx.goto_inside hstep (by simp [hm]) (by rw [hm]; rfl) (by split <;> rfl)
      (by split <;> rfl) ?_
    split <;> simp [*]
  case waitError k =>
    simp only [Option.some.injEq] at h
    subst h
    refine hx.goto_inside hstep (by simp [hm]) (by rw [hm]; rfl) (by split <;> rfl)
      (by split <;> rfl) ?_
    split <;> simp [*]
  case waitRunning k =>
    simp only [Option.some.injEq] at h
    subst h
    refine hx.goto_inside hstep (by simp [hm]) (by rw [hm]; rfl) (by split <;> rfl)
      (by split <;> rfl) ?_
    split <;> simp_all
  case destroy k i =>
    have hl := hx.left k (.inl ⟨i, hm⟩)
    split at h
    all_goals
      simp only [Option.some.injEq] at h
      subst h
      exact hx.goto_inside hstep (by simp [hm]) (by rw [hm]; rfl) rfl rfl (fun _ => hl)
  case startMeasurement k | create k | store k | join k i =>
    repeat' (split at h)
    all_goals try contradiction
    all_goals
      simp only [Option.some.injEq] at h
      subst h
      exact hx.goto_inside hstep (by simp [hm]) (by rw [hm]; rfl) rfl rfl (by simp)

theorem Timer.Effect.newly_performed {k : TestCase} {t t' : Timer} {sh sh' : Shared}
    (h : Timer.Effect k t t' sh sh') {j : TestCase} (hj : sh'.g.performed j = true) :
    sh.g.performed j = true ∨ j = sh.cb.mTestCase ∧
      ∃ c, t.pc = .callback c .performed ∧ t'.pc = .callback c .toPlatform := by
  cases h
  case performed c hp hp' =>
    rcases (Globals.setPerformed_performed _ _ _).mp hj with rfl | hj
    · exact .inr ⟨rfl, c, hp, hp'⟩
    · exact .inl hj
  all_goals exact .inl (by cases j <;> exact hj)

theorem enabled_performed_of_allPerformed {g : Globals} (h : g.allPerformed = true)
    {j : TestCase} (hj : g.enabled j = true) : g.performed j = true := by
  simp only [Globals.allPerformed, Bool.and_eq_true, beq_iff_eq] at h
  obtain ⟨⟨⟨h1, h2⟩, h3⟩, h4⟩ := h
  cases j <;> simp_all [Globals.enabled, Globals.performed]

/-- The messages of a step of the timer thread of the test case `k`. -/
def Sent (k : TestCase) (t : Timer) (es : List Event) : Prop :=
  es = [] ∨ ∃ m c, es = [.platform k m] ∧ (t.pc = .callback c .toPlatform ∧ m.cmd = c.cmd ∨
    t.pc = .callback c .completed ∧ m.cmd = .completed)

theorem Timer.Effect.sent {k : TestCase} {t t' : Timer} {sh sh' : Shared}
    (h : Timer.Effect k t t' sh sh') : ∃ es, sh'.log = sh.log ++ es ∧ Sent k t es := by
  rcases h.log with hl | ⟨m, c, hl, hm⟩
  · exact ⟨[], by simp [hl], .inl rfl⟩
  · exact ⟨_, hl, .inr ⟨m, c, rfl, hm⟩⟩

theorem Sent.starts {k : TestCase} {t : Timer} {es : List Event} (h : Sent k t es) :
    starts es = [] := by
  rcases h with rfl | ⟨m, c, rfl, -⟩ <;> simp [IasClient.starts]

/-- Only the last statement of a finish sends `completed`. -/
theorem Sent.completed {k : TestCase} {t : Timer} {es : List Event} (h : Sent k t es)
    (hc : Completed es) : ∃ c, t.pc = .callback c .completed := by
  obtain ⟨e, he, hcmd⟩ := hc
  rcases h with rfl | ⟨m, c, rfl, ⟨hp, hm⟩ | ⟨hp, hm⟩⟩
  · simp at he
  · rw [List.mem_singleton] at he
    subst he
    cases c <;> simp [Event.cmd, hm, Call.cmd] at hcmd
  · exact ⟨c, hp⟩

theorem completed_append {l es : List Event} :
    Completed (l ++ es) ↔ Completed l ∨ Completed es := by
  simp [Completed, or_and_right, exists_or]

/-- Once `completed` is sent, the timer only clears TIMER_ACTIVE. -/
theorem InOrder.sent_nil (hx : InOrder s) {es : List Event}
    (hes : Sent s.phase.testCase s.phase.timer es) (hc : Completed s.sh.log) : es = [] := by
  rcases hes with rfl | ⟨m, c, rfl, hp⟩
  · rfl
  · rcases (hx.completed hc).2.1 with h | h <;> rcases hp with ⟨hp, -⟩ | ⟨hp, -⟩ <;> simp [h] at hp

/-- At the last statement of a finish every enabled test case has sent its own. -/
theorem InOrder.sentFinish_of_completing (hx : InOrder s) {c : Call}
    (hp : s.phase.timer.pc = .callback c .completed) {j : TestCase}
    (hj : s.sh.g.enabled j = true) : SentFinish j s.sh.log :=
  (hx.performed j (hx.completing c hp j hj)).2.resolve_right (by simp [hp])

theorem InOrder.performed_timer (hx : InOrder s) (ht : Threads env s) {sh : Shared} {t : Timer}
    (h : CTimer.run env s.phase.testCase s.phase.objects s.sh s.phase.timer = some (sh, t))
    {j : TestCase} (hj : sh.g.performed j = true) : j.number < s.main.bound ∧
      (SentFinish j sh.log ∨ j = s.phase.testCase ∧ t.pc = .callback .finish .toPlatform) := by
  have he := CTimer.run_effect h
  obtain ⟨es, hlog, -⟩ := he.sent
  rcases he.newly_performed hj with hj | ⟨hj, c, hp, hp'⟩
  · obtain ⟨h1, h2 | ⟨rfl, hp⟩⟩ := hx.performed j hj
    · exact ⟨h1, .inl (hlog ▸ h2.append es)⟩
    · refine ⟨h1, .inl ?_⟩
      rw [CTimer.run_toPlatform hp h]
      exact ⟨_, List.mem_append_right _ (List.mem_singleton.mpr rfl), rfl⟩
  · obtain ⟨k, hin, -⟩ := ht.timer_inside (CTimer.run_moves h)
    obtain ⟨hk, -, hcb⟩ := ht.testCase k hin
    have hc : c = .finish := by simpa [CallbackPc.within] using (ht.timer.called c _ hp).2
    have hbound : s.main.bound = k.number + 1 := by
      cases hm : s.main <;> simp_all [MainPc.inside, MainPc.bound]
    refine ⟨?_, .inr ⟨hj.trans (hcb.trans hk.symm), hc ▸ hp'⟩⟩
    rw [hj, hcb, hbound]
    omega

theorem InOrder.step_timer (hx : InOrder s) (ht : Threads env s) {sh : Shared} {t : Timer}
    (h : CTimer.run env s.phase.testCase s.phase.objects s.sh s.phase.timer = some (sh, t)) :
    InOrder { s with sh := sh, phase := { s.phase with timer := t } } := by
  have he := CTimer.run_effect h
  have hp := he.grows.1.toPersists
  have harr := CTimer.run_arrives h
  obtain ⟨k, hin, hcon⟩ := ht.timer_inside (CTimer.run_moves h)
  have hopen : s.main.opening = false := by
    cases hm : s.main <;> simp_all [MainPc.inside, MainPc.opening]
  have hno (pc : MainPc) (hpc : pc.inside = none) : s.main ≠ pc := by
    intro hm
    simp [hm, hpc] at hin
  obtain ⟨es, hlog, hes⟩ := he.sent
  have hstarts : starts sh.log = starts s.sh.log := by
    rw [hlog, starts_append, hes.starts, List.append_nil]
  have hperf (j : TestCase) (hj : sh.g.performed j = true) := hx.performed_timer ht h hj
  refine ⟨?_, ?_, ?_, ?_, ?_, ?_, ?_, fun j => hperf j, ?_, ?_, ?_, ?_⟩
  · intro l hl
    rw [hp.enabled]
    exact hx.started l (hstarts ▸ hl)
  · exact hstarts ▸ hx.sorted
  · rintro l (hl | hl) <;> exact absurd hl (hno _ rfl)
  · exact fun l hl => absurd hl (hno _ rfl)
  · intro l hl
    simp only [hlog]
    exact (hx.before l hl).persists hp _
  · intro l hl
    rw [hp.enabled]
    exact hx.entered l hl
  · intro l hl
    rcases hx.left l hl with h1 | h1 | h1
    · exact .inl (hp.performed l h1)
    · exact .inr (.inl (hp.hasError h1))
    · exact .inr (.inr (hp.running h1))
  · intro c hc j hj
    exact enabled_performed_of_allPerformed (harr.completed c hc) hj
  · intro hc
    simp only [hlog, completed_append] at hc
    rcases hc with hc | hc
    · obtain ⟨h1, h2, h3⟩ := hx.completed hc
      refine ⟨fun j hj => h1 j ((hp.enabled j) ▸ hj), .inr ?_, h3⟩
      exact CTimer.run_clearActive (h2.resolve_right (CTimer.run_moves h)) h
    · obtain ⟨c, hc⟩ := hes.completed hc
      refine ⟨fun j hj => ?_, .inl ?_, hopen⟩
      · exact (hx.performed j (hx.completing c hc j ((hp.enabled j) ▸ hj))).1
      · have hfin : c = .finish := by
          simpa [CallbackPc.within] using (ht.timer.called c _ hc).2
        simp [CTimer.run_completed hc h, hfin, Timer.resume]
  · intro l₁ e l₂ hsplit hcmd
    simp only [hlog] at hsplit
    rcases append_eq_split hsplit with ⟨r, hr, hl₂⟩ | ⟨r, hr, hes'⟩
    · obtain ⟨hr', hfin⟩ := hx.closed l₁ e r hr hcmd
      have hnil := hx.sent_nil hes ⟨e, by simp [hr], hcmd⟩
      refine ⟨by simp [hl₂, hr', hnil], fun j hj => hfin j ((hp.enabled j) ▸ hj)⟩
    · obtain ⟨c, hc⟩ := hes.completed ⟨e, by simp [hes'], hcmd⟩
      have hl₂ : r = [] ∧ l₂ = [] := by
        rcases hes with hes | ⟨m, c, hes, -⟩ <;> rw [hes] at hes'
        · simp at hes'
        · cases r <;> simp_all
      refine ⟨hl₂.2, fun j hj => ?_⟩
      rw [hr, hl₂.1, List.append_nil]
      exact hx.sentFinish_of_completing hc ((hp.enabled j) ▸ hj)
  · intro l₁ l l₂ hsplit j hj hjl
    simp only [hlog] at hsplit
    rw [hp.enabled] at hj
    rcases append_eq_split hsplit with ⟨r, hr, -⟩ | ⟨r, hr, hes'⟩
    · exact hx.ordered l₁ l r hr j hj hjl
    · rcases hes with hes | ⟨m, c, hes, -⟩ <;> rw [hes] at hes' <;> cases r <;> simp at hes'

/-- A step of a worker, or from outside, that leaves the PERFORMED flags alone. -/
theorem InOrder.outside (hx : InOrder s) {g : Globals} {ws : List Worker}
    (hg : s.sh.g.Persists g) (hp : g.performed = s.sh.g.performed) :
    InOrder { s with sh := { s.sh with g := g }, phase := { s.phase with workers := ws } } := by
  have hb (k : TestCase) (h : Before s.sh.g s.sh.log k) : Before g s.sh.log k := by
    simpa using h.persists hg []
  refine hx.goto rfl rfl rfl hg hp (Nat.le_refl _) ?_ ?_ ?_ ?_ ?_ ?_
  · exact fun k hk => (hx.gate k hk).imp hg.running (Or.imp hg.hasError (hb k))
  · exact fun k hk => (hx.gateError k hk).imp hg.hasError (hb k)
  · exact fun k hk => hb k (hx.before k hk)
  · exact fun k hk => (hg.enabled k).trans (hx.entered k hk)
  · exact fun k hk => (hx.left k hk).imp (hg.performed k) (Or.imp hg.hasError hg.running)
  · exact fun hc => (hx.completed hc).2.2

theorem Worker.Effect.keeps_performed {k : TestCase} {w w' : Worker} {g g' : Globals}
    (h : Worker.Effect k w w' g g') : g'.performed = g.performed := by
  cases h <;> rfl

theorem InOrder.step (hx : InOrder s) (ht : Threads env s) (hc : Created a)
    (h : IasClient.step env a s = some s') : InOrder s' := by
  cases step_moved ht.past h with
  | main hm =>
    subst hc
    exact hx.step_main ht hm
  | timer h => exact hx.step_timer ht ‹_›
  | worker hw hstep =>
    have he := Worker.run_effect hstep
    exact hx.outside he.grows.toPersists he.keeps_performed
  | stop => exact hx.outside (step_persists ht.past h) rfl
  | clock now => exact hx.outside (step_persists ht.past h) rfl

/-- The order of the test cases and of the messages of a measurement. -/
structure PhaseOrder (enabled : TestCase → Bool) (log : List Event) : Prop where
  /-- the test cases start in order, each at most once -/
  started : (starts log).Pairwise fun j k => j.number < k.number
  /-- a test case starts after the finish of every enabled one before it -/
  finished : ∀ l₁ k l₂, log = l₁ ++ Event.startTestCase k :: l₂ →
    ∀ j, enabled j = true → j.number < k.number → SentFinish j l₁
  /-- nothing follows `completed`, which follows every finish -/
  completed : ∀ l₁ e l₂, log = l₁ ++ e :: l₂ → e.cmd = some .completed →
    l₂ = [] ∧ ∀ k, enabled k = true → SentFinish k l₁
  once : log.countP (fun e => e.cmd == some .completed) ≤ 1

theorem countP_le_one {α : Type} {p : α → Bool} {l : List α}
    (h : ∀ l₁ e l₂, l = l₁ ++ e :: l₂ → p e = true → l₂ = []) : l.countP p ≤ 1 := by
  induction l with
  | nil => simp
  | cons a l ih =>
    cases ha : p a with
    | true =>
      have hl := h [] a l rfl ha
      simp [hl, ha]
    | false =>
      rw [List.countP_cons_of_neg (by simp [ha])]
      exact ih fun l₁ e l₂ hl he => h (a :: l₁) e l₂ (by simp [hl]) he

theorem run_enabled {rtt download upload : Bool} {old : Globals}
    (h : Run (step env) (fun _ a => Created a) (measurementStart rtt download upload old) s) :
    s.sh.g.enabled = (measurementStart rtt download upload old).sh.g.enabled := by
  refine Run.invariant_of (J := Threads env)
    (I := fun t => t.sh.g.enabled = (measurementStart rtt download upload old).sh.g.enabled)
    (fun t hr => Threads.run (fun _ _ h => h) hr) ?_ rfl h
  exact fun t a u ht _ he _ hs => (funext (step_persists ht.past hs).enabled).trans he

/-- In every run in which no `createThread` fails, whatever the workers do and whenever RUNNING
turns false, the test cases and their messages come in order, and `startTestCase` is called with
the PERFORMED flag of every earlier enabled test case true. -/
theorem testCases_in_order (env : Env) (rtt download upload : Bool) (old : Globals)
    (h : Run (step env) (fun _ a => Created a) (measurementStart rtt download upload old) s) :
    PhaseOrder (measurementStart rtt download upload old).sh.g.enabled s.sh.log ∧
      ∀ k, s.main = .startTestCase k →
        ∀ j, (measurementStart rtt download upload old).sh.g.enabled j = true →
          j.number < k.number → s.sh.g.performed j = true ∧ SentFinish j s.sh.log := by
  have ht (t : Sys) (hr : Run (step env) (fun _ a => Created a)
      (measurementStart rtt download upload old) t) : Threads env t := Threads.run (fun _ _ h => h) hr
  have hx : InOrder s := by
    refine Run.invariant_of ht ?_ (measurementStart_inOrder ..) h
    exact fun t a u htt _ hx hc hs => hx.step htt hc hs
  rw [← run_enabled h]
  refine ⟨⟨hx.sorted, hx.ordered, hx.closed, ?_⟩, fun k hk => hx.before k (.inl hk)⟩
  exact countP_le_one fun l₁ e l₂ hl he => (hx.closed l₁ e l₂ hl (by simpa using he)).1

/-- The ip test, and the main thread until it has started `k` of the download streams. -/
def upToStream (k : Nat) : List Action :=
  List.replicate 8 (Action.main true) ++ List.replicate 8 (Action.worker 0 {}) ++
    [Action.worker 0 { code := 5 }] ++ List.replicate 4 (Action.worker 0 {}) ++
    List.replicate 17 Action.timer ++ [Action.clock 600000] ++ List.replicate 27 Action.timer ++
    List.replicate (13 + k) (Action.main true)

/-- The ip test from its start to the return of its timer, and the start of the RTT test. -/
def ipThenRtt : List Action :=
  List.replicate 8 (Action.main true) ++ List.replicate 8 (Action.worker 0 {}) ++
    [Action.worker 0 { code := 5 }] ++ List.replicate 4 (Action.worker 0 {}) ++
    List.replicate 17 Action.timer ++ [Action.clock 600000] ++ List.replicate 27 Action.timer ++
    List.replicate 10 (Action.main true)

theorem testCases_in_order_ipThenRtt : ∃ s : Sys, starts s.sh.log = [.ip, .rttUdp] ∧
    PhaseOrder (measurementStart true false false Globals.default).sh.g.enabled s.sh.log :=
  ⟨_, by decide, (testCases_in_order Env.default true false false Globals.default
    (run_of_exec ipThenRtt rfl)).1⟩

end IasClient
