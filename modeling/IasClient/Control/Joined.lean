import IasClient.Framework.Run
import IasClient.Control.WorkerEffect
import IasClient.Control.TimerEffect

namespace IasClient

open Framework

/-- Every `createThread` returns 0. -/
def Created : Action → Prop
  | .main created => created = true
  | _ => True

instance : DecidablePred Created
  | .main created => inferInstanceAs (Decidable (created = true))
  | .timer | .worker .. | .pastTimer .. | .pastWorker .. | .stop | .clock .. => isTrue trivial

namespace Phase

def WorkersReturned (p : Phase) : Prop := ∀ w ∈ p.workers, w.pc = .returned

/-- No thread of the test case is left. -/
def Ended (p : Phase) : Prop := p.timer.pc = .returned ∧ p.WorkersReturned

end Phase

/-- The test case that `startMeasurement` or `CMeasurement`'s constructor is working on. -/
def MainPc.inside : MainPc → Option TestCase
  | .construct k | .startMeasurement k | .create k | .store k | .join k _ | .waitPerformed k
  | .waitError k | .waitRunning k | .destroy k _ | .joinTimer k => some k
  | _ => none

/-- The position of the main thread against the threads of the current test case. -/
def Joined (s : Sys) : Prop :=
  match s.main with
  | .construct _ => s.phase.Ended ∧ s.phase.workers = [] ∧ s.phase.stored = false
  | .startMeasurement _ => s.phase.workers = [] ∧ s.phase.stored = false
  | .create _ => s.phase.stored = false ∧
      (s.phase.workers.length : Int) ≤ max 0 s.sh.g.instances
  | .store _ => s.phase.stored = false ∧
      (s.phase.workers.length : Int) = max 0 s.sh.g.instances
  | .join _ i => s.phase.stored = true ∧
      (s.phase.workers.length : Int) = max 0 s.sh.g.instances ∧
      ∀ j w, j < i → s.phase.workers[j]? = some w → w.pc = .returned
  | .waitPerformed _ | .waitError _ | .waitRunning _ | .destroy _ _ | .joinTimer _ =>
      s.phase.stored = true ∧ (s.phase.workers.length : Int) = max 0 s.sh.g.instances ∧
      s.phase.WorkersReturned
  | _ => s.phase.Ended

/-- The facts about the threads that every later invariant rests on. -/
structure Threads (env : Env) (s : Sys) : Prop where
  past : ∀ p ∈ s.past, p.Ended
  joined : Joined s
  testCase : ∀ k, s.main.inside = some k →
    s.phase.testCase = k ∧ s.sh.g.nTestCase = k ∧ s.sh.cb.mTestCase = k
  instances : ∀ k, s.main.inside = some k → s.main ≠ .construct k →
    s.sh.g.instances = instances env k ∧ s.phase.timer.mInstances = instances env k
  pids : ∀ j w, s.phase.workers[j]? = some w → w.pid = env.pid s.phase.testCase j
  timer : s.phase.timer.Wf s.phase.testCase

/-- An element stays where a list is changed, or is the one replaced. -/
theorem mem_set_of_mem {α : Type} {l : List α} {i : Nat} {a v : α} (b : α) (hi : l[i]? = some a)
    (hv : v ∈ l) : v = a ∨ v ∈ l.set i b := by
  obtain ⟨j, hj⟩ := List.getElem?_of_mem hv
  by_cases hij : i = j
  · subst hij
    exact .inl (Option.some.inj (hj.symm.trans hi))
  · right
    apply List.mem_of_getElem?
    rw [List.getElem?_set_ne hij]
    exact hj

theorem mem_set_self {α : Type} {l : List α} {i : Nat} {a : α} (b : α) (hi : l[i]? = some a) :
    b ∈ l.set i b :=
  List.mem_set (List.getElem?_eq_some_iff.mp hi).1 b

theorem eq_of_mem_of_length_le_one {α : Type} {l : List α} {a b : α} (h : l.length ≤ 1)
    (ha : a ∈ l) (hb : b ∈ l) : a = b := by
  match l with
  | [] => simp at ha
  | [c] => rw [List.mem_singleton.mp ha, List.mem_singleton.mp hb]
  | _ :: _ :: _ => simp at h

theorem Timer.wf_of_no_calls (k : TestCase) {t : Timer} (hc : t.calls = [])
    (hp : ∀ c p, t.pc ≠ .callback c p) : t.Wf k :=
  ⟨fun c p h => absurd h (hp c p), by simp [hc], by simp [hc]⟩

theorem measurementStart_threads (env : Env) (rtt download upload : Bool) (old : Globals) :
    Threads env (measurementStart rtt download upload old) where
  past := by simp [measurementStart]
  joined := by simp [measurementStart, Joined, Phase.Ended, Phase.WorkersReturned]
  testCase := by simp [measurementStart, MainPc.inside]
  instances := by simp [measurementStart, MainPc.inside]
  pids := by simp [measurementStart]
  timer := Timer.wf_of_no_calls _ rfl (by simp [measurementStart])

variable {env : Env} {s s' : Sys} {a : Action}

/-- A step of the measurement, once no thread of an earlier test case is left. -/
inductive Moved (env : Env) (s : Sys) : Action → Sys → Prop
  | main {created : Bool} {s' : Sys} (h : mainStep env created s = some s') :
      Moved env s (.main created) s'
  | timer {sh : Shared} {t : Timer}
      (h : CTimer.run env s.phase.testCase s.phase.objects s.sh s.phase.timer = some (sh, t)) :
      Moved env s .timer { s with sh := sh, phase := { s.phase with timer := t } }
  | worker {j : Nat} {o : Outcome} {w w' : Worker} {g : Globals} (hw : s.phase.workers[j]? = some w)
      (h : Worker.run env s.phase.testCase o s.sh.g w = some (g, w')) :
      Moved env s (.worker j o)
        { s with
          sh := { s.sh with g := g }
          phase := { s.phase with workers := s.phase.workers.set j w' } }
  | stop : Moved env s .stop { s with sh := { s.sh with g := { s.sh.g with running := false } } }
  | clock (now : UInt64) :
      Moved env s (.clock now) { s with sh := { s.sh with g := { s.sh.g with now := now } } }

theorem CTimer.run_moves {sender : TestCase} {objects : List Worker} {sh sh' : Shared}
    {t t' : Timer} (h : CTimer.run env sender objects sh t = some (sh', t')) :
    t.pc ≠ .returned := by
  intro hr
  simp [CTimer.run, hr] at h

theorem step_moved (hp : ∀ p ∈ s.past, p.Ended) (h : step env a s = some s') :
    Moved env s a s' := by
  cases a with
  | main created => exact .main h
  | timer =>
    simp only [step, timerStep, Option.map_map, Option.map_eq_some_iff] at h
    obtain ⟨⟨sh, t⟩, h, rfl⟩ := h
    exact .timer h
  | worker j o =>
    simp only [step, workerStep, Option.map_eq_some_iff, Option.bind_eq_some_iff] at h
    obtain ⟨_, ⟨w, hw, ⟨g, w'⟩, h, rfl⟩, rfl⟩ := h
    exact .worker hw h
  | pastTimer i =>
    simp only [step, timerStep, Option.map_eq_some_iff, Option.bind_eq_some_iff] at h
    obtain ⟨p, hi, _, ⟨⟨sh, t⟩, h, -⟩, -⟩ := h
    exact absurd (hp p (List.mem_of_getElem? hi)).1 (CTimer.run_moves h)
  | pastWorker i j o =>
    simp only [step, workerStep, Option.map_eq_some_iff, Option.bind_eq_some_iff] at h
    obtain ⟨p, hi, _, ⟨w, hw, ⟨g, w'⟩, h, -⟩, -⟩ := h
    exact absurd ((hp p (List.mem_of_getElem? hi)).2 w (List.mem_of_getElem? hw))
      (Worker.run_kept h).moves
  | stop =>
    simp only [step, Option.some.injEq] at h
    exact h ▸ .stop
  | clock now =>
    simp only [step, Option.some.injEq] at h
    exact h ▸ .clock now

theorem CTimer.run_mInstances {sender : TestCase} {objects : List Worker} {sh sh' : Shared}
    {t t' : Timer} (h : CTimer.run env sender objects sh t = some (sh', t')) :
    t'.mInstances = t.mInstances := by
  have resume (c : Call) (t : Timer) : (t.resume c).mInstances = t.mInstances := by
    cases c <;> rfl
  cases hp : t.pc <;> simp only [CTimer.run, hp, Timer.goto] at h
  case callback c p =>
    cases p <;> simp only [CCallback.callback, Timer.goto] at h
    all_goals repeat' (split at h)
    all_goals
      simp only [Option.some.injEq, Prod.mk.injEq] at h
      obtain ⟨rfl, rfl⟩ := h
      with_reducible first | rfl | exact resume c t
  all_goals repeat' (split at h)
  all_goals try contradiction
  all_goals
    simp only [Option.some.injEq, Prod.mk.injEq] at h
    obtain ⟨rfl, rfl⟩ := h
    rfl

/-- The globals that only the main thread writes. -/
structure Shared.Kept (s s' : Shared) : Prop where
  instances : s'.g.instances = s.g.instances
  nTestCase : s'.g.nTestCase = s.g.nTestCase
  mTestCase : s'.cb.mTestCase = s.cb.mTestCase

theorem Timer.Effect.kept {sender : TestCase} {t t' : Timer} {sh sh' : Shared}
    (h : Timer.Effect sender t t' sh sh') : sh.Kept sh' := by
  cases h
  case performed => constructor <;> simp only [Globals.setPerformed] <;> split <;> rfl
  case copied hcb => exact ⟨rfl, rfl, hcb⟩
  all_goals exact ⟨rfl, rfl, rfl⟩

theorem Worker.Effect.kept {k : TestCase} {w w' : Worker} {sh : Shared} {g : Globals}
    (h : Worker.Effect k w w' sh.g g) : sh.Kept { sh with g := g } := by
  cases h <;> exact ⟨rfl, rfl, rfl⟩

theorem Threads.timer_inside (ht : Threads env s) (h : s.phase.timer.pc ≠ .returned) :
    ∃ k, s.main.inside = some k ∧ s.main ≠ .construct k := by
  have hj := ht.joined
  unfold Joined at hj
  split at hj
  case h_1 => exact absurd hj.1.1 h
  case h_11 => exact absurd hj.1 h
  all_goals
    rename_i hm
    simp [hm, MainPc.inside]

theorem Threads.worker_inside (ht : Threads env s) {w : Worker} (hw : w ∈ s.phase.workers)
    (hr : w.pc ≠ .returned) : ∃ k, s.main.inside = some k ∧ s.main ≠ .construct k := by
  have hj := ht.joined
  have hne : ¬ s.phase.WorkersReturned := fun h => hr (h w hw)
  unfold Joined at hj
  split at hj
  case h_1 => exact absurd hj.1.2 hne
  case h_11 => exact absurd hj.2 hne
  all_goals
    rename_i hm
    simp [hm, MainPc.inside]

theorem Threads.step_timer (ht : Threads env s) {sh : Shared} {t : Timer}
    (h : CTimer.run env s.phase.testCase s.phase.objects s.sh s.phase.timer = some (sh, t)) :
    Threads env { s with sh := sh, phase := { s.phase with timer := t } } := by
  have hk := (CTimer.run_effect h).kept
  obtain ⟨k, hi, hc⟩ := ht.timer_inside (CTimer.run_moves h)
  have htc := ht.testCase k hi
  refine ⟨ht.past, ?_, ?_, ?_, ht.pids, CTimer.run_wf (htc.2.2.trans htc.1.symm) ht.timer h⟩
  · have hj := ht.joined
    unfold Joined at hj ⊢
    cases hm : s.main
    case join => simpa [hm, hk.instances] using hj
    all_goals simp_all [MainPc.inside, Phase.WorkersReturned, hk.instances]
  · intro k hk'
    have := ht.testCase k hk'
    exact ⟨this.1, hk.nTestCase.trans this.2.1, hk.mTestCase.trans this.2.2⟩
  · intro k hk' hc'
    have := ht.instances k hk' hc'
    exact ⟨hk.instances.trans this.1, (CTimer.run_mInstances h).trans this.2⟩

theorem Threads.step_worker (ht : Threads env s) {j : Nat} {o : Outcome} {w w' : Worker}
    {g : Globals} (hw : s.phase.workers[j]? = some w)
    (h : Worker.run env s.phase.testCase o s.sh.g w = some (g, w')) :
    Threads env { s with
      sh := { s.sh with g := g }
      phase := { s.phase with workers := s.phase.workers.set j w' } } := by
  have hk := (Worker.run_effect h).kept
  have hn : g.instances = s.sh.g.instances := hk.instances
  have hkw := Worker.run_kept h
  have hne : ¬ s.phase.WorkersReturned := fun hr => hkw.moves (hr w (List.mem_of_getElem? hw))
  refine ⟨ht.past, ?_, ?_, ?_, ?_, ht.timer⟩
  · have hj := ht.joined
    unfold Joined at hj ⊢
    cases hm : s.main
    case join k i =>
      simp only [hm] at hj ⊢
      refine ⟨hj.1, by simpa [hn] using hj.2.1, ?_⟩
      intro l v hl hv
      by_cases hjl : j = l
      · subst hjl
        exact absurd (hj.2.2 j w hl hw) hkw.moves
      · rw [List.getElem?_set_ne hjl] at hv
        exact hj.2.2 l v hl hv
    all_goals simp_all [Phase.Ended]
  · intro k hk'
    have := ht.testCase k hk'
    exact ⟨this.1, hk.nTestCase.trans this.2.1, hk.mTestCase.trans this.2.2⟩
  · intro k hk' hc'
    have := ht.instances k hk' hc'
    exact ⟨hk.instances.trans this.1, this.2⟩
  · intro l v hv
    rw [List.getElem?_set] at hv
    split_ifs at hv with h1 h2
    · subst h1
      simp only [Option.some.injEq] at hv
      subst hv
      exact hkw.pid.trans (ht.pids j w hw)
    · exact ht.pids l v hv

theorem inside_afterTestCase (k : TestCase) : (afterTestCase k).inside = none := by
  cases k <;> rfl

theorem afterTestCase_ne (k : TestCase) {pc : MainPc} (h : pc.inside.isSome = true) :
    afterTestCase k ≠ pc := by
  rintro rfl
  rw [inside_afterTestCase] at h
  contradiction

theorem joined_afterTestCase (k : TestCase) (h : s.phase.Ended) :
    Joined { s with main := afterTestCase k } := by
  cases k <;> exact h

/-- The main thread goes on without touching a thread. -/
theorem Threads.goto (ht : Threads env s) (sh : Shared) (pc : MainPc) (hk : s.sh.Kept sh)
    (hj : Joined { s with sh := sh, main := pc })
    (hi : ∀ k, pc.inside = some k → s.main.inside = some k ∧ s.main ≠ .construct k) :
    Threads env { s with sh := sh, main := pc } where
  past := ht.past
  joined := hj
  testCase k h := by
    obtain ⟨h1, h2, h3⟩ := ht.testCase k (hi k h).1
    exact ⟨h1, hk.nTestCase.trans h2, hk.mTestCase.trans h3⟩
  instances k h _ := by
    obtain ⟨h1, h2⟩ := ht.instances k (hi k h).1 (hi k h).2
    exact ⟨hk.instances.trans h1, h2⟩
  pids := ht.pids
  timer := ht.timer

theorem Shared.Kept.refl (sh : Shared) : sh.Kept sh := ⟨rfl, rfl, rfl⟩

theorem Threads.step_main (ht : Threads env s) (h : mainStep env true s = some s') :
    Threads env s' := by
  have hj := ht.joined
  have hk := Shared.Kept.refl s.sh
  cases hm : s.main <;> simp only [mainStep, hm, Option.some.injEq] at h
  case gate k =>
    simp only [Joined, hm] at hj
    subst h
    split
    · exact ht.goto s.sh _ hk hj (by simp [MainPc.inside])
    · exact ht.goto s.sh _ hk (joined_afterTestCase k hj) (by simp [inside_afterTestCase])
  case gateRunning k =>
    simp only [Joined, hm] at hj
    subst h
    split
    · split <;> exact ht.goto s.sh _ hk hj (by simp [MainPc.inside])
    · exact ht.goto s.sh _ hk (joined_afterTestCase k hj) (by simp [inside_afterTestCase])
  case gateError k =>
    simp only [Joined, hm] at hj
    subst h
    split
    · exact ht.goto s.sh _ hk (joined_afterTestCase k hj) (by simp [inside_afterTestCase])
    · exact ht.goto s.sh _ hk hj (by simp [MainPc.inside])
  case startTestCase k =>
    simp only [Joined, hm] at hj
    subst h
    refine ⟨?_, ?_, ?_, ?_, ?_, Timer.wf_of_no_calls _ rfl (by simp)⟩
    · intro p hp
      rcases List.mem_append.mp hp with hp | hp
      · exact ht.past p hp
      · exact List.mem_singleton.mp hp ▸ hj
    · simp [Joined, Phase.Ended, Phase.WorkersReturned]
    · intro l hl
      simp only [MainPc.inside, Option.some.injEq] at hl
      subst hl
      split <;> exact ⟨rfl, rfl, rfl⟩
    · intro l hl hc
      simp only [MainPc.inside, Option.some.injEq] at hl
      exact absurd (congrArg MainPc.construct hl) hc
    · simp
  case construct k =>
    simp only [Joined, hm] at hj
    subst h
    refine ⟨ht.past, hj.2, ?_, ?_, ht.pids, Timer.wf_of_no_calls _ rfl (by simp)⟩
    · intro l hl
      exact ht.testCase l (by simpa [MainPc.inside, hm] using hl)
    · intro l hl hc
      simp only [MainPc.inside, Option.some.injEq] at hl
      subst hl
      exact ⟨rfl, rfl⟩
  case startMeasurement k =>
    simp only [Joined, hm] at hj
    have hj' : s.phase.stored = false ∧
        (s.phase.workers.length : Int) ≤ max 0 s.sh.g.instances := by
      simp [hj]
    split at h
    all_goals
      simp only [Option.some.injEq] at h
      subst h
    · exact ht.goto s.sh _ hk hj' (by simp [MainPc.inside, hm])
    · exact ht.goto _ _ ⟨rfl, rfl, rfl⟩ hj' (by simp [MainPc.inside, hm])
  case create k =>
    simp only [Joined, hm] at hj
    have hin := (ht.testCase k (by simp [hm, MainPc.inside])).1
    simp only [if_true] at h
    split at h
    all_goals
      simp only [Option.some.injEq] at h
      subst h
    · rename_i hlt
      refine ⟨ht.past, ⟨hj.1, ?_⟩, ?_, ?_, ?_, ht.timer⟩
      · simp only [List.length_append, List.length_singleton]
        omega
      · exact fun l hl => ht.testCase l (by simpa [hm] using hl)
      · exact fun l hl hc => ht.instances l (by simpa [hm] using hl) (by simp [hm])
      · intro j w hw
        rw [List.getElem?_append] at hw
        split_ifs at hw with hjl
        · exact ht.pids j w hw
        · have hj0 : j - s.phase.workers.length = 0 := by
            have := (List.getElem?_eq_some_iff.mp hw).1
            simpa using this
          rw [hj0] at hw
          simp only [List.getElem?_cons_zero, Option.some.injEq] at hw
          subst hw
          simp only [newWorker, hin]
          congr 1
          omega
    · exact ht.goto s.sh _ hk ⟨hj.1, by simp only; omega⟩ (by simp [MainPc.inside, hm])
  case store k =>
    simp only [Joined, hm] at hj
    subst h
    refine ⟨ht.past, ⟨rfl, hj.2, by simp⟩, ?_, ?_, ht.pids, ht.timer⟩
    · exact fun l hl => ht.testCase l (by simpa [MainPc.inside, hm] using hl)
    · exact fun l hl hc => ht.instances l (by simpa [MainPc.inside, hm] using hl) (by simp [hm])
  case join k i =>
    simp only [Joined, hm] at hj
    split at h
    · rename_i hi
      simp only [Option.some.injEq] at h
      subst h
      refine ht.goto s.sh _ hk ⟨hj.1, hj.2.1, ?_⟩ (by simp [MainPc.inside, hm])
      intro w hw
      obtain ⟨j, hjw⟩ := List.getElem?_of_mem hw
      have hjl := (List.getElem?_eq_some_iff.mp hjw).1
      have hil := List.getElem?_eq_none_iff.mp hi
      exact hj.2.2 j w (Nat.lt_of_lt_of_le hjl hil) hjw
    · rename_i w hi
      split at h
      case isFalse => contradiction
      rename_i hr
      simp only [Option.some.injEq] at h
      subst h
      refine ht.goto s.sh _ hk ⟨hj.1, hj.2.1, ?_⟩ (by simp [MainPc.inside, hm])
      intro j v hji hv
      rcases Nat.lt_succ_iff_lt_or_eq.mp hji with hji | rfl
      · exact hj.2.2 j v hji hv
      · have hvw : w = v := Option.some.inj (hi.symm.trans hv)
        exact hvw ▸ hr
  case waitPerformed k =>
    simp only [Joined, hm] at hj
    subst h
    split <;> exact ht.goto s.sh _ hk hj (by simp [MainPc.inside, hm])
  case waitError k =>
    simp only [Joined, hm] at hj
    subst h
    split <;> exact ht.goto s.sh _ hk hj (by simp [MainPc.inside, hm])
  case waitRunning k =>
    simp only [Joined, hm] at hj
    subst h
    split <;> exact ht.goto s.sh _ hk hj (by simp [MainPc.inside, hm])
  case destroy k i =>
    simp only [Joined, hm] at hj
    split at h
    all_goals
      simp only [Option.some.injEq] at h
      subst h
    · exact ht.goto s.sh _ hk hj (by simp [MainPc.inside, hm])
    · rename_i w hi
      refine ⟨ht.past, ⟨hj.1, by simpa using hj.2.1, ?_⟩, ?_, ?_, ?_, ht.timer⟩
      · intro v hv
        rcases List.mem_or_eq_of_mem_set hv with hv | rfl
        · exact hj.2.2 v hv
        · exact hj.2.2 w (List.mem_of_getElem? hi)
      · exact fun l hl => ht.testCase l (by simpa [MainPc.inside, hm] using hl)
      · exact fun l hl hc => ht.instances l (by simpa [MainPc.inside, hm] using hl) (by simp [hm])
      · intro j v hv
        rw [List.getElem?_set] at hv
        split_ifs at hv with h1 h2
        · subst h1
          simp only [Option.some.injEq] at hv
          subst hv
          exact ht.pids i w hi
        · exact ht.pids j v hv
  case joinTimer k =>
    simp only [Joined, hm] at hj
    split at h
    case isFalse => contradiction
    rename_i hr
    simp only [Option.some.injEq] at h
    subst h
    exact ht.goto s.sh _ hk (joined_afterTestCase k ⟨hr, hj.2.2⟩) (by simp [inside_afterTestCase])
  case endPhase =>
    simp only [Joined, hm] at hj
    subst h
    exact ht.goto _ _ ⟨rfl, rfl, rfl⟩ hj (by simp [MainPc.inside])
  case shutdown =>
    simp only [Joined, hm] at hj
    subst h
    exact ht.goto _ _ ⟨rfl, rfl, rfl⟩ hj (by simp [MainPc.inside])
  case finished => contradiction

/-- What comes from outside leaves every thread where it is. -/
theorem Threads.outside (ht : Threads env s) (sh : Shared) (hk : s.sh.Kept sh)
    (hj : Joined { s with sh := sh }) : Threads env { s with sh := sh } where
  past := ht.past
  joined := hj
  testCase k h := by
    obtain ⟨h1, h2, h3⟩ := ht.testCase k h
    exact ⟨h1, hk.nTestCase.trans h2, hk.mTestCase.trans h3⟩
  instances k h hc := by
    obtain ⟨h1, h2⟩ := ht.instances k h hc
    exact ⟨hk.instances.trans h1, h2⟩
  pids := ht.pids
  timer := ht.timer

theorem Threads.step (ht : Threads env s) (hc : Created a) (h : IasClient.step env a s = some s') :
    Threads env s' := by
  cases step_moved ht.past h with
  | main hm =>
    subst hc
    exact ht.step_main hm
  | timer h => exact ht.step_timer ‹_›
  | worker hw h => exact ht.step_worker hw ‹_›
  | stop => exact ht.outside _ ⟨rfl, rfl, rfl⟩ ht.joined
  | clock now => exact ht.outside _ ⟨rfl, rfl, rfl⟩ ht.joined

/-- Every state of a measurement in which no `createThread` fails. -/
theorem Threads.run {rtt download upload : Bool} {old : Globals} {ok : Sys → Action → Prop}
    (hok : ∀ t a, ok t a → Created a)
    (h : Run (IasClient.step env) ok (measurementStart rtt download upload old) s) :
    Threads env s :=
  h.invariant (fun _ _ _ ht ha hs => ht.step (hok _ _ ha) hs)
    (measurementStart_threads env rtt download upload old)

theorem mainStep_persists {created : Bool} (h : mainStep env created s = some s') :
    s.sh.g.Persists s'.sh.g := by
  obtain ⟨h1, h2, h3, h4, h5, h6, h7, h8⟩ := (Globals.Grows.refl s.sh.g).toPersists
  cases hm : s.main <;> simp only [mainStep, hm] at h
  all_goals repeat' (split at h)
  all_goals try contradiction
  all_goals
    simp only [Option.some.injEq] at h
    subst h
    refine ⟨?_, ?_, ?_, ?_, ?_, ?_, h7, h8⟩
    all_goals first | assumption | exact fun _ => rfl

theorem step_persists (hp : ∀ p ∈ s.past, p.Ended) (h : step env a s = some s') :
    s.sh.g.Persists s'.sh.g := by
  cases step_moved hp h with
  | main h => exact mainStep_persists ‹_›
  | timer h => exact (CTimer.run_effect ‹_›).grows.1.toPersists
  | worker hw h => exact (Worker.run_effect ‹_›).grows.toPersists
  | stop => exact { (Globals.Grows.refl s.sh.g).toPersists with running := fun _ => rfl }
  | clock now => exact ⟨id, id, id, id, id, id, fun _ => id, fun _ => rfl⟩

/-- The globals that the timer writes and the main thread leaves alone. -/
structure Globals.TimerKept (g g' : Globals) : Prop where
  timerActive : g'.timerActive = g.timerActive
  timerRunning : g'.timerRunning = g.timerRunning
  timerStopped : g'.timerStopped = g.timerStopped
  timerIndex : g'.timerIndex = g.timerIndex
  timerDuration : g'.timerDuration = g.timerDuration
  syncingThreads : g'.syncingThreads = g.syncingThreads

/-- Outside `startTestCase` and the constructor of the timer, the main thread only ever raises the
flags. -/
theorem mainStep_grows {created : Bool} (h : mainStep env created s = some s')
    (hc : ∀ k, s.main ≠ .construct k) (hs : ∀ k, s.main ≠ .startTestCase k) :
    s.sh.g.Grows s'.sh.g ∧ s.sh.g.TimerKept s'.sh.g ∧ s'.phase.timer = s.phase.timer ∧
      s'.phase.testCase = s.phase.testCase := by
  have hp := mainStep_persists h
  cases hm : s.main <;> simp only [mainStep, hm] at h
  case construct k => exact absurd hm (hc k)
  case startTestCase k => exact absurd hm (hs k)
  all_goals repeat' (split at h)
  all_goals try contradiction
  all_goals
    simp only [Option.some.injEq] at h
    subst h
    exact ⟨⟨hp, id, id⟩, ⟨rfl, rfl, rfl, rfl, rfl, rfl⟩, rfl, rfl⟩

/-- The workers after a step of the main thread: new ones, and those there were. -/
theorem mainStep_workers {created : Bool} {w' : Worker} (h : mainStep env created s = some s')
    (hw : w' ∈ s'.phase.workers) :
    (∃ w ∈ s.phase.workers, w' = w ∨
      (∃ k i, s.main = .destroy k i) ∧ w' = { w with destroyed := true }) ∨
      ∃ k, s.main = .create k ∧ w' = newWorker env k s.phase.workers.length s.sh.cb := by
  have hold (w : Worker) (hw : w ∈ s.phase.workers) : ∃ v ∈ s.phase.workers, w = v ∨
      (∃ k i, s.main = .destroy k i) ∧ w = { v with destroyed := true } := ⟨w, hw, .inl rfl⟩
  cases hm : s.main <;> simp only [mainStep, hm] at h <;> rw [hm] at hold
  case startTestCase k =>
    simp only [Option.some.injEq] at h
    subst h
    simp at hw
  case create k =>
    repeat' (split at h)
    all_goals simp only [Option.some.injEq, reduceCtorEq] at h
    all_goals subst h
    · rcases List.mem_append.mp hw with hw | hw
      · exact .inl (hold w' hw)
      · exact .inr ⟨_, rfl, List.mem_singleton.mp hw⟩
    all_goals exact .inl (hold w' hw)
  case destroy k i =>
    split at h
    all_goals
      simp only [Option.some.injEq] at h
      subst h
    · exact .inl (hold w' hw)
    · rename_i v hv
      rcases List.mem_or_eq_of_mem_set hw with hw | rfl
      · exact .inl (hold w' hw)
      · exact .inl ⟨v, List.mem_of_getElem? hv, .inr ⟨⟨_, _, rfl⟩, rfl⟩⟩
  all_goals repeat' (split at h)
  all_goals try contradiction
  all_goals
    simp only [Option.some.injEq] at h
    subst h
    exact .inl (hold w' hw)

theorem mainStep_log {created : Bool} (h : mainStep env created s = some s') :
    (∀ k, s.main ≠ .startTestCase k) ∧ s'.sh.log = s.sh.log ∨ ∃ k es, s.main = .startTestCase k ∧
      s'.sh.log = s.sh.log ++ Event.startTestCase k :: es ∧
      ∀ e ∈ es, ∃ m, e = .platform k m ∧ m.cmd = .started := by
  cases hm : s.main <;> simp only [mainStep, hm] at h
  case startTestCase k =>
    simp only [Option.some.injEq] at h
    subst h
    cases hmob : env.mobile
    · exact .inr ⟨k, [], rfl, by simp, by simp⟩
    · exact .inr ⟨k, [_], rfl, by simp [callbackToPlatform]; rfl, by simp [message]⟩
  all_goals repeat' (split at h)
  all_goals try contradiction
  all_goals
    simp only [Option.some.injEq] at h
    subst h
    exact .inl ⟨by simp, rfl⟩

end IasClient
