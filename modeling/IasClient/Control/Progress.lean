import IasClient.Control.Independence

namespace IasClient

open Framework

namespace WorkerPc

/-- The positions of `connect`. -/
def connecting : WorkerPc → Bool
  | .resolve | .setUnreachable | .setHasError | .timestamp | .register | .socket | .request
  | .httpUnreachable | .httpForbidden | .httpHasError => true
  | _ => false

/-- The positions of `receiveLoop`, and the one behind it. -/
def receiving : WorkerPc → Bool
  | .whileRunning | .whileActive | .whileStopped | .receive | .setSynced | .received => true
  | _ => false

def ending : WorkerPc → Bool
  | .catchHasError | .catchRunning | .returned | .aborted => true
  | _ => false

/-- The positions of the `run` function of the worker class of a test case. -/
def of (k : TestCase) (p : WorkerPc) : Bool :=
  match k with
  | .ip => p.connecting || p.receiving || p.ending || match p with
    | .ipClient | .ipTls | .tlsMissing | .tlsHasError | .ipVersion => true
    | _ => false
  | .rttUdp => p.ending || match p with
    | .timestamp | .register | .resolve | .setUnreachable | .setHasError | .setDuration
    | .udpSocket | .pingRunning | .pingSynced | .sendto | .recvfrom | .evaluate
    | .setStopped => true
    | _ => false
  | .download => p.connecting || p.receiving || p.ending || match p with
    | .prepare | .ifTimerRunning | .ifHasError | .addBin | .latch => true
    | _ => false
  | .upload => p.connecting || p.receiving || p.ending || match p with
    | .prepare | .nextToken | .uploadRunning | .uploadFirst | .lock | .uploadFirstAgain | .setFirst
    | .unlock | .ifFirstSet | .ifFirstEqual | .grid | .uploadHasError | .store | .latchFirst
    | .stopSender => true
    | _ => false

end WorkerPc

variable {env : Env} {k : TestCase} {o : Outcome} {g g' : Globals} {w w' : Worker}
variable {s s' : Sys} {a : Action}

/-- A worker stays in the program of its class. -/
theorem Worker.run_of (hw : w.pc.of k = true) (h : Worker.run env k o g w = some (g', w')) :
    w'.pc.of k = true := by
  rcases Worker.run_cases h with ⟨-, -, rfl⟩ | h | ⟨-, h⟩
  · cases k <;> rfl
  · cases hp : w.pc <;> simp only [catchException, hp, Worker.goto] at h
    all_goals try contradiction
    all_goals
      obtain ⟨-, rfl⟩ := Prod.mk.inj (Option.some.inj h)
      cases k <;> rfl
  · cases k <;> cases hp : w.pc <;>
      simp only [Worker.tryBlock, Ip.run, Ping.run, Download.run, Upload.run, connect, receiveLoop,
        hp, Worker.goto] at h
    all_goals try contradiction
    all_goals repeat' (split at h)
    all_goals try contradiction
    all_goals
      obtain ⟨-, rfl⟩ := Prod.mk.inj (Option.some.inj h)
      rfl

/-- A worker can move unless it has ended or waits for the mutex. -/
theorem Worker.run_enabled (env : Env) (hw : w.pc.of k = true) (hr : w.pc ≠ .returned)
    (ha : w.pc ≠ .aborted) (hl : w.pc = .lock → g.mutexTimerIndexUploadFirst = none) :
    (Worker.run env k {} g w).isSome = true := by
  cases k <;> cases hp : w.pc <;> rw [hp] at hw
  all_goals try exact absurd hp hr
  all_goals try exact absurd hp ha
  all_goals try exact absurd hw (by decide)
  all_goals
    simp only [Worker.run, Worker.tryBlock, Ip.run, Ping.run, Download.run, Upload.run, connect,
      receiveLoop, catchException, hp, Worker.goto, Bool.false_eq_true, if_false]
  all_goals try rfl
  all_goals try (simp only [hl hp]; rfl)
  all_goals
    repeat' split
    all_goals rfl

/-- The timer can move unless it has ended. -/
theorem CTimer.run_enabled (env : Env) (sender : TestCase) (objects : List Worker) (sh : Shared)
    {t : Timer} (hr : t.pc ≠ .returned) (ha : t.pc ≠ .aborted) :
    (CTimer.run env sender objects sh t).isSome = true := by
  cases hp : t.pc <;> simp only [CTimer.run, hp, Timer.goto]
  case returned => contradiction
  case aborted => contradiction
  case callback c p =>
    cases p <;> simp only [CCallback.callback, Timer.goto]
    all_goals repeat' split
    all_goals rfl
  all_goals repeat' split
  all_goals rfl

/-- A step of one of the threads of a test case. -/
inductive Phase.Moves (env : Env) (objects : List Worker) (sh : Shared) (p : Phase) :
    Shared → Phase → Prop
  | timer {sh' : Shared} {t : Timer}
      (h : CTimer.run env p.testCase objects sh p.timer = some (sh', t)) :
      Moves env objects sh p sh' { p with timer := t }
  | worker {j : Nat} {o : Outcome} {w w' : Worker} {g : Globals} (hw : p.workers[j]? = some w)
      (h : Worker.run env p.testCase o sh.g w = some (g, w')) :
      Moves env objects sh p { sh with g := g } { p with workers := p.workers.set j w' }

/-- The action of a thread, and not of the user or the clock. -/
def Action.thread : Action → Bool
  | .stop | .clock _ => false
  | _ => true

/-- What one action does, threads of earlier test cases included. -/
inductive Acted (env : Env) (s : Sys) : Action → Sys → Prop
  | main {created : Bool} {s' : Sys} (h : mainStep env created s = some s') :
      Acted env s (.main created) s'
  | phase {a : Action} {sh : Shared} {p : Phase} (ha : a.thread = true)
      (h : s.phase.Moves env s.phase.objects s.sh sh p) :
      Acted env s a { s with sh := sh, phase := p }
  | past {a : Action} {i : Nat} {sh : Shared} {p p' : Phase} (ha : a.thread = true)
      (hi : s.past[i]? = some p) (h : p.Moves env s.phase.objects s.sh sh p') :
      Acted env s a { s with sh := sh, past := s.past.set i p' }
  | stop : Acted env s .stop { s with sh := { s.sh with g := { s.sh.g with running := false } } }
  | clock (now : UInt64) :
      Acted env s (.clock now) { s with sh := { s.sh with g := { s.sh.g with now := now } } }

theorem Phase.moves_of_timerStep {objects : List Worker} {sh sh' : Shared} {p p' : Phase}
    (h : timerStep env objects sh p = some (sh', p')) : p.Moves env objects sh sh' p' := by
  simp only [timerStep, Option.map_eq_some_iff, Prod.mk.injEq] at h
  obtain ⟨⟨sh, t⟩, hrun, rfl, rfl⟩ := h
  exact .timer hrun

theorem Phase.moves_of_workerStep {objects : List Worker} {j : Nat} {sh sh' : Shared} {p p' : Phase}
    (h : workerStep env j o sh p = some (sh', p')) : p.Moves env objects sh sh' p' := by
  simp only [workerStep, Option.bind_eq_some_iff, Option.map_eq_some_iff, Prod.mk.injEq] at h
  obtain ⟨w, hw, ⟨g, w'⟩, hrun, rfl, rfl⟩ := h
  exact .worker hw hrun

theorem step_acted (h : step env a s = some s') : Acted env s a s' := by
  cases a with
  | main created => exact .main h
  | timer =>
    simp only [step, Option.map_eq_some_iff] at h
    obtain ⟨⟨sh, p⟩, h, rfl⟩ := h
    exact .phase rfl (Phase.moves_of_timerStep h)
  | worker j o =>
    simp only [step, Option.map_eq_some_iff] at h
    obtain ⟨⟨sh, p⟩, h, rfl⟩ := h
    exact .phase rfl (Phase.moves_of_workerStep h)
  | pastTimer i =>
    simp only [step, Option.bind_eq_some_iff, Option.map_eq_some_iff] at h
    obtain ⟨p, hi, ⟨sh, p'⟩, h, rfl⟩ := h
    exact .past rfl hi (Phase.moves_of_timerStep h)
  | pastWorker i j o =>
    simp only [step, Option.bind_eq_some_iff, Option.map_eq_some_iff] at h
    obtain ⟨p, hi, ⟨sh, p'⟩, h, rfl⟩ := h
    exact .past rfl hi (Phase.moves_of_workerStep h)
  | stop =>
    obtain rfl := Option.some.inj h
    exact .stop
  | clock now =>
    obtain rfl := Option.some.inj h
    exact .clock now

/-- Every worker of the test case is in the program of its class. -/
def Phase.Manned (p : Phase) : Prop := ∀ w ∈ p.workers, w.pc.of p.testCase = true

theorem Phase.Manned.moves {objects : List Worker} {sh sh' : Shared} {p p' : Phase}
    (hp : p.Manned) (h : p.Moves env objects sh sh' p') :
    p'.Manned ∧ p'.testCase = p.testCase := by
  cases h with
  | timer h => exact ⟨hp, rfl⟩
  | worker hw h =>
    refine ⟨fun v hv => ?_, rfl⟩
    rcases List.mem_or_eq_of_mem_set hv with hv | rfl
    · exact hp v hv
    · exact Worker.run_of (hp _ (List.mem_of_getElem? hw)) h

/-- The workers of all test cases, and the test case that the main thread works on. -/
structure Manned (s : Sys) : Prop where
  phase : s.phase.Manned
  past : ∀ p ∈ s.past, p.Manned
  testCase : ∀ k, s.main.inside = some k → s.phase.testCase = k

theorem Manned.step_main {created : Bool} (hm : Manned s) (h : mainStep env created s = some s') :
    Manned s' := by
  -- the steps that leave the threads alone
  have keep (sh : Shared) (pc : MainPc)
      (hpc : ∀ k, pc.inside = some k → s.main.inside = some k) :
      Manned { s with sh := sh, main := pc } :=
    ⟨hm.phase, hm.past, fun k hk => hm.testCase k (hpc k hk)⟩
  cases hp : s.main <;> simp only [mainStep, hp] at h <;> simp only [hp] at keep
  case startTestCase k =>
    obtain rfl := Option.some.inj h
    refine ⟨by simp [Phase.Manned], fun p hp => ?_, fun l hl => Option.some.inj hl⟩
    rcases List.mem_append.mp hp with hp | hp
    · exact hm.past p hp
    · exact List.mem_singleton.mp hp ▸ hm.phase
  case construct k =>
    obtain rfl := Option.some.inj h
    exact ⟨hm.phase, hm.past, fun l hl => hm.testCase l (by rw [hp]; exact hl)⟩
  case create k =>
    have hk := hm.testCase k (by rw [hp]; rfl)
    repeat' (split at h)
    all_goals try contradiction
    all_goals obtain rfl := Option.some.inj h
    · refine ⟨fun w hw => ?_, hm.past, fun l hl => hm.testCase l (by rw [hp]; exact hl)⟩
      rcases List.mem_append.mp hw with hw | hw
      · exact hm.phase w hw
      · rw [List.mem_singleton.mp hw]
        simp only [hk]
        cases k <;> rfl
    · exact keep _ _ (by simp [inside_afterTestCase])
    · exact keep _ _ fun l hl => hl
  case store k =>
    obtain rfl := Option.some.inj h
    exact ⟨hm.phase, hm.past, fun l hl => hm.testCase l (by rw [hp]; exact hl)⟩
  case destroy k i =>
    split at h
    all_goals obtain rfl := Option.some.inj h
    · exact keep _ _ fun l hl => hl
    · rename_i w hw
      refine ⟨fun v hv => ?_, hm.past, fun l hl => hm.testCase l (by rw [hp]; exact hl)⟩
      rcases List.mem_or_eq_of_mem_set hv with hv | rfl
      · exact hm.phase v hv
      · exact hm.phase w (List.mem_of_getElem? hw)
  all_goals repeat' (split at h)
  all_goals try contradiction
  all_goals
    obtain rfl := Option.some.inj h
    first
      | exact keep _ _ (by simp [inside_afterTestCase])
      | exact keep _ _ (by simp [MainPc.inside])

theorem Manned.step (hm : Manned s) (h : IasClient.step env a s = some s') : Manned s' := by
  cases step_acted h with
  | main hstep => exact hm.step_main hstep
  | phase _ hmove =>
    obtain ⟨hp, hk⟩ := hm.phase.moves hmove
    exact ⟨hp, hm.past, fun k hi => hk.trans (hm.testCase k hi)⟩
  | past _ hi hmove =>
    obtain ⟨hp, -⟩ := (hm.past _ (List.mem_of_getElem? hi)).moves hmove
    refine ⟨hm.phase, fun q hq => ?_, hm.testCase⟩
    rcases List.mem_or_eq_of_mem_set hq with hq | rfl
    · exact hm.past q hq
    · exact hp
  | stop => exact ⟨hm.phase, hm.past, hm.testCase⟩
  | clock now => exact ⟨hm.phase, hm.past, hm.testCase⟩

theorem measurementStart_manned (rtt download upload : Bool) (old : Globals) :
    Manned (measurementStart rtt download upload old) :=
  ⟨by simp [Phase.Manned, measurementStart], by simp [measurementStart],
    by simp [measurementStart, MainPc.inside]⟩

/-- A thread of the current test case has run into what the source leaves undefined. -/
def Sys.Aborted (s : Sys) : Prop :=
  s.phase.timer.pc = .aborted ∨ ∃ w ∈ s.phase.workers, w.pc = .aborted

instance (s : Sys) : Decidable s.Aborted :=
  inferInstanceAs (Decidable (s.phase.timer.pc = .aborted ∨
    ∃ w ∈ s.phase.workers, w.pc = .aborted))

/-- A worker of a test case can move, or ends the program, or the holder of the mutex can move. -/
theorem Manned.worker_enabled (hm : Manned s) (hh : Held s) (env : Env) {w : Worker}
    (hw : w ∈ s.phase.workers) (hr : w.pc ≠ .returned) (ha : w.pc ≠ .aborted) :
    ∃ a : Action, a.thread = true ∧ (IasClient.step env a s).isSome = true := by
  -- a worker of the current test case that does not wait for the mutex
  have moves (v : Worker) (hv : v ∈ s.phase.workers) (hr : v.pc ≠ .returned)
      (ha : v.pc ≠ .aborted) (hl : v.pc = .lock → s.sh.g.mutexTimerIndexUploadFirst = none) :
      ∃ a : Action, a.thread = true ∧ (IasClient.step env a s).isSome = true := by
    obtain ⟨j, hj⟩ := List.getElem?_of_mem hv
    have hen := Worker.run_enabled env (hm.phase v hv) hr ha hl
    exact ⟨.worker j {}, rfl, by simpa [IasClient.step, workerStep, hj] using hen⟩
  by_cases hl : w.pc = .lock
  · rcases hh with hfree | ⟨v, hv, hholds⟩ | ⟨p, hp, v, hv, hholds⟩
    · exact moves w hw hr ha fun _ => hfree
    · refine moves v hv ?_ ?_ ?_ <;> intro hpc <;> rw [hpc] at hholds <;> contradiction
    · obtain ⟨i, hi⟩ := List.getElem?_of_mem hp
      obtain ⟨j, hj⟩ := List.getElem?_of_mem hv
      have hen : (Worker.run env p.testCase {} s.sh.g v).isSome = true := by
        refine Worker.run_enabled env (hm.past p hp v hv) ?_ ?_ ?_ <;> intro hpc <;>
          rw [hpc] at hholds <;> contradiction
      exact ⟨.pastWorker i j {}, rfl, by simpa [IasClient.step, workerStep, hi, hj] using hen⟩
  · exact moves w hw hr ha fun h => absurd h hl

/-- The main thread waits for threads only. -/
theorem mainStep_enabled (env : Env) (s : Sys) : (mainStep env true s).isSome = true ∨
    s.main = .finished ∨ (∃ w ∈ s.phase.workers, w.pc ≠ .returned) ∨
      s.phase.timer.pc ≠ .returned := by
  cases hp : s.main <;> simp only [mainStep, hp, if_true]
  case join k i =>
    split
    · exact .inl rfl
    · rename_i w hw
      split
      · exact .inl rfl
      · rename_i hr
        exact .inr (.inr (.inl ⟨w, List.mem_of_getElem? hw, hr⟩))
  case joinTimer k =>
    split
    · exact .inl rfl
    · rename_i hr
      exact .inr (.inr (.inr hr))
  case finished => exact .inr (.inl trivial)
  all_goals repeat' split
  all_goals exact .inl rfl

theorem Manned.enabled (hm : Manned s) (hh : Held s) (env : Env) :
    (s.main = .finished ∨ s.Aborted) ∨
      ∃ a : Action, a.thread = true ∧ (IasClient.step env a s).isSome = true := by
  by_cases hab : s.Aborted
  · exact .inl (.inr hab)
  rcases mainStep_enabled env s with h | h | ⟨w, hw, hr⟩ | hr
  · exact .inr ⟨.main true, rfl, h⟩
  · exact .inl (.inl h)
  · exact .inr (hm.worker_enabled hh env hw hr fun ha => hab (.inr ⟨w, hw, ha⟩))
  · have hen := CTimer.run_enabled env s.phase.testCase s.phase.objects s.sh hr
      fun ha => hab (.inl ha)
    exact .inr ⟨.timer, rfl, by simpa [IasClient.step, timerStep] using hen⟩

theorem measurementStart_held (rtt download upload : Bool) {old : Globals}
    (hfree : old.mutexTimerIndexUploadFirst = none) :
    Held (measurementStart rtt download upload old) := .inl hfree

/-- No run of a measurement deadlocks, whatever fails and whenever it is stopped: until the main
thread has finished, some thread can move, unless one of the current test case has ended in what
the source leaves undefined. -/
theorem never_deadlocked {rtt download upload : Bool} {old : Globals} {ok : Sys → Action → Prop}
    (hfree : old.mutexTimerIndexUploadFirst = none)
    (h : Run (step env) ok (measurementStart rtt download upload old) s)
    (hmain : s.main ≠ .finished) (hab : ¬ s.Aborted) :
    ∃ a : Action, a.thread = true ∧ (step env a s).isSome = true := by
  have hm : Manned s :=
    h.invariant (fun _ _ _ hm _ hs => hm.step hs) (measurementStart_manned rtt download upload old)
  have hh : Held s :=
    h.invariant (fun _ _ _ hh _ hs => hh.step hs) (measurementStart_held rtt download upload hfree)
  exact (hm.enabled hh env).resolve_left fun h => h.elim hmain hab

/-- The main thread waits for the worker of the ip test, which can move. -/
theorem never_deadlocked_joining : ∃ s : Sys, s.main = .join .ip 0 ∧
    mainStep Env.default true s = none ∧
    ∃ a : Action, a.thread = true ∧ (step Env.default a s).isSome = true :=
  have hrun : Run (step Env.default) (fun _ a => Created a)
      (measurementStart true false false Globals.default) _ :=
    run_of_exec (List.replicate 8 (Action.main true)) rfl
  ⟨_, by decide, by rfl, never_deadlocked rfl hrun (by decide) (by decide)⟩

end IasClient
