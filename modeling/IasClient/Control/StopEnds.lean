import IasClient.Control.Progress
import IasClient.Framework.Ranking
import Mathlib.Data.Prod.Lex

namespace IasClient

open Framework

/-- Once RUNNING is false, a worker of the test case takes at most as many steps, apart from those
over the entries of one received report. -/
def WorkerPc.depth (k : TestCase) : WorkerPc → Nat
  | .returned | .aborted => 0
  | .catchRunning => 1
  | .catchHasError => 2
  | .setHasError | .httpHasError | .setStopped | .stopSender | .ipVersion => 3
  | .setUnreachable | .httpUnreachable | .httpForbidden | .whileRunning | .pingRunning
  | .tlsHasError => 4
  | .nextToken | .uploadRunning | .uploadFirst | .lock | .uploadFirstAgain | .setFirst | .unlock
  | .ifFirstSet | .ifFirstEqual | .grid | .uploadHasError | .store | .latchFirst | .evaluate
  | .latch | .tlsMissing => 5
  | .recvfrom | .addBin | .ipTls => 6
  | .sendto | .ifHasError | .ipClient => 7
  | .pingSynced | .ifTimerRunning => 8
  | .received => 9
  | .setSynced => 10
  | .receive => 11
  | .whileStopped => 12
  | .whileActive => 13
  | .prepare => 14
  | .request => 15
  | .socket | .udpSocket => 16
  | .setDuration => 17
  | .register => 19
  | .timestamp => 20
  -- Ping resolves the name after it has read the clock, the others before
  | .resolve => if k = .rttUdp then 18 else 21

/-- The steps over one entry of a report. -/
def WorkerPc.entryDepth : WorkerPc → Nat
  | .uploadRunning => 12
  | .uploadFirst => 11
  | .lock => 10
  | .uploadFirstAgain => 9
  | .setFirst => 8
  | .unlock => 7
  | .ifFirstSet => 6
  | .ifFirstEqual => 5
  | .grid => 4
  | .uploadHasError => 3
  | .store => 2
  | .latchFirst => 1
  | _ => 0

/-- The steps over the entries that are left. -/
def Worker.entries (w : Worker) : Nat := 13 * w.vResponse.length + w.pc.entryDepth

def CallbackPc.depth : CallbackPc → Nat
  | .completed => 1
  | .ifCompleted => 2
  | .toPlatform => 3
  | .performed => 4
  | .publish | .ipStopped => 5
  | .stepHead | .visit | .dropError | .dropFlag | .stepEnd | .ipResults | .rttCounters _ => 6
  | .steps | .ipTimes | .rttResults => 7
  | .enter => 8

/-- The depth of the timer after a call. -/
def Call.returnDepth : Call → Nat
  | .finish => 1
  | .unreachable | .forbidden | .tlsParametersMissing => 12
  | .report | .streamsDropped => 13
  | .started => 14
  | .starting => 22

/-- Once RUNNING is false, the timer takes at most as many steps, apart from those over the steps
and streams of one report. -/
def TimerPc.depth : TimerPc → Nat
  | .returned | .aborted => 0
  | .clearActive => 1
  | .finishError => 10
  | .finishRunning => 11
  | .outerRunning | .errorStop => 12
  | .innerRunning | .dropStop | .setTime1 => 13
  | .setTimerRunning => 14
  | .setCurrent => 22
  | .ifIndex => 23
  | .setIndex | .closeWindow => 24
  | .ifDuration => 25
  | .readTime => 26
  | .ifStreamsDropped => 27
  | .innerStopped => 28
  | .countSynced => 31
  | .ifTimerRunning => 32
  | .ifTlsParametersMissing => 33
  | .ifForbidden => 34
  | .ifUnreachable => 35
  | .outerStopped => 36
  | .callback c p => c.returnDepth + p.depth

/-- The reads of the counters that follow this one. -/
def CounterRead.left : CounterRead → Nat
  | requestsReplies => 5
  | requestsMissing => 4
  | requestsErrors => 3
  | replies => 2
  | missing => 1
  | errors => 0

theorem CounterRead.left_lt_of_next {r r' : CounterRead} (h : r.next = some r') :
    r'.left < r.left := by
  cases r <;> cases h <;> decide

/-- The steps over `n` streams, or over the counters, that are left of a report. -/
def Timer.visits (n : Nat) (t : Timer) : Nat :=
  let rest := (t.walk.maxSteps - t.walk.currentStep).toNat * (n + 5)
  match t.pc with
  | .callback _ .stepHead => (t.walk.maxSteps - t.walk.currentStep + 1).toNat * (n + 5)
  | .callback _ .visit => rest + (n - t.walk.streamId) + 4
  | .callback _ .dropError => rest + 3
  | .callback _ .dropFlag => rest + 2
  | .callback _ .stepEnd => rest + 1
  | .callback _ (.rttCounters r) => r.left
  | _ => 0

variable {env : Env} {k : TestCase} {o : Outcome} {g g' : Globals} {w w' : Worker}
variable {s s' : Sys} {a : Action}

/-- With RUNNING false a step of a worker brings it closer to its end, or to the end of a report. -/
theorem Worker.run_descends (hr : g.running = false)
    (h : Worker.run env k o g w = some (g', w')) :
    w'.pc.depth k < w.pc.depth k ∨ w'.pc.depth k = w.pc.depth k ∧ w'.entries < w.entries := by
  rcases Worker.run_cases h with ⟨hin, -, rfl⟩ | h | ⟨-, h⟩
  · left
    cases k <;> cases hp : w.pc <;> simp [hp, WorkerPc.inTry, WorkerPc.depth] at hin ⊢
  · cases hp : w.pc <;> simp only [catchException, hp, Worker.goto] at h
    all_goals try contradiction
    all_goals
      obtain ⟨-, rfl⟩ := Prod.mk.inj (Option.some.inj h)
      exact .inl (Nat.le_of_ble_eq_true rfl)
  · cases k <;> cases hp : w.pc <;>
      simp only [Worker.tryBlock, Ip.run, Ping.run, Download.run, Upload.run, connect, receiveLoop,
        hp, hr, Worker.goto, Bool.false_eq_true, false_and, if_false] at h
    all_goals try contradiction
    all_goals repeat' (split at h)
    all_goals try contradiction
    all_goals
      obtain ⟨-, rfl⟩ := Prod.mk.inj (Option.some.inj h)
    all_goals try exact .inl (Nat.le_of_ble_eq_true rfl)
    -- over the entries of a report
    all_goals
      refine .inr ⟨rfl, ?_⟩
      simp only [Worker.entries, WorkerPc.entryDepth, List.length_cons, *]
      omega

theorem Timer.resume_descends (c : Call) (t : Timer) (p : CallbackPc) (hp : 1 ≤ p.depth) :
    (t.resume c).pc.depth < c.returnDepth + p.depth := by
  have hlt : c.returnDepth < c.returnDepth + p.depth := Nat.lt_add_of_pos_right hp
  cases c <;> exact Nat.lt_of_le_of_lt (Nat.le_of_ble_eq_true rfl) hlt

/-- A step inside a call brings the timer closer to the end of the call, or to the end of a
report. -/
theorem CCallback.callback_descends {sender : TestCase} {objects : List Worker} {c : Call}
    {p : CallbackPc} {sh sh' : Shared} {t t' : Timer} (hp : t.pc = .callback c p)
    (h : CCallback.callback env sender objects c p sh t = some (sh', t')) :
    t'.pc.depth < t.pc.depth ∨
      t'.pc.depth = t.pc.depth ∧ t'.visits objects.length < t.visits objects.length := by
  have hst : c.stored.depth ≤ 4 := by
    cases c <;> decide
  have hpos (p : CallbackPc) (h : 0 < p.depth) :
      TimerPc.aborted.depth < (TimerPc.callback c p).depth := Nat.add_pos_right _ h
  cases p <;> simp only [CCallback.callback, Timer.goto] at h
  all_goals repeat' (split at h)
  all_goals
    obtain ⟨-, rfl⟩ := Prod.mk.inj (Option.some.inj h)
    rw [hp]
  all_goals try exact .inl (Timer.resume_descends c t _ (by decide))
  all_goals try exact .inl (Nat.add_lt_add_left (Nat.lt_of_le_of_lt hst (Nat.le_of_ble_eq_true rfl)) _)
  all_goals try exact .inl (Nat.add_lt_add_left (Nat.le_of_ble_eq_true rfl) _)
  all_goals try exact .inl (hpos _ (by decide))
  -- over the steps and the streams, or over the counters
  all_goals refine .inr ⟨rfl, ?_⟩
  case stepHead.isTrue hle =>
    have hs : (t.walk.maxSteps - t.walk.currentStep + 1).toNat =
        (t.walk.maxSteps - t.walk.currentStep).toNat + 1 := by omega
    simp only [Timer.visits, hp, hs, Nat.add_mul]
    omega
  case stepEnd =>
    have hs : t.walk.maxSteps - (t.walk.currentStep + 1) + 1 =
        t.walk.maxSteps - t.walk.currentStep := by omega
    simp only [Timer.visits, hp, hs]
    omega
  case h_1 hr =>
    simp only [Timer.visits, hp]
    exact CounterRead.left_lt_of_next hr
  case h_2 w hw _ _ _ _ =>
    have hlt := (List.getElem?_eq_some_iff.mp hw).1
    simp only [Timer.visits, hp]
    omega
  all_goals
    simp only [Timer.visits, hp]
    omega

/-- With RUNNING false a step of the timer brings it closer to its end, or to the end of a
report. -/
theorem CTimer.run_descends {sender : TestCase} {objects : List Worker} {sh sh' : Shared}
    {t t' : Timer} (hr : sh.g.running = false)
    (h : CTimer.run env sender objects sh t = some (sh', t')) :
    t'.pc.depth < t.pc.depth ∨
      t'.pc.depth = t.pc.depth ∧ t'.visits objects.length < t.visits objects.length := by
  cases hp : t.pc <;> simp only [CTimer.run, hp, hr, Timer.goto, Bool.false_eq_true, if_false] at h
  case callback c p => exact hp ▸ CCallback.callback_descends hp h
  all_goals repeat' (split at h)
  all_goals try contradiction
  all_goals
    obtain ⟨-, rfl⟩ := Prod.mk.inj (Option.some.inj h)
    exact .inl (Nat.le_of_ble_eq_true rfl)

/-- Once RUNNING is false, the main thread takes at most as many steps, and the threads that it
still creates; `n` workers exist already. -/
def MainPc.depth (env : Env) (n : Nat) (instances : Int) : MainPc → Nat
  | .finished => 0
  | .shutdown => 1
  | .endPhase => 2
  | .gateRunning k => 1 + 3 * (5 - k.number)
  | .gate k => 2 + 3 * (5 - k.number)
  | .joinTimer _ => 15
  | .destroy _ i => 16 + (n - i)
  | .waitRunning _ => 17 + n
  | .waitError _ => 18 + n
  | .waitPerformed _ => 19 + n
  | .join _ i => 20 + n + (n - i)
  | .store _ => 21 + 2 * n
  | .create _ => 22 + 2 * n + 25 * (instances - n).toNat
  | .startMeasurement _ => 23 + 2 * n + 25 * (instances - n).toNat
  | .construct k => 37 + 2 * n + 25 * (IasClient.instances env k - n).toNat
  | .startTestCase k => 38 + 25 * (IasClient.instances env k).toNat
  | .gateError k => 39 + 25 * (IasClient.instances env k).toNat

theorem afterTestCase_depth_lt (env : Env) (k : TestCase) (n : Nat) (i : Int) :
    (afterTestCase k).depth env n i < (MainPc.gateRunning k).depth env n i := by
  cases k <;> exact Nat.le_of_ble_eq_true rfl

theorem afterTestCase_depth_le (env : Env) (k : TestCase) (n : Nat) (i : Int) :
    (afterTestCase k).depth env n i ≤ 11 := by
  cases k <;> exact Nat.le_of_ble_eq_true rfl

namespace Phase

/-- The depths of the threads of a test case. -/
def high (p : Phase) : Nat :=
  p.timer.pc.depth + (p.workers.map fun w => w.pc.depth p.testCase).sum

/-- What the threads of a test case have left of their reports. -/
def low (n : Nat) (p : Phase) : Nat := p.timer.visits n + (p.workers.map Worker.entries).sum

variable {objects : List Worker} {sh sh' : Shared} {p p' : Phase}

theorem Moves.kept (h : p.Moves env objects sh sh' p') :
    sh.Kept sh' ∧ p'.workers.length = p.workers.length ∧ p'.stored = p.stored := by
  cases h with
  | timer h => exact ⟨(CTimer.run_effect h).kept, rfl, rfl⟩
  | worker _ h => exact ⟨(Worker.run_effect h).kept, List.length_set, rfl⟩

theorem Moves.persists (h : p.Moves env objects sh sh' p') : sh.g.Persists sh'.g := by
  cases h with
  | timer h => exact (CTimer.run_effect h).grows.1.toPersists
  | worker _ h => exact (Worker.run_effect h).grows.toPersists

theorem Moves.descends (hr : sh.g.running = false) (h : p.Moves env objects sh sh' p') :
    p'.high < p.high ∨ p'.high = p.high ∧ p'.low objects.length < p.low objects.length := by
  cases h with
  | timer h =>
    rcases CTimer.run_descends hr h with hlt | ⟨heq, hlt⟩
    · exact .inl (Nat.add_lt_add_right hlt _)
    · exact .inr ⟨congrArg (· + _) heq, Nat.add_lt_add_right hlt _⟩
  | @worker j o w w' g hw h =>
    have hhigh := sum_map_set (fun w => w.pc.depth p.testCase) w' hw
    have hlow := sum_map_set Worker.entries w' hw
    simp only [high, low]
    rcases Worker.run_descends hr h with hlt | ⟨heq, hlt⟩
    · left
      omega
    · right
      omega

theorem Moves.objects_length (h : p.Moves env objects sh sh' p') :
    p'.objects.length = p.objects.length := by
  obtain ⟨-, hlen, hst⟩ := h.kept
  rw [Phase.objects, Phase.objects, hst]
  split
  · exact hlen
  · rfl

end Phase

/-- The depths of all threads. -/
def Sys.high (env : Env) (s : Sys) : Nat :=
  s.main.depth env s.phase.workers.length s.sh.g.instances + s.phase.high +
    (s.past.map Phase.high).sum

/-- What all threads have left of their reports. -/
def Sys.low (s : Sys) : Nat :=
  s.phase.low s.phase.objects.length + (s.past.map (Phase.low s.phase.objects.length)).sum

/-- Reports are finite, but their length is not known before they start. -/
def Sys.rank (env : Env) (s : Sys) : ℕ ×ₗ ℕ := toLex (s.high env, s.low)

theorem newWorker_depth_le (env : Env) (k l : TestCase) (j : Nat) (cb : CCallback) :
    (newWorker env k j cb).pc.depth l ≤ 21 := by
  cases k <;> cases l <;> exact Nat.le_of_ble_eq_true rfl

/-- With RUNNING false every step of the main thread brings it closer to its end, by more than the
threads that it creates. -/
theorem mainStep_descends {created : Bool} (hr : s.sh.g.running = false)
    (h : mainStep env created s = some s') : s'.high env < s.high env := by
  -- the steps that leave the threads alone
  have keep (sh : Shared) (pc : MainPc)
      (hlt : pc.depth env s.phase.workers.length sh.g.instances <
        s.main.depth env s.phase.workers.length s.sh.g.instances) :
      Sys.high env { s with sh := sh, main := pc } < s.high env :=
    Nat.add_lt_add_right (Nat.add_lt_add_right hlt _) _
  have hafter (k : TestCase) := afterTestCase_depth_lt env k s.phase.workers.length
    s.sh.g.instances
  have hle (k : TestCase) := afterTestCase_depth_le env k s.phase.workers.length
    s.sh.g.instances
  cases hp : s.main <;> simp only [mainStep, hp, hr, Bool.false_eq_true, if_false] at h <;>
    simp only [hp] at keep
  case startTestCase k =>
    obtain rfl := Option.some.inj h
    simp only [Sys.high, hp, MainPc.depth, Phase.high, List.map_append, List.sum_append,
      List.map_singleton, List.sum_singleton, List.map_nil, List.sum_nil, TimerPc.depth,
      List.length_nil]
    omega
  case construct k =>
    obtain rfl := Option.some.inj h
    simp only [Sys.high, hp, MainPc.depth, Phase.high, TimerPc.depth]
    omega
  case create k =>
    repeat' (split at h)
    all_goals try contradiction
    all_goals obtain rfl := Option.some.inj h
    · have hnew := newWorker_depth_le env k s.phase.testCase
        s.phase.workers.length s.sh.cb
      simp only [Sys.high, hp, MainPc.depth, Phase.high, List.map_append, List.sum_append,
        List.map_singleton, List.sum_singleton, List.length_append, List.length_singleton]
      omega
    · exact keep _ _ ((hle k).trans_lt (by simp only [MainPc.depth]; omega))
    · exact keep _ _ (by simp only [MainPc.depth]; omega)
  case store k =>
    obtain rfl := Option.some.inj h
    simp only [Sys.high, hp, MainPc.depth, Phase.high]
    omega
  case destroy k i =>
    split at h
    all_goals obtain rfl := Option.some.inj h
    · exact keep _ _ (by simp only [MainPc.depth]; omega)
    · rename_i w hw
      have hi := (List.getElem?_eq_some_iff.mp hw).1
      have hsum : _ + w.pc.depth s.phase.testCase = _ + w.pc.depth s.phase.testCase :=
        sum_map_set (fun w => w.pc.depth s.phase.testCase) { w with destroyed := true } hw
      simp only [Sys.high, hp, MainPc.depth, Phase.high, List.length_set]
      omega
  case join k i =>
    split at h
    · obtain rfl := Option.some.inj h
      exact keep _ _ (by simp only [MainPc.depth]; omega)
    · rename_i w hw
      have hi := (List.getElem?_eq_some_iff.mp hw).1
      split at h
      · obtain rfl := Option.some.inj h
        exact keep _ _ (by simp only [MainPc.depth]; omega)
      · contradiction
  case gate k =>
    obtain rfl := Option.some.inj h
    refine keep _ _ ?_
    split
    · simp only [MainPc.depth]
      omega
    · exact (hafter k).trans (by simp only [MainPc.depth]; omega)
  case gateRunning k =>
    obtain rfl := Option.some.inj h
    exact keep _ _ (hafter k)
  case gateError k =>
    obtain rfl := Option.some.inj h
    refine keep _ _ ?_
    split
    · exact (hle k).trans_lt (by simp only [MainPc.depth]; omega)
    · simp only [MainPc.depth]
      omega
  case joinTimer k =>
    split at h
    · obtain rfl := Option.some.inj h
      exact keep _ _ ((hle k).trans_lt (by simp only [MainPc.depth]; omega))
    · contradiction
  case finished => contradiction
  case startMeasurement k =>
    split at h
    all_goals
      obtain rfl := Option.some.inj h
      exact keep _ _ (by simp only [MainPc.depth]; omega)
  case waitPerformed k =>
    obtain rfl := Option.some.inj h
    refine keep _ _ ?_
    split <;> simp only [MainPc.depth] <;> omega
  case waitError k =>
    obtain rfl := Option.some.inj h
    refine keep _ _ ?_
    split <;> simp only [MainPc.depth] <;> omega
  all_goals
    obtain rfl := Option.some.inj h
    exact keep _ _ (by simp only [MainPc.depth]; omega)

/-- A step of any thread, those of earlier test cases included. -/
theorem Acted.persists (h : Acted env s a s') : s.sh.g.Persists s'.sh.g := by
  cases h with
  | main hstep => exact mainStep_persists hstep
  | phase _ hmove => exact hmove.persists
  | past _ _ hmove => exact hmove.persists
  | stop => exact { (Globals.Grows.refl s.sh.g).toPersists with running := fun _ => rfl }
  | clock now => exact ⟨id, id, id, id, id, id, fun _ => id, fun _ => rfl⟩

/-- With RUNNING false every step of a thread lowers the rank. -/
theorem step_rank_lt (hr : s.sh.g.running = false) (ha : a.thread = true)
    (h : IasClient.step env a s = some s') : s'.rank env < s.rank env := by
  rw [Sys.rank, Sys.rank, Prod.Lex.toLex_lt_toLex]
  cases step_acted h with
  | main hstep => exact .inl (mainStep_descends hr hstep)
  | phase _ hmove =>
    have hobj := hmove.objects_length
    obtain ⟨hk, hlen, -⟩ := hmove.kept
    simp only [Sys.high, Sys.low, hlen, hk.instances, hobj]
    rcases hmove.descends hr with hlt | ⟨heq, hlt⟩ <;> omega
  | @past _ i sh p p' _ hi hmove =>
    have hhigh := sum_map_set Phase.high p' hi
    have hlow := sum_map_set (Phase.low s.phase.objects.length) p' hi
    simp only [Sys.high, Sys.low, hmove.kept.1.instances]
    rcases hmove.descends hr with hlt | ⟨heq, hlt⟩ <;> omega
  | stop => contradiction
  | clock now => contradiction

theorem step_rank_le (ha : ¬ a.thread = true) (h : IasClient.step env a s = some s') :
    s'.rank env ≤ s.rank env := by
  cases step_acted h with
  | main hstep => exact absurd rfl ha
  | phase hthread => exact absurd hthread ha
  | past hthread => exact absurd hthread ha
  | stop => exact le_refl _
  | clock now => exact le_refl _

/-- What the end of a measurement rests on once RUNNING is false. -/
structure Stopped (s : Sys) : Prop where
  manned : Manned s
  held : Held s
  running : s.sh.g.running = false

theorem Stopped.step (hs : Stopped s) (h : IasClient.step env a s = some s') : Stopped s' :=
  ⟨hs.manned.step h, hs.held.step h, (step_acted h).persists.running hs.running⟩

/-- Once RUNNING is false, wherever the threads are, they take finitely many more steps; and if they
keep moving as long as one of them can, the measurement ends. -/
theorem stopped_measurement_ends {rtt download upload : Bool} {old : Globals}
    {ok : Sys → Action → Prop} (hfree : old.mutexTimerIndexUploadFirst = none)
    (h : Run (step env) ok (measurementStart rtt download upload old) s)
    (hr : s.sh.g.running = false) (r : Schedule (step env)) (h0 : r.state 0 = s) :
    (∃ N, ∀ n, N ≤ n → ¬ (r.action n).thread = true) ∧
      ((∀ n, (∃ a : Action, a.thread = true ∧ (step env a (r.state n)).isSome = true) →
          ∃ m, n ≤ m ∧ (r.action m).thread = true) →
        ∃ n, (r.state n).main = .finished ∨ (r.state n).Aborted) := by
  have hm : Manned s :=
    h.invariant (fun _ _ _ hm _ hs => hm.step hs) (measurementStart_manned rtt download upload old)
  have hh : Held s :=
    h.invariant (fun _ _ _ hh _ hs => hh.step hs) (measurementStart_held rtt download upload hfree)
  have hI (n : Nat) : Stopped (r.state n) :=
    r.invariant (fun _ _ _ hI hs => hI.step hs) (h0 ▸ ⟨hm, hh, hr⟩) n
  have hmove (t : Sys) (a : Action) (u : Sys) (hI : Stopped t) (ha : a.thread = true)
      (hs : step env a t = some u) : u.rank env < t.rank env := step_rank_lt hI.running ha hs
  have hidle (t : Sys) (a : Action) (u : Sys) (_ : Stopped t) (ha : ¬ a.thread = true)
      (hs : step env a t = some u) : u.rank env ≤ t.rank env := step_rank_le ha hs
  exact ⟨r.eventually_idle hI hmove hidle,
    r.reaches hI hmove hidle fun t hI => hI.manned.enabled hI.held env⟩

/-- The ip test up to a stop that comes while its worker receives and its timer waits. -/
def ipStopped : List Action :=
  List.replicate 8 (.main true) ++ List.replicate 8 (.worker 0 {}) ++ List.replicate 5 .timer ++
    [.stop]

/-- The steps of the three threads behind the stop. -/
def ipDrained : List Action :=
  List.replicate 5 .timer ++ List.replicate 3 (.worker 0 {}) ++ List.replicate 14 (.main true)

theorem stopped_measurement_ends_receiving : ∃ r : Schedule (step Env.default),
    ((r.state 0).main = .join .ip 0 ∧ (r.state 0).phase.timer.pc = .ifTimerRunning ∧
      (r.state 0).phase.workers.map (·.pc) = [.receive]) ∧
    ∃ n, (r.state n).main = .finished ∨ (r.state n).Aborted := by
  obtain ⟨s, t, hs, ht, hpc, hr, hr', hhigh, hlow⟩ : ∃ s t,
      exec (guarded (fun _ a => Created a) (step Env.default)) ipStopped
        (measurementStart true false false Globals.default) = some s ∧
      exec (step Env.default) ipDrained s = some t ∧
      (s.main = .join .ip 0 ∧ s.phase.timer.pc = .ifTimerRunning ∧
        s.phase.workers.map (·.pc) = [.receive]) ∧ s.sh.g.running = false ∧
      t.sh.g.running = false ∧ t.high Env.default = 0 ∧ t.low = 0 :=
    ⟨_, _, rfl, rfl, by decide, rfl, rfl, rfl, rfl⟩
  obtain ⟨r, h0, ha, hn⟩ := Schedule.exists_of_exec ht
    (show step Env.default (.clock t.sh.g.now) t = some t from rfl)
  refine ⟨r, by rw [h0]; exact hpc, (stopped_measurement_ends rfl (run_of_exec _ hs) hr r h0).2 ?_⟩
  rintro n ⟨a, hthread, henabled⟩
  by_cases hle : ipDrained.length ≤ n
  · -- no thread can lower the rank further
    rw [hn n hle] at henabled
    obtain ⟨u, hu⟩ := Option.isSome_iff_exists.mp henabled
    have hlt := step_rank_lt hr' hthread hu
    rw [Sys.rank, Sys.rank, Prod.Lex.toLex_lt_toLex, hhigh, hlow] at hlt
    omega
  · have hmem := List.getElem_mem (l := ipDrained) (Nat.not_le.mp hle)
    have hall : ∀ a ∈ ipDrained, a.thread = true := by
      simp only [ipDrained, List.mem_append, List.mem_replicate]
      rintro a ((⟨-, rfl⟩ | ⟨-, rfl⟩) | ⟨-, rfl⟩) <;> rfl
    refine ⟨n, le_refl n, ?_⟩
    rw [ha, List.getElem?_eq_getElem (Nat.not_le.mp hle)]
    exact hall _ hmem

end IasClient
