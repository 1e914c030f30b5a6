import IasClient.Control.Joined
import IasClient.Model.Libtool
import Mathlib.Data.List.Nodup

namespace IasClient

open Framework

namespace WorkerPc

/-- The positions before the entry in `syncing_threads` is created. -/
def fresh : WorkerPc → Bool
  | .timestamp | .register => true
  | _ => false

/-- The positions that a worker reaches only with data received. -/
def afterData : WorkerPc → Bool
  | .received | .ipClient | .ipTls | .tlsMissing | .tlsHasError | .ipVersion => true
  | _ => false

/-- The positions from which a worker only returns. -/
def leaving : WorkerPc → Bool
  | .setHasError | .httpHasError | .stopSender | .returned => true
  | _ => false

end WorkerPc

/-- What one of the waiting loops of the timer reacts to. -/
def Explained (g : Globals) (w : Worker) : Prop :=
  g.running = false ∨ g.timerStopped = true ∨ g.timerActive = false ∨ g.unreachable = true ∨
    g.forbidden = true ∨ g.tlsParametersMissing = true ∨ w.dataReceived = true

/-- A worker that leaves has told why. -/
structure Worker.Accounted (g : Globals) (w : Worker) : Prop where
  fresh : w.pc.fresh = true → w.dataReceived = false
  resolve : w.pc = .resolve → w.dataReceived = false
  synced : w.dataReceived = true → g.syncingThreads.find? w.pid = some 1
  received : w.pc.afterData = true → w.dataReceived = true
  left : w.pc.leaving = true → Explained g w

/-- The outcomes after which each `run` function sets a flag before it returns early. -/
def Reported (k : TestCase) (w : Worker) (o : Outcome) : Prop :=
  (w.pc = .request → 0 ≤ o.code ∨ o.code = -1 ∨ o.code = -2 ∧ k ≠ .ip) ∧
    (w.pc = .udpSocket → o.ok = true)

variable {env : Env} {k : TestCase} {o : Outcome} {g g' : Globals} {w w' : Worker}

theorem connect_accounted {forbids : Bool} {next : WorkerPc} (ha : w.Accounted g)
    (hr : w.pc = .request → 0 ≤ o.code ∨ o.code = -1 ∨ o.code = -2 ∧ forbids = true)
    (hn : next = .whileRunning ∨ next = .prepare)
    (h : connect forbids next o g w = some (g', w')) : w'.Accounted g' := by
  obtain ⟨a1, a2, a3, a4, a5⟩ := ha
  cases hp : w.pc <;> simp only [connect, hp, Worker.goto] at h
  all_goals try contradiction
  all_goals repeat' (split at h)
  all_goals
    simp only [Option.some.injEq, Prod.mk.injEq] at h
    obtain ⟨rfl, rfl⟩ := h
    rcases hn with rfl | rfl
    all_goals constructor
    all_goals simp_all [WorkerPc.fresh, WorkerPc.afterData, WorkerPc.leaving, Explained]

theorem receiveLoop_accounted {leave : WorkerPc} (ha : w.Accounted g)
    (hl : leave = .returned ∨ leave = .stopSender)
    (h : receiveLoop leave o g w = some (g', w')) : w'.Accounted g' := by
  obtain ⟨a1, a2, a3, a4, a5⟩ := ha
  cases hp : w.pc <;> simp only [receiveLoop, hp, Worker.goto] at h
  all_goals try contradiction
  all_goals repeat' (split at h)
  all_goals
    simp only [Option.some.injEq, Prod.mk.injEq] at h
    obtain ⟨rfl, rfl⟩ := h
    rcases hl with rfl | rfl
    all_goals constructor
    all_goals simp_all [WorkerPc.fresh, WorkerPc.afterData, WorkerPc.leaving, Explained]

theorem catchException_accounted (ha : w.Accounted g)
    (h : catchException g w = some (g', w')) : w'.Accounted g' := by
  obtain ⟨a1, a2, a3, a4, a5⟩ := ha
  cases hp : w.pc <;> simp only [catchException, hp, Worker.goto] at h
  all_goals try contradiction
  all_goals
    simp only [Option.some.injEq, Prod.mk.injEq] at h
    obtain ⟨rfl, rfl⟩ := h
    constructor
    all_goals simp_all [WorkerPc.fresh, WorkerPc.afterData, WorkerPc.leaving, Explained]

theorem ip_accounted (ha : w.Accounted g) (hr : Reported .ip w o)
    (h : Ip.run env o g w = some (g', w')) : w'.Accounted g' := by
  have hq : w.pc = .request → 0 ≤ o.code ∨ o.code = -1 ∨ o.code = -2 ∧ false = true := by
    simpa using hr.1
  cases hp : w.pc <;> simp only [Ip.run, hp, Worker.goto] at h
  all_goals try with_reducible exact receiveLoop_accounted ha (.inl rfl) h
  all_goals try with_reducible exact connect_accounted ha hq (.inl rfl) h
  all_goals repeat' (split at h)
  all_goals
    obtain ⟨a1, a2, a3, a4, a5⟩ := ha
    simp only [Option.some.injEq, Prod.mk.injEq] at h
    obtain ⟨rfl, rfl⟩ := h
    constructor
    all_goals simp_all [WorkerPc.fresh, WorkerPc.afterData, WorkerPc.leaving, Explained]

theorem ping_accounted (ha : w.Accounted g) (hr : Reported .rttUdp w o)
    (h : Ping.run env o g w = some (g', w')) : w'.Accounted g' := by
  cases hp : w.pc <;> simp only [Ping.run, hp, Worker.goto] at h
  all_goals try contradiction
  all_goals repeat' (split at h)
  all_goals
    obtain ⟨a1, a2, a3, a4, a5⟩ := ha
    simp only [Option.some.injEq, Prod.mk.injEq] at h
    obtain ⟨rfl, rfl⟩ := h
    constructor
    all_goals simp_all [Reported, WorkerPc.fresh, WorkerPc.afterData, WorkerPc.leaving, Explained]

theorem download_accounted (ha : w.Accounted g) (hr : Reported .download w o)
    (h : Download.run o g w = some (g', w')) : w'.Accounted g' := by
  have hq : w.pc = .request → 0 ≤ o.code ∨ o.code = -1 ∨ o.code = -2 ∧ true = true := by
    simpa using hr.1
  cases hp : w.pc <;> simp only [Download.run, hp, Worker.goto] at h
  all_goals try with_reducible exact receiveLoop_accounted ha (.inl rfl) h
  all_goals try with_reducible exact connect_accounted ha hq (.inr rfl) h
  all_goals repeat' (split at h)
  all_goals
    obtain ⟨a1, a2, a3, a4, a5⟩ := ha
    simp only [Option.some.injEq, Prod.mk.injEq] at h
    obtain ⟨rfl, rfl⟩ := h
    constructor
    all_goals simp_all [WorkerPc.fresh, WorkerPc.afterData, WorkerPc.leaving, Explained]

theorem upload_accounted (ha : w.Accounted g) (hr : Reported .upload w o)
    (h : Upload.run env o g w = some (g', w')) : w'.Accounted g' := by
  have hq : w.pc = .request → 0 ≤ o.code ∨ o.code = -1 ∨ o.code = -2 ∧ true = true := by
    simpa using hr.1
  cases hp : w.pc <;> simp only [Upload.run, hp, Worker.goto] at h
  all_goals try with_reducible exact receiveLoop_accounted ha (.inr rfl) h
  all_goals try with_reducible exact connect_accounted ha hq (.inr rfl) h
  all_goals repeat' (split at h)
  all_goals try contradiction
  all_goals
    obtain ⟨a1, a2, a3, a4, a5⟩ := ha
    simp only [Option.some.injEq, Prod.mk.injEq] at h
    obtain ⟨rfl, rfl⟩ := h
    constructor
    all_goals simp_all [WorkerPc.fresh, WorkerPc.afterData, WorkerPc.leaving, Explained]

theorem Worker.run_accounted (ha : w.Accounted g) (hr : o.throws = true ∨ Reported k w o)
    (h : Worker.run env k o g w = some (g', w')) : w'.Accounted g' := by
  rcases Worker.run_cases h with ⟨_, rfl, rfl⟩ | h | ⟨ht, h⟩
  · obtain ⟨-, -, a3, -, -⟩ := ha
    constructor <;> simp_all [WorkerPc.fresh, WorkerPc.afterData, WorkerPc.leaving]
  · exact catchException_accounted ha h
  · have hr : Reported k w o := hr.resolve_left (by simp [ht])
    cases k with
    | ip => exact ip_accounted ha hr h
    | rttUdp => exact ping_accounted ha hr h
    | download => exact download_accounted ha hr h
    | upload => exact upload_accounted ha hr h

theorem Explained.grows (hg : g.Grows g') (h : Explained g w) : Explained g' w := by
  rcases h with h | h | h | h | h | h | h
  · exact .inl (hg.running h)
  · exact .inr (.inl (hg.timerStopped h))
  · exact .inr (.inr (.inl (hg.timerActive h)))
  · exact .inr (.inr (.inr (.inl (hg.unreachable h))))
  · exact .inr (.inr (.inr (.inr (.inl (hg.forbidden h)))))
  · exact .inr (.inr (.inr (.inr (.inr (.inl (hg.tlsParametersMissing h))))))
  · exact .inr (.inr (.inr (.inr (.inr (.inr h)))))

theorem Worker.Accounted.grows (ha : w.Accounted g) (hg : g.Grows g')
    (hs : g'.syncingThreads.find? w.pid = g.syncingThreads.find? w.pid) : w.Accounted g' where
  fresh := ha.fresh
  resolve := ha.resolve
  synced h := hs.trans (ha.synced h)
  received := ha.received
  left h := (ha.left h).grows hg

/-- The invariant of the waiting loops. -/
structure Waiting (s : Sys) : Prop where
  active : s.phase.timer.pc ≠ .returned → s.sh.g.timerActive = true
  accounted : ∀ w ∈ s.phase.workers, w.Accounted s.sh.g

theorem Timer.Effect.keeps_timerActive {sender : TestCase} {t t' : Timer} {s s' : Shared}
    (h : Timer.Effect sender t t' s s') (ht : t'.pc ≠ .returned) :
    s'.g.timerActive = s.g.timerActive := by
  cases h
  case timerActive h' => exact absurd h' ht
  case performed => simp
  all_goals rfl

theorem Worker.Effect.keeps_timerActive (h : Worker.Effect k w w' g g') :
    g'.timerActive = g.timerActive := by
  cases h <;> rfl

section

variable {s s' : Sys} {a : Action}

/-- Every early return of a `run` function in this step is one that sets a flag first. -/
def Reports (s : Sys) : Action → Prop
  | .worker j o => ∀ w, s.phase.workers[j]? = some w → o.throws = true ∨
      Reported s.phase.testCase w o
  | _ => True

instance (k : TestCase) (w : Worker) (o : Outcome) : Decidable (Reported k w o) :=
  inferInstanceAs (Decidable (_ ∧ _))

instance (s : Sys) : DecidablePred (Reports s)
  | .worker j o =>
    match h : s.phase.workers[j]? with
    | none => isTrue (by simp [Reports, h])
    | some w => decidable_of_iff (o.throws = true ∨ Reported s.phase.testCase w o)
        (by simp [Reports, h])
  | .main _ | .timer | .pastTimer .. | .pastWorker .. | .stop | .clock _ => isTrue trivial

theorem newWorker_accounted (env : Env) (k : TestCase) (j : Nat) (cb : CCallback) (g : Globals) :
    (newWorker env k j cb).Accounted g := by
  cases k <;> constructor <;>
    simp [newWorker, startPc, WorkerPc.fresh, WorkerPc.afterData, WorkerPc.leaving]

theorem Waiting.step_main (hw : Waiting s) (ht : Threads env s)
    (h : mainStep env true s = some s') : Waiting s' := by
  have hj := ht.joined
  by_cases hc : ∃ k, s.main = .construct k
  · obtain ⟨k, hm⟩ := hc
    simp only [mainStep, hm, Option.some.injEq] at h
    simp only [Joined, hm] at hj
    subst h
    exact ⟨fun _ => rfl, by simp [hj.2.1]⟩
  by_cases hs : ∃ k, s.main = .startTestCase k
  · obtain ⟨k, hm⟩ := hs
    simp only [mainStep, hm, Option.some.injEq] at h
    subst h
    exact ⟨fun hr => absurd rfl hr, by simp⟩
  obtain ⟨hg, hkept, htimer, -⟩ := mainStep_grows h (by simpa using hc) (by simpa using hs)
  refine ⟨fun hr => hkept.timerActive.trans (hw.active (htimer ▸ hr)), ?_⟩
  intro w hmem
  rcases mainStep_workers h hmem with ⟨v, hv, rfl | ⟨-, rfl⟩⟩ | ⟨k, -, rfl⟩
  · exact (hw.accounted w hv).grows hg (by rw [hkept.syncingThreads])
  · have hav := (hw.accounted v hv).grows hg (by rw [hkept.syncingThreads])
    exact ⟨hav.fresh, hav.resolve, hav.synced, hav.received, hav.left⟩
  · exact newWorker_accounted ..

theorem Waiting.step (hpid : ∀ k, Function.Injective (env.pid k)) (hw : Waiting s)
    (ht : Threads env s) (hc : Created a) (hr : Reports s a)
    (h : IasClient.step env a s = some s') : Waiting s' := by
  cases step_moved ht.past h with
  | main hm =>
    subst hc
    exact hw.step_main ht hm
  | timer hstep =>
    have he := CTimer.run_effect hstep
    have hne := CTimer.run_moves hstep
    refine ⟨fun hr => (he.keeps_timerActive hr).trans (hw.active hne), ?_⟩
    intro w hmem
    exact (hw.accounted w hmem).grows he.grows.1 (by rw [he.grows.2])
  | @worker j o w w' g hj hstep =>
    have he := Worker.run_effect hstep
    refine ⟨fun hr => he.keeps_timerActive.trans (hw.active hr), ?_⟩
    intro v hmem
    obtain ⟨l, hl⟩ := List.getElem?_of_mem hmem
    rw [List.getElem?_set] at hl
    split_ifs at hl with hjl hlt
    · simp only [Option.some.injEq] at hl
      subst hl
      exact Worker.run_accounted (hw.accounted w (List.mem_of_getElem? hj)) (hr w hj) hstep
    · have hp : v.pid ≠ w.pid := by
        rw [ht.pids l v hl, ht.pids j w hj]
        exact fun he => hjl (hpid _ he).symm
      exact (hw.accounted v (List.mem_of_getElem? hl)).grows he.grows (he.find?_synced hp)
  | stop =>
    exact ⟨hw.active, fun w hmem => (hw.accounted w hmem).grows
      ⟨step_persists ht.past h, id, id⟩ rfl⟩
  | clock now =>
    exact ⟨hw.active, fun w hmem => (hw.accounted w hmem).grows
      ⟨step_persists ht.past h, id, id⟩ rfl⟩

/-- `CTimer::run` is in its outer loop. -/
def TimerPc.outerLoop : TimerPc → Bool
  | .finishRunning | .finishError | .clearActive | .returned | .aborted => false
  | .callback .finish _ => false
  | _ => true

/-- The timer waits for workers that have all returned. -/
structure Stuck (s : Sys) : Prop where
  created : (s.phase.workers.length : Int) = s.phase.timer.mInstances
  returned : ∀ w ∈ s.phase.workers, w.pc = .returned
  running : s.sh.g.running = true
  outerLoop : s.phase.timer.pc.outerLoop = true
  timerRunning : s.sh.g.timerRunning = false
  timerStopped : s.sh.g.timerStopped = false
  unreachable : s.sh.g.unreachable = false
  forbidden : s.sh.g.forbidden = false
  tlsParametersMissing : s.sh.g.tlsParametersMissing = false
  missing : (s.sh.g.syncCounter : Int) < s.phase.timer.mInstances

/-- Workers that have all received data are all counted. -/
theorem syncCounter_of_dataReceived (hpid : ∀ k, Function.Injective (env.pid k))
    (ht : Threads env s) (hw : Waiting s)
    (hd : ∀ w ∈ s.phase.workers, w.dataReceived = true) :
    s.phase.workers.length ≤ s.sh.g.syncCounter := by
  have hpids : s.phase.workers.map Worker.pid =
      (List.range s.phase.workers.length).map (env.pid s.phase.testCase) := by
    apply List.ext_getElem (by simp)
    intro i h1 h2
    simp only [List.length_map] at h1
    simpa using ht.pids i _ (List.getElem?_eq_getElem h1)
  have hn : (s.phase.workers.map Worker.pid).Nodup :=
    hpids ▸ List.Nodup.map (hpid s.phase.testCase) List.nodup_range
  have hle := OrdMap.length_le_count (m := s.sh.g.syncingThreads) (fun v => v == 1) _ hn (by
    intro p hp
    obtain ⟨w, hmem, rfl⟩ := List.mem_map.mp hp
    exact ⟨1, (hw.accounted w hmem).synced (hd w hmem), rfl⟩)
  simpa [Globals.syncCounter] using hle

theorem Waiting.not_stuck (hpid : ∀ k, Function.Injective (env.pid k)) (ht : Threads env s)
    (hw : Waiting s) : ¬ Stuck s := by
  intro h
  have hd : ∀ w ∈ s.phase.workers, w.dataReceived = true := by
    intro w hmem
    have hact : s.sh.g.timerActive = true := by
      apply hw.active
      intro hr
      simpa [hr, TimerPc.outerLoop] using h.outerLoop
    have hx := (hw.accounted w hmem).left (by simp [h.returned w hmem, WorkerPc.leaving])
    simpa [Explained, h.running, h.timerStopped, hact, h.unreachable, h.forbidden,
      h.tlsParametersMissing] using hx
  have hle := syncCounter_of_dataReceived hpid ht hw hd
  have hlt := h.missing
  have hlen := h.created
  omega

end

section

variable {s : Sys}

/-- No test case gets stuck in a run in which every early return sets a flag first: no answer to
an HTTP request below -2, nor one of -2 to the ip test, and no failing UDP socket. -/
theorem never_stuck (env : Env) (hpid : ∀ k, Function.Injective (env.pid k))
    (rtt download upload : Bool) (old : Globals)
    (h : Run (step env) (fun t a => Created a ∧ Reports t a)
      (measurementStart rtt download upload old) s) : ¬ Stuck s := by
  have ht (t : Sys) (hr : Run (step env) (fun t a => Created a ∧ Reports t a)
      (measurementStart rtt download upload old) t) : Threads env t :=
    Threads.run (fun _ _ h => h.1) hr
  have hw : Waiting s := by
    refine Run.invariant_of ht ?_ ?_ h
    · intro t a u htt _ hwt hok hs
      exact hwt.step hpid htt hok.1 hok.2 hs
    · exact ⟨fun hr => absurd rfl hr, by simp [measurementStart]⟩
  exact hw.not_stuck hpid (ht s h)

end

/-- The main thread starts the ip test, and its worker is answered with the code -2. -/
def forbiddenIp : List Action :=
  List.replicate 8 (Action.main true) ++ List.replicate 4 (Action.worker 0 {}) ++
    [.worker 0 { code := -2 }, .worker 0 {}]

theorem forbiddenIp_stuck : ∃ s, Run (step Env.default) (fun _ a => Created a)
    (measurementStart true true true Globals.default) s ∧ Stuck s := by
  refine ⟨_, run_of_exec forbiddenIp rfl, ?_⟩
  constructor <;> decide

/-- The ip test whose worker cannot resolve the name of the peer, until it returns. -/
def unresolvedIp : List Action :=
  List.replicate 8 (Action.main true) ++
    [Action.worker 0 { ok := false }, .worker 0 {}, .worker 0 {}]

theorem never_stuck_unresolvedIp : ∃ s, s.phase.workers.map Worker.pc = [.returned] ∧
    s.phase.timer.pc = .outerRunning ∧ ¬ Stuck s := by
  refine ⟨_, ?_, ?_, never_stuck Env.default (fun _ i j h => Int.ofNat.inj h) true true true
    Globals.default (run_of_exec unresolvedIp rfl)⟩ <;> decide

end IasClient
