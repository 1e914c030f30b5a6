import IasClient.Control.Order

namespace IasClient

open Framework

namespace WorkerPc

/-- The positions before the first receive, or the first ping. -/
def beforeLoop : WorkerPc → Bool
  | .resolve | .timestamp | .register | .socket | .request | .prepare | .setDuration
  | .udpSocket => true
  | _ => false

/-- The positions of Download from its receive loop on. -/
def looping : WorkerPc → Bool
  | .whileRunning | .whileActive | .whileStopped | .receive | .setSynced | .received
  | .ifTimerRunning | .ifHasError | .addBin | .latch => true
  | _ => false

/-- The positions of Ping after it has set the duration. -/
def pinging : WorkerPc → Bool
  | .udpSocket | .pingRunning | .pingSynced | .sendto | .recvfrom | .evaluate | .setStopped => true
  | _ => false

end WorkerPc

/-- MEASUREMENT_DURATION of a test case. -/
def duration (env : Env) (k : TestCase) : UInt64 := (startDuration env k).getD (Ping.duration env)

/-- The map has all bins 0 to `2 * d`. -/
def HasBins (d : UInt64) (m : OrdMap Int UInt64) : Prop :=
  ∀ i ∈ Download.binKeys d, (m.find? i).isSome = true

/-- What a worker of the test case `k` has done at its position. -/
structure Worker.Entered (env : Env) (k : TestCase) (g : Globals) (w : Worker) : Prop where
  before : w.pc.beforeLoop = true → w.dataReceived = false
  synced : w.dataReceived = true → g.syncingThreads.find? w.pid = some 1
  duration : k = .rttUdp → w.pc.pinging = true ∨ w.dataReceived = true →
    g.measurementDuration = Ping.duration env
  bins : k = .download → w.pc.looping = true ∨ w.dataReceived = true →
    HasBins (IasClient.duration env .download) w.mDownload.results

variable {env : Env} {k : TestCase} {o : Outcome} {g g' : Globals} {w w' : Worker}

theorem hasBins_insert {d : UInt64} {m : OrdMap Int UInt64} (h : HasBins d m) (i : Int)
    (v : UInt64) : HasBins d (m.insert i v) := by
  intro j hj
  rw [OrdMap.find?_insert]
  split
  · rfl
  · exact h j hj

theorem hasBins_initResults (d : UInt64) (m : OrdMap Int UInt64) :
    HasBins d (Download.initResults d m) := by
  intro i hi
  rw [Download.initResults, OrdMap.find?_foldl_insert, if_pos hi]
  rfl

theorem connect_entered {forbids : Bool} {next : WorkerPc} (he : w.Entered env k g)
    (hk : k ≠ .rttUdp) (hn : next = .whileRunning ∧ k ≠ .download ∨ next = .prepare)
    (h : connect forbids next o g w = some (g', w')) : w'.Entered env k g' := by
  obtain ⟨h1, h2, h3, h4⟩ := he
  cases hp : w.pc <;> simp only [connect, hp, Worker.goto] at h
  all_goals try contradiction
  all_goals repeat' (split at h)
  all_goals
    simp only [Option.some.injEq, Prod.mk.injEq] at h
    obtain ⟨rfl, rfl⟩ := h
    rcases hn with ⟨rfl, hd⟩ | rfl
    all_goals constructor
    all_goals simp_all [WorkerPc.beforeLoop, WorkerPc.looping, WorkerPc.pinging]

theorem receiveLoop_entered {leave : WorkerPc} (he : w.Entered env k g) (hk : k ≠ .rttUdp)
    (hl : leave = .returned ∨ leave = .stopSender)
    (h : receiveLoop leave o g w = some (g', w')) : w'.Entered env k g' := by
  obtain ⟨h1, h2, h3, h4⟩ := he
  cases hp : w.pc <;> simp only [receiveLoop, hp, Worker.goto] at h
  all_goals try contradiction
  all_goals repeat' (split at h)
  all_goals
    simp only [Option.some.injEq, Prod.mk.injEq] at h
    obtain ⟨rfl, rfl⟩ := h
    rcases hl with rfl | rfl
    all_goals constructor
    all_goals simp_all [WorkerPc.beforeLoop, WorkerPc.looping, WorkerPc.pinging]

theorem catchException_entered (he : w.Entered env k g)
    (h : catchException g w = some (g', w')) : w'.Entered env k g' := by
  obtain ⟨h1, h2, h3, h4⟩ := he
  cases hp : w.pc <;> simp only [catchException, hp, Worker.goto] at h
  all_goals try contradiction
  all_goals
    simp only [Option.some.injEq, Prod.mk.injEq] at h
    obtain ⟨rfl, rfl⟩ := h
    constructor
    all_goals simp_all [WorkerPc.beforeLoop, WorkerPc.looping, WorkerPc.pinging]

theorem ip_entered (he : w.Entered env .ip g) (h : Ip.run env o g w = some (g', w')) :
    w'.Entered env .ip g' := by
  cases hp : w.pc <;> simp only [Ip.run, hp, Worker.goto] at h
  all_goals try with_reducible exact receiveLoop_entered he (by simp) (.inl rfl) h
  all_goals try with_reducible exact connect_entered he (by simp) (.inl ⟨rfl, by simp⟩) h
  all_goals repeat' (split at h)
  all_goals
    obtain ⟨h1, h2, h3, h4⟩ := he
    simp only [Option.some.injEq, Prod.mk.injEq] at h
    obtain ⟨rfl, rfl⟩ := h
    constructor
    all_goals simp_all [WorkerPc.beforeLoop, WorkerPc.looping, WorkerPc.pinging]

theorem ping_entered (he : w.Entered env .rttUdp g) (h : Ping.run env o g w = some (g', w')) :
    w'.Entered env .rttUdp g' := by
  obtain ⟨h1, h2, h3, h4⟩ := he
  cases hp : w.pc <;> simp only [Ping.run, hp, Worker.goto] at h
  all_goals try contradiction
  all_goals repeat' (split at h)
  all_goals
    simp only [Option.some.injEq, Prod.mk.injEq] at h
    obtain ⟨rfl, rfl⟩ := h
    constructor
    all_goals simp_all [WorkerPc.beforeLoop, WorkerPc.looping, WorkerPc.pinging]

theorem download_entered (he : w.Entered env .download g)
    (hd : g.measurementDuration = IasClient.duration env .download)
    (h : Download.run o g w = some (g', w')) : w'.Entered env .download g' := by
  cases hp : w.pc <;> simp only [Download.run, hp, Worker.goto] at h
  all_goals try with_reducible exact receiveLoop_entered he (by simp) (.inl rfl) h
  all_goals try with_reducible exact connect_entered he (by simp) (.inr rfl) h
  all_goals repeat' (split at h)
  all_goals
    obtain ⟨h1, h2, h3, h4⟩ := he
    simp only [Option.some.injEq, Prod.mk.injEq] at h
    obtain ⟨rfl, rfl⟩ := h
  case prepare =>
    exact ⟨fun _ => h1 (by rw [hp]; rfl), h2, by simp, fun _ _ => hd ▸ hasBins_initResults _ _⟩
  case addBin =>
    refine ⟨by simp [WorkerPc.beforeLoop], h2, by simp, fun hk _ => hasBins_insert ?_ _ _⟩
    exact h4 hk (.inl (by rw [hp]; rfl))
  case latch =>
    refine ⟨by simp [WorkerPc.beforeLoop], h2, by simp, fun hk _ => ?_⟩
    have hb := h4 hk (.inl (by rw [hp]; rfl))
    simp only [Download.latch]
    split <;> exact hb
  all_goals
    constructor
    all_goals simp_all [WorkerPc.beforeLoop, WorkerPc.looping, Download.addTotal]

theorem upload_entered (he : w.Entered env .upload g)
    (h : Upload.run env o g w = some (g', w')) : w'.Entered env .upload g' := by
  cases hp : w.pc <;> simp only [Upload.run, hp, Worker.goto] at h
  all_goals try with_reducible exact receiveLoop_entered he (by simp) (.inr rfl) h
  all_goals try with_reducible exact connect_entered he (by simp) (.inr rfl) h
  all_goals repeat' (split at h)
  all_goals try contradiction
  all_goals
    obtain ⟨h1, h2, h3, h4⟩ := he
    simp only [Option.some.injEq, Prod.mk.injEq] at h
    obtain ⟨rfl, rfl⟩ := h
    constructor
    all_goals simp_all [WorkerPc.beforeLoop, WorkerPc.looping, WorkerPc.pinging]

theorem Worker.run_entered (he : w.Entered env k g)
    (hd : k = .download → g.measurementDuration = duration env .download)
    (h : Worker.run env k o g w = some (g', w')) : w'.Entered env k g' := by
  rcases Worker.run_cases h with ⟨hp, rfl, rfl⟩ | h | ⟨ht, h⟩
  · obtain ⟨-, h2, h3, h4⟩ := he
    refine ⟨by simp [WorkerPc.beforeLoop], h2, fun hk hr => ?_, fun hk hr => ?_⟩
    · exact h3 hk (.inr (hr.resolve_left (by simp [WorkerPc.pinging])))
    · exact h4 hk (.inr (hr.resolve_left (by simp [WorkerPc.looping])))
  · exact catchException_entered he h
  · cases k with
    | ip => exact ip_entered he h
    | rttUdp => exact ping_entered he h
    | download => exact download_entered he (hd rfl) h
    | upload => exact upload_entered he h

/-- The entries of `syncing_threads`: a step leaves them, or registers its own worker, with 1 once
that has received. -/
theorem Worker.run_registers (h : Worker.run env k o g w = some (g', w')) :
    g'.syncingThreads = g.syncingThreads ∨
      g'.syncingThreads = g.syncingThreads.insert w.pid 0 ∨
      g'.syncingThreads = g.syncingThreads.insert w.pid 1 ∧ w'.dataReceived = true := by
  rcases Worker.run_cases h with ⟨hp, rfl, rfl⟩ | h | ⟨ht, h⟩
  · exact .inl rfl
  · cases hp : w.pc <;> simp only [catchException, hp, Worker.goto] at h
    all_goals try contradiction
    all_goals
      simp only [Option.some.injEq, Prod.mk.injEq] at h
      obtain ⟨rfl, rfl⟩ := h
      exact .inl rfl
  · cases k <;> cases hp : w.pc <;>
      simp only [Worker.tryBlock, Ip.run, Ping.run, Download.run, Upload.run, connect, receiveLoop,
        hp, Worker.goto] at h
    all_goals try contradiction
    all_goals repeat' (split at h)
    all_goals try contradiction
    all_goals
      simp only [Option.some.injEq, Prod.mk.injEq] at h
      obtain ⟨rfl, rfl⟩ := h
      with_reducible first
        | exact .inl rfl
        | exact .inr (.inl rfl)
        | exact .inr (.inr ⟨rfl, rfl⟩)

/-- The positions from the count of the workers to the write of TIMER_RUNNING. -/
def TimerPc.starting : TimerPc → Bool
  | .callback c _ => c == .starting || c == .started
  | .setTimerRunning => true
  | _ => false

theorem CTimer.run_starting {sender : TestCase} {objects : List Worker} {s s' : Shared}
    {t t' : Timer} (h : CTimer.run env sender objects s t = some (s', t'))
    (hs : t'.pc.starting = true) : t.pc.starting = true ∨
      t.pc = .countSynced ∧ (s.g.syncCounter : Int) = t.mInstances := by
  cases hp : t.pc <;> simp only [CTimer.run, hp, Timer.goto] at h
  case callback c p =>
    cases p <;> simp only [CCallback.callback, Timer.goto] at h
    all_goals repeat' (split at h)
    all_goals
      simp only [Option.some.injEq, Prod.mk.injEq] at h
      obtain ⟨rfl, rfl⟩ := h
      cases c <;> simp_all [TimerPc.starting, Timer.resume, Timer.call]
  all_goals repeat' (split at h)
  all_goals try contradiction
  all_goals
    simp only [Option.some.injEq, Prod.mk.injEq] at h
    obtain ⟨rfl, rfl⟩ := h
    simp_all [TimerPc.starting, Timer.call]

theorem Timer.Effect.timerRunning_of {sender : TestCase} {s s' : Shared} {t t' : Timer}
    (h : Timer.Effect sender t t' s s') (hr : s'.g.timerRunning = true) :
    s.g.timerRunning = true ∨ t.pc = .setTimerRunning := by
  cases h
  case timerRunning hp _ => exact .inr hp
  case performed =>
    cases hk : s.cb.mTestCase <;> exact .inl (by simpa [hk, Globals.setPerformed] using hr)
  all_goals exact .inl hr

theorem Timer.Effect.keeps_duration {sender : TestCase} {s s' : Shared} {t t' : Timer}
    (h : Timer.Effect sender t t' s s') : s'.g.measurementDuration = s.g.measurementDuration := by
  cases h
  case performed => cases hk : s.cb.mTestCase <;> rfl
  all_goals rfl

theorem Worker.Effect.keeps_duration (h : Worker.Effect k w w' g g') (hk : k ≠ .rttUdp) :
    g'.measurementDuration = g.measurementDuration := by
  cases h
  case duration hr _ _ => exact absurd hr hk
  all_goals rfl

theorem Worker.run_duration (h : Worker.run env k o g w = some (g', w')) :
    g'.measurementDuration = g.measurementDuration ∨
      g'.measurementDuration = Ping.duration env := by
  by_cases hk : k = .rttUdp
  · subst hk
    rcases Worker.run_cases h with ⟨-, rfl, rfl⟩ | h | ⟨-, h⟩
    · exact .inl rfl
    · cases hp : w.pc <;> simp only [catchException, hp, Worker.goto] at h
      all_goals try contradiction
      all_goals
        simp only [Option.some.injEq, Prod.mk.injEq] at h
        obtain ⟨rfl, rfl⟩ := h
        exact .inl rfl
    · cases hp : w.pc <;> simp only [Worker.tryBlock, Ping.run, hp, Worker.goto] at h
      all_goals try contradiction
      all_goals
        simp only [Option.some.injEq, Prod.mk.injEq] at h
        obtain ⟨rfl, rfl⟩ := h
        first | exact .inl rfl | exact .inr rfl
  · exact .inl ((Worker.run_effect h).keeps_duration hk)

theorem Worker.Effect.keeps_timerRunning (h : Worker.Effect k w w' g g') :
    g'.timerRunning = g.timerRunning := by
  cases h <;> rfl

/-- All workers of the test case exist and have entered 1 in `syncing_threads`. -/
structure AllSynced (s : Sys) : Prop where
  created : (s.phase.workers.length : Int) = s.phase.timer.mInstances
  received : ∀ w ∈ s.phase.workers, w.dataReceived = true

/-- The invariant behind TIMER_RUNNING. -/
structure Barrier (env : Env) (s : Sys) : Prop where
  entries : (∃ k, s.main = .construct k) ∨ s.phase.timer.pc ≠ .returned →
    ∀ e ∈ s.sh.g.syncingThreads.entries, (e.2 == 1) = true →
      ∃ w ∈ s.phase.workers, w.dataReceived = true ∧ w.pid = e.1
  entered : ∀ w ∈ s.phase.workers, w.Entered env s.phase.testCase s.sh.g
  duration : s.phase.testCase ≠ .rttUdp →
    (∃ k, s.main = .create k) ∨ s.phase.workers ≠ [] →
      s.sh.g.measurementDuration = duration env s.phase.testCase
  passed : s.phase.timer.pc.starting = true ∨ s.sh.g.timerRunning = true → AllSynced s

variable {s s' : Sys} {a : Action}

theorem Threads.workers_le (ht : Threads env s) {k : TestCase} (hi : s.main.inside = some k)
    (hc : s.main ≠ .construct k) :
    (s.phase.workers.length : Int) ≤ max 0 s.phase.timer.mInstances := by
  obtain ⟨hinst, hm⟩ := ht.instances k hi hc
  rw [hm, ← hinst]
  have hj := ht.joined
  unfold Joined at hj
  split at hj
  case h_1 l hl =>
    rw [hl, MainPc.inside, Option.some.injEq] at hi
    exact absurd (hi ▸ hl) hc
  case h_2 =>
    rw [hj.1]
    exact le_max_left _ _
  case h_3 => exact hj.2
  case h_4 => exact hj.2.le
  case h_11 => simp_all [MainPc.inside]
  all_goals exact hj.2.1.le

/-- The ip and the rtt test have one worker. -/
theorem Threads.single (ht : Threads env s) {k : TestCase} (hi : s.main.inside = some k)
    (hc : s.main ≠ .construct k) (hk : k = .ip ∨ k = .rttUdp) : s.phase.workers.length ≤ 1 := by
  have hlen := ht.workers_le hi hc
  have hone : s.phase.timer.mInstances = 1 := by
    rw [(ht.instances k hi hc).2]
    rcases hk with rfl | rfl <;> rfl
  rw [hone] at hlen
  omega

theorem Barrier.allSynced (hb : Barrier env s) (ht : Threads env s)
    (hp : s.phase.timer.pc = .countSynced)
    (hc : (s.sh.g.syncCounter : Int) = s.phase.timer.mInstances) : AllSynced s := by
  have hne : s.phase.timer.pc ≠ .returned := by simp [hp]
  obtain ⟨k, hi, hk⟩ := ht.timer_inside hne
  have hlen := ht.workers_le hi hk
  have hle : s.sh.g.syncCounter ≤
      ((s.phase.workers.filter Worker.dataReceived).map Worker.pid).length := by
    apply OrdMap.count_le_length (fun v => v == 1)
    intro e he h1
    obtain ⟨w, hmem, hd, hpid⟩ := hb.entries (.inr hne) e he h1
    exact List.mem_map.mpr ⟨w, List.mem_filter.mpr ⟨hmem, hd⟩, hpid⟩
  rw [List.length_map] at hle
  have hfilter := List.length_filter_le Worker.dataReceived s.phase.workers
  have heq : (s.phase.workers.filter Worker.dataReceived).length = s.phase.workers.length := by
    omega
  exact ⟨by omega, fun w hw => List.length_filter_eq_length_iff.mp heq w hw⟩

theorem AllSynced.congr (ha : AllSynced s) (hw : s'.phase.workers = s.phase.workers)
    (hm : s'.phase.timer.mInstances = s.phase.timer.mInstances) : AllSynced s' :=
  ⟨by rw [hw, hm]; exact ha.created, by rw [hw]; exact ha.received⟩

theorem Worker.Entered.congr (he : w.Entered env k g)
    (hs : g'.syncingThreads.find? w.pid = g.syncingThreads.find? w.pid)
    (hd : g'.measurementDuration = g.measurementDuration) : w.Entered env k g' where
  before := he.before
  synced h := hs.trans (he.synced h)
  duration hk h := hd.trans (he.duration hk h)
  bins := he.bins

theorem newWorker_entered (env : Env) (k : TestCase) (j : Nat) (cb : CCallback) (g : Globals) :
    (newWorker env k j cb).Entered env k g := by
  cases k <;> constructor <;>
    simp [newWorker, startPc, WorkerPc.looping, WorkerPc.pinging]

/-- A step that touches neither the workers nor what they and the timer write. -/
theorem Barrier.goto (hb : Barrier env s)
    (hs : s'.sh.g.syncingThreads = s.sh.g.syncingThreads)
    (hr : s'.sh.g.timerRunning = s.sh.g.timerRunning)
    (hd : s'.sh.g.measurementDuration = s.sh.g.measurementDuration)
    (hw : s'.phase.workers = s.phase.workers) (ht : s'.phase.timer = s.phase.timer)
    (hk : s'.phase.testCase = s.phase.testCase)
    (hc : ∀ k, s'.main = .construct k → ∃ l, s.main = .construct l)
    (hcr : ∀ k, s'.main = .create k → ∃ l, s.main = .create l) : Barrier env s' where
  entries h e he h1 := by
    rw [hs] at he
    rw [hw]
    exact hb.entries (h.imp (fun ⟨k, hk⟩ => hc k hk) (fun hne => ht ▸ hne)) e he h1
  entered w hmem := by
    rw [hk]
    exact (hb.entered w (hw ▸ hmem)).congr (by rw [hs]) hd
  duration hne h := by
    rw [hk] at hne ⊢
    exact hd.trans (hb.duration hne (h.imp (fun ⟨k, hk⟩ => hcr k hk) (fun hne => hw ▸ hne)))
  passed h := by
    rw [hr, ht] at h
    exact (hb.passed h).congr hw (by rw [ht])

theorem Barrier.step_main (hb : Barrier env s) (ht : Threads env s)
    (h : mainStep env true s = some s') : Barrier env s' := by
  have hj := ht.joined
  cases hm : s.main <;> simp only [mainStep, hm, Option.some.injEq] at h
  case startTestCase k =>
    subst h
    refine ⟨?_, by simp, by simp, fun _ => ⟨rfl, by simp⟩⟩
    intro _ e he
    have hempty : e ∈ (OrdMap.empty : OrdMap Int Int).entries := by
      revert he
      simp only
      split <;> exact id
    exact absurd hempty List.not_mem_nil
  case construct k =>
    simp only [Joined, hm] at hj
    subst h
    refine ⟨fun _ => hb.entries (.inl ⟨k, hm⟩), by simp [hj.2.1], by simp [hj.2.1], ?_⟩
    simp [TimerPc.starting, constructTimer]
  case startMeasurement k =>
    simp only [Joined, hm] at hj
    have hk := (ht.testCase k (by simp [hm, MainPc.inside])).1
    split at h
    all_goals
      rename_i hd
      simp only [Option.some.injEq] at h
      subst h
      refine ⟨fun h => hb.entries (.inr (h.resolve_left (by simp))), by simp [hj.1], ?_,
        fun h => (hb.passed h).congr rfl rfl⟩
      intro hne _
      simp only at hne ⊢
      rw [hk] at hne ⊢
    · cases k <;> simp_all [startDuration]
    · rw [IasClient.duration, hd]
      rfl
  case create k =>
    simp only [Joined, hm] at hj
    have hk := (ht.testCase k (by simp [hm, MainPc.inside])).1
    have hn := ht.instances k (by simp [hm, MainPc.inside]) (by simp [hm])
    simp only [if_true] at h
    split at h
    all_goals
      simp only [Option.some.injEq] at h
      subst h
    · rename_i hlt
      refine ⟨?_, ?_, fun hne _ => hb.duration hne (.inl ⟨k, hm⟩), ?_⟩
      · intro h e he h1
        obtain ⟨w, hw, hd, hp⟩ := hb.entries (.inr (h.resolve_left (by simp))) e he h1
        exact ⟨w, List.mem_append_left _ hw, hd, hp⟩
      · intro w hw
        rcases List.mem_append.mp hw with hw | hw
        · exact hb.entered w hw
        · rw [List.mem_singleton.mp hw, hk]
          exact newWorker_entered ..
      · intro h
        have hlen := (hb.passed h).created
        omega
    · exact hb.goto rfl rfl rfl rfl rfl rfl (by simp) (by simp)
  case store k =>
    subst h
    exact hb.goto rfl rfl rfl rfl rfl rfl (by simp) (by simp)
  case destroy k i =>
    split at h
    all_goals
      simp only [Option.some.injEq] at h
      subst h
    · exact hb.goto rfl rfl rfl rfl rfl rfl (by simp) (by simp)
    · rename_i w hw
      have hold {v : Worker} (hv : v ∈ s.phase.workers.set i { w with destroyed := true }) :
          v ∈ s.phase.workers ∨ v = { w with destroyed := true } := List.mem_or_eq_of_mem_set hv
      have hmem := List.mem_of_getElem? hw
      refine ⟨?_, ?_, ?_, ?_⟩
      · intro h e he h1
        obtain ⟨v, hv, hd, hp⟩ := hb.entries (.inr (h.resolve_left (by simp))) e he h1
        rcases mem_set_of_mem { w with destroyed := true } hw hv with rfl | hv
        · exact ⟨_, mem_set_self _ hw, hd, hp⟩
        · exact ⟨v, hv, hd, hp⟩
      · intro v hv
        rcases hold hv with hv | rfl
        · exact hb.entered v hv
        · exact ⟨(hb.entered w hmem).before, (hb.entered w hmem).synced,
            (hb.entered w hmem).duration, (hb.entered w hmem).bins⟩
      · intro hne _
        exact hb.duration hne (.inr (List.ne_nil_of_mem hmem))
      · intro h
        refine ⟨by simpa using (hb.passed h).created, ?_⟩
        intro v hv
        rcases hold hv with hv | rfl
        · exact (hb.passed h).received v hv
        · exact (hb.passed h).received w hmem
  all_goals
    repeat' (split at h)
    all_goals try contradiction
    all_goals
      try simp only [Option.some.injEq] at h
      subst h
      first
        | exact hb.goto rfl rfl rfl rfl rfl rfl (fun _ h => absurd h (afterTestCase_ne _ rfl))
            (fun _ h => absurd h (afterTestCase_ne _ rfl))
        | exact hb.goto rfl rfl rfl rfl rfl rfl (by simp) (by simp)

theorem Barrier.step (hpid : ∀ k, Function.Injective (env.pid k)) (hb : Barrier env s)
    (ht : Threads env s) (hc : Created a) (h : IasClient.step env a s = some s') :
    Barrier env s' := by
  cases step_moved ht.past h with
  | main hm =>
    subst hc
    exact hb.step_main ht hm
  | @timer sh t hstep =>
    have he := CTimer.run_effect hstep
    have hne := CTimer.run_moves hstep
    have hsync := he.grows.2
    have hd := he.keeps_duration
    refine ⟨?_, ?_, ?_, ?_⟩
    · intro _ e hmem h1
      exact hb.entries (.inr hne) e (hsync ▸ hmem) h1
    · intro w hw
      exact (hb.entered w hw).congr (by rw [hsync]) hd
    · intro hk hw
      exact hd.trans (hb.duration hk hw)
    · intro hp
      refine AllSynced.congr (s := s) ?_ rfl (CTimer.run_mInstances hstep)
      rcases hp with hp | hp
      · rcases CTimer.run_starting hstep hp with hp | ⟨hp, hcount⟩
        · exact hb.passed (.inl hp)
        · exact hb.allSynced ht hp hcount
      · rcases he.timerRunning_of hp with hp | hp
        · exact hb.passed (.inr hp)
        · exact hb.passed (.inl (by simp [hp, TimerPc.starting]))
  | @worker j o w w' g hj hstep =>
    have hmem := List.mem_of_getElem? hj
    have hk := Worker.run_kept hstep
    have he := Worker.run_effect hstep
    have hold {v : Worker} (hv : v ∈ s.phase.workers.set j w') : v ∈ s.phase.workers ∨ v = w' :=
      List.mem_or_eq_of_mem_set hv
    have hmain : (∃ k, s.main = .create k) ∨ s.phase.workers ≠ [] := .inr (List.ne_nil_of_mem hmem)
    refine ⟨?_, ?_, ?_, ?_⟩
    · intro hc e he h1
      have hold : e ∈ s.sh.g.syncingThreads.entries →
          ∃ v ∈ s.phase.workers.set j w', v.dataReceived = true ∧ v.pid = e.1 := by
        intro he
        have hc' : (∃ k, s.main = .construct k) ∨ s.phase.timer.pc ≠ .returned := hc
        obtain ⟨v, hv, hd, hp⟩ := hb.entries hc' e he h1
        rcases mem_set_of_mem w' hj hv with rfl | hv
        · exact ⟨w', mem_set_self w' hj, hk.dataReceived hd, hk.pid.trans hp⟩
        · exact ⟨v, hv, hd, hp⟩
      rcases Worker.run_registers hstep with hs | hs | ⟨hs, hd⟩
      · exact hold (hs ▸ he)
      · rw [hs] at he
        rcases OrdMap.mem_insertList he with rfl | he
        · contradiction
        · exact hold he
      · rw [hs] at he
        rcases OrdMap.mem_insertList he with rfl | he
        · exact ⟨w', mem_set_self w' hj, hd, hk.pid⟩
        · exact hold he
    · intro v hv
      obtain ⟨l, hl⟩ := List.getElem?_of_mem hv
      rw [List.getElem?_set] at hl
      split_ifs at hl with hjl hlt
      · simp only [Option.some.injEq] at hl
        subst hl
        apply Worker.run_entered (hb.entered w hmem) _ hstep
        intro hd
        exact hd ▸ hb.duration (by simp [hd]) hmain
      · have hp : v.pid ≠ w.pid := by
          rw [ht.pids l v hl, ht.pids j w hj]
          exact fun he => hjl (hpid _ he).symm
        have hev := hb.entered v (List.mem_of_getElem? hl)
        refine ⟨hev.before, fun hd => (he.find?_synced hp).trans (hev.synced hd), ?_, hev.bins⟩
        intro hr hd
        rcases Worker.run_duration hstep with hg | hg
        · exact hg.trans (hev.duration hr hd)
        · exact hg
    · intro hne _
      exact (he.keeps_duration hne).trans (hb.duration hne hmain)
    · intro hp
      rw [he.keeps_timerRunning] at hp
      refine ⟨by simpa using (hb.passed hp).created, ?_⟩
      intro v hv
      rcases hold hv with hv | rfl
      · exact (hb.passed hp).received v hv
      · exact hk.dataReceived ((hb.passed hp).received w hmem)
  | stop => exact hb.goto rfl rfl rfl rfl rfl rfl (fun k h => ⟨k, h⟩) (fun k h => ⟨k, h⟩)
  | clock now => exact hb.goto rfl rfl rfl rfl rfl rfl (fun k h => ⟨k, h⟩) (fun k h => ⟨k, h⟩)

theorem Barrier.run {rtt download upload : Bool} {old : Globals} {ok : Sys → Action → Prop}
    (hpid : ∀ k, Function.Injective (env.pid k)) (hok : ∀ t a, ok t a → Created a)
    (h : Run (IasClient.step env) ok (measurementStart rtt download upload old) s) :
    Barrier env s := by
  refine Run.invariant_of (fun _ hr => Threads.run hok hr) ?_ ?_ h
  · intro t a u ht _ hb ha hs
    exact hb.step hpid ht (hok t a ha) hs
  · refine ⟨?_, by simp [measurementStart], by simp [measurementStart], ?_⟩
    · simp [measurementStart]
    · exact fun _ => ⟨rfl, by simp [measurementStart]⟩

theorem Timer.Effect.keeps_running {sender : TestCase} {s s' : Shared} {t t' : Timer}
    (h : Timer.Effect sender t t' s s') (hr : s.g.timerRunning = true) :
    s'.g.timerRunning = true := by
  cases h
  case performed => cases hk : s.cb.mTestCase <;> exact hr
  case timerRunning => rfl
  all_goals exact hr

theorem mainStep_past {created : Bool} (h : mainStep env created s = some s') :
    (∃ k, s.main = .startTestCase k) ∧ s'.past.length = s.past.length + 1 ∨
      (∀ k, s.main ≠ .startTestCase k) ∧ s'.past = s.past := by
  cases hm : s.main <;> simp only [mainStep, hm] at h
  all_goals repeat' (split at h)
  all_goals try contradiction
  all_goals
    simp only [Option.some.injEq] at h
    subst h
    simp

/-- `past` grows by the start of a test case only. -/
theorem step_past (ht : Threads env s) (h : IasClient.step env a s = some s') :
    s.past.length < s'.past.length ∨ s'.past = s.past := by
  cases step_moved ht.past h with
  | main hm =>
    rcases mainStep_past hm with ⟨-, hp⟩ | ⟨-, hp⟩
    · exact .inl (by omega)
    · exact .inr hp
  | timer | worker | stop | clock => exact .inr rfl

/-- The test case that runs, and its timer. -/
structure SameTestCase (s t : Sys) : Prop where
  past : t.past = s.past
  testCase : t.phase.testCase = s.phase.testCase
  mInstances : t.phase.timer.mInstances = s.phase.timer.mInstances

/-- After TIMER_RUNNING has become true, it is set back by another test case only. -/
theorem Barrier.step_running (hb : Barrier env s) (ht : Threads env s)
    (hn : 1 ≤ s.phase.timer.mInstances) (hr : s.sh.g.timerRunning = true) (hc : Created a)
    (h : IasClient.step env a s = some s') :
    s.past.length < s'.past.length ∨ SameTestCase s s' ∧ s'.sh.g.timerRunning = true := by
  cases step_moved ht.past h with
  | main hm =>
    subst hc
    rcases mainStep_past hm with ⟨-, hp⟩ | ⟨hs, hp⟩
    · exact .inl (by omega)
    · have hcon (k : TestCase) : s.main ≠ .construct k := by
        intro hk
        have hj := ht.joined
        simp only [Joined, hk] at hj
        have hlen := (hb.passed (.inr hr)).created
        rw [hj.2.1] at hlen
        simp only [List.length_nil] at hlen
        omega
      obtain ⟨-, hkept, htimer, htc⟩ := mainStep_grows hm hcon hs
      exact .inr ⟨⟨hp, htc, by rw [htimer]⟩, hkept.timerRunning.trans hr⟩
  | timer hstep =>
    exact .inr ⟨⟨rfl, rfl, CTimer.run_mInstances hstep⟩, (CTimer.run_effect hstep).keeps_running hr⟩
  | worker hj hstep =>
    exact .inr ⟨⟨rfl, rfl, rfl⟩, (Worker.run_effect hstep).keeps_timerRunning.trans hr⟩
  | stop => exact .inr ⟨⟨rfl, rfl, rfl⟩, hr⟩
  | clock now => exact .inr ⟨⟨rfl, rfl, rfl⟩, hr⟩

theorem Barrier.run_running {t : Sys} {ok : Sys → Action → Prop} (hok : ∀ t a, ok t a → Created a)
    (hall : ∀ u, Run (IasClient.step env) ok s u → Barrier env u ∧ Threads env u)
    (hn : 1 ≤ s.phase.timer.mInstances) (hr : s.sh.g.timerRunning = true)
    (h : Run (IasClient.step env) ok s t) :
    s.past.length < t.past.length ∨ SameTestCase s t ∧ t.sh.g.timerRunning = true := by
  induction h with
  | refl => exact .inr ⟨⟨rfl, rfl, rfl⟩, hr⟩
  | tail hu ha hs ih =>
    obtain ⟨hb, ht⟩ := hall _ hu
    rcases ih with ih | ⟨⟨h1, h2, h3⟩, h4⟩
    · rcases step_past ht hs with hp | hp
      · exact .inl (Nat.lt_trans ih hp)
      · exact .inl (hp ▸ ih)
    · rcases hb.step_running ht (h3 ▸ hn) h4 (hok _ _ ha) hs with hp | ⟨⟨k1, k2, k3⟩, k4⟩
      · exact .inl (h1 ▸ hp)
      · exact .inr ⟨⟨k1.trans h1, k2.trans h2, k3.trans h3⟩, k4⟩

/-- What TIMER_RUNNING stands for. -/
structure Started (env : Env) (s : Sys) : Prop extends AllSynced s where
  entered : ∀ w ∈ s.phase.workers,
    s.sh.g.syncingThreads.find? w.pid = some 1 ∧ w.pc.beforeLoop = false
  duration : s.sh.g.measurementDuration = duration env s.phase.testCase
  bins : s.phase.testCase = .download →
    ∀ w ∈ s.phase.workers, HasBins s.sh.g.measurementDuration w.mDownload.results

theorem Barrier.started (hb : Barrier env s) (hn : 1 ≤ s.phase.timer.mInstances)
    (hr : s.sh.g.timerRunning = true) : Started env s := by
  have ha := hb.passed (.inr hr)
  have hlen := ha.created
  obtain ⟨w, hw⟩ : ∃ w, w ∈ s.phase.workers := by
    apply List.exists_mem_of_length_pos
    omega
  have hd : s.sh.g.measurementDuration = IasClient.duration env s.phase.testCase := by
    by_cases hk : s.phase.testCase = .rttUdp
    · rw [(hb.entered w hw).duration hk (.inr (ha.received w hw)), hk]
      rfl
    · exact hb.duration hk (.inr (List.ne_nil_of_mem hw))
  refine ⟨ha, ?_, hd, ?_⟩
  · intro v hv
    have hev := hb.entered v hv
    refine ⟨hev.synced (ha.received v hv), ?_⟩
    rw [← Bool.not_eq_true]
    intro hbefore
    exact absurd (ha.received v hv) (by simp [hev.before hbefore])
  · intro hk v hv
    rw [hd, hk]
    exact (hb.entered v hv).bins hk (.inr (ha.received v hv))

/-- While TIMER_RUNNING is true, all workers of the test case have received data, and the duration
is the one of the test case for as long as no other test case is started. This speaks from the
constructor of CTimer on: before it the test case has no timer yet, and `mInstances` is 0. -/
theorem start_barrier (env : Env) (hpid : ∀ k, Function.Injective (env.pid k))
    (rtt download upload : Bool) (old : Globals)
    (h : Run (step env) (fun _ a => Created a) (measurementStart rtt download upload old) s)
    (hn : 1 ≤ s.phase.timer.mInstances) (hr : s.sh.g.timerRunning = true) :
    Started env s ∧ ∀ t, Run (step env) (fun _ a => Created a) s t → t.past = s.past →
      Started env t ∧ t.sh.g.measurementDuration = s.sh.g.measurementDuration := by
  have hb := Barrier.run hpid (fun _ _ h => h) h
  refine ⟨hb.started hn hr, ?_⟩
  intro t ht hp
  have hall (u : Sys) (hu : Run (step env) (fun _ a => Created a) s u) :
      Barrier env u ∧ Threads env u :=
    ⟨Barrier.run hpid (fun _ _ h => h) (h.trans hu), Threads.run (fun _ _ h => h) (h.trans hu)⟩
  rcases Barrier.run_running (fun _ _ h => h) hall hn hr ht with hlt | ⟨hsame, hrt⟩
  · rw [hp] at hlt
    exact absurd hlt (Nat.lt_irrefl _)
  · have hst := (hall t ht).1.started (hsame.mInstances ▸ hn) hrt
    refine ⟨hst, ?_⟩
    rw [hst.duration, (hb.started hn hr).duration, hsame.testCase]

/-- Two download streams, of which the second receives its first data when the timer has already
counted the first, until the timer has set TIMER_RUNNING. -/
def twoSynced : List Action :=
  upToStream 2 ++ List.replicate 9 (Action.worker 0 {}) ++
    [Action.worker 0 { code := 5 }, .worker 0 {}] ++ List.replicate 9 Action.timer ++
    List.replicate 9 (Action.worker 1 {}) ++ [Action.worker 1 { code := 7 }, .worker 1 {}] ++
    List.replicate 12 Action.timer

set_option maxRecDepth 4000 in
theorem start_barrier_twoSynced : ∃ s, s.phase.timer.mInstances = 2 ∧
    s.phase.testCase = .download ∧ s.sh.g.timerRunning = true ∧ Started twoStreamEnv s := by
  refine ⟨_, ?_, ?_, ?_, (start_barrier twoStreamEnv (fun _ i j h => Int.ofNat.inj h) false true
    false Globals.default (run_of_exec twoSynced rfl) (by decide) (by decide)).1⟩ <;> decide

end IasClient
