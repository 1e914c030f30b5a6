import IasClient.Control.Joined
import IasClient.Control.Order
import IasClient.Model.Libtool

namespace IasClient

open Framework

/-- The positions at which a stream holds `mutex_timer_index_upload_first`. -/
def WorkerPc.holds : WorkerPc → Bool
  | .uploadFirstAgain | .setFirst | .unlock => true
  | _ => false

variable {env : Env} {k : TestCase} {o : Outcome} {g g' : Globals} {w w' : Worker}
variable {s s' t : Sys} {a : Action}

/-- The mutex is free after a step, or the thread holds it, or the step has not touched it. -/
theorem Worker.run_mutex (h : Worker.run env k o g w = some (g', w')) :
    g'.mutexTimerIndexUploadFirst = none ∨ w'.pc.holds = true ∨
      g'.mutexTimerIndexUploadFirst = g.mutexTimerIndexUploadFirst ∧ w.pc.holds = false := by
  rcases Worker.run_cases h with ⟨hin, rfl, rfl⟩ | h | ⟨-, h⟩
  · refine .inr (.inr ⟨rfl, ?_⟩)
    cases hp : w.pc <;> simp [hp, WorkerPc.inTry] at hin <;> rfl
  · cases hp : w.pc <;> simp only [catchException, hp, Worker.goto] at h
    all_goals try contradiction
    all_goals
      obtain ⟨rfl, rfl⟩ := Prod.mk.inj (Option.some.inj h)
      exact .inr (.inr ⟨rfl, rfl⟩)
  · cases k <;> cases hp : w.pc <;>
      simp only [Worker.tryBlock, Ip.run, Ping.run, Download.run, Upload.run, connect, receiveLoop,
        hp, Worker.goto] at h
    all_goals try contradiction
    all_goals repeat' (split at h)
    all_goals try contradiction
    all_goals
      obtain ⟨rfl, rfl⟩ := Prod.mk.inj (Option.some.inj h)
      with_reducible first
        | exact .inr (.inr ⟨rfl, rfl⟩)
        | exact .inl rfl
        | exact .inr (.inl rfl)

/-- A stream of the test case holds the mutex. -/
def Phase.Holds (p : Phase) : Prop := ∃ w ∈ p.workers, w.pc.holds = true

/-- The mutex is free, or a stream holds it. -/
def Held (s : Sys) : Prop :=
  s.sh.g.mutexTimerIndexUploadFirst = none ∨ s.phase.Holds ∨ ∃ p ∈ s.past, p.Holds

theorem Timer.Effect.mutex {sender : TestCase} {t t' : Timer} {sh sh' : Shared}
    (h : Timer.Effect sender t t' sh sh') :
    sh'.g.mutexTimerIndexUploadFirst = sh.g.mutexTimerIndexUploadFirst := by
  cases h
  case performed => cases sh.cb.mTestCase <;> rfl
  all_goals rfl

/-- A step of a stream among the threads of a test case. -/
theorem held_workerStep {j : Nat} {sh sh' : Shared} {p p' : Phase} {rest : Prop}
    (h : sh.g.mutexTimerIndexUploadFirst = none ∨ p.Holds ∨ rest)
    (hs : workerStep env j o sh p = some (sh', p')) :
    sh'.g.mutexTimerIndexUploadFirst = none ∨ p'.Holds ∨ rest := by
  simp only [workerStep, Option.bind_eq_some_iff, Option.map_eq_some_iff, Prod.mk.injEq] at hs
  obtain ⟨w, hw, ⟨g, w'⟩, hrun, rfl, rfl⟩ := hs
  have hmem : w' ∈ p.workers.set j w' := mem_set_self w' hw
  rcases Worker.run_mutex hrun with hfree | hholds | ⟨hsame, hnot⟩
  · exact .inl hfree
  · exact .inr (.inl ⟨w', hmem, hholds⟩)
  · rcases h with hfree | ⟨v, hv, hholds⟩ | hrest
    · exact .inl (hsame.trans hfree)
    · rcases mem_set_of_mem w' hw hv with rfl | hv'
      · rw [hnot] at hholds
        contradiction
      · exact .inr (.inl ⟨v, hv', hholds⟩)
    · exact .inr (.inr hrest)

theorem held_timerStep {objects : List Worker} {sh sh' : Shared} {p p' : Phase}
    (hs : timerStep env objects sh p = some (sh', p')) :
    sh'.g.mutexTimerIndexUploadFirst = sh.g.mutexTimerIndexUploadFirst ∧
      p'.workers = p.workers := by
  simp only [timerStep, Option.map_eq_some_iff, Prod.mk.injEq] at hs
  obtain ⟨⟨sh, t⟩, hrun, rfl, rfl⟩ := hs
  exact ⟨(CTimer.run_effect hrun).mutex, rfl⟩

theorem Phase.Holds.subset {p q : Phase} (h : p.Holds)
    (hw : ∀ w ∈ p.workers, ∃ v ∈ q.workers, v.pc = w.pc) : q.Holds := by
  obtain ⟨w, hmem, hholds⟩ := h
  obtain ⟨v, hv, hpc⟩ := hw w hmem
  exact ⟨v, hv, hpc ▸ hholds⟩

theorem Held.main {created : Bool} (h : Held s) (hs : mainStep env created s = some s') :
    Held s' := by
  have keep (hm : s'.sh.g.mutexTimerIndexUploadFirst = s.sh.g.mutexTimerIndexUploadFirst)
      (hp : s'.past = s.past) (hw : ∀ w ∈ s.phase.workers, ∃ v ∈ s'.phase.workers, v.pc = w.pc) :
      Held s' := by
    rw [Held, hm, hp]
    exact h.imp_right fun h => h.imp_left fun h => h.subset hw
  cases hp : s.main <;> simp only [mainStep, hp] at hs
  case startTestCase k =>
    obtain rfl := Option.some.inj hs
    rcases h with hfree | hphase | ⟨p, hp, hholds⟩
    · left
      simp only
      split <;> exact hfree
    · exact .inr (.inr ⟨s.phase, by simp, hphase⟩)
    · exact .inr (.inr ⟨p, by simp [hp], hholds⟩)
  case destroy k i =>
    split at hs
    · obtain rfl := Option.some.inj hs
      exact h
    · rename_i w hw
      obtain rfl := Option.some.inj hs
      refine keep rfl rfl fun v hv => ?_
      rcases mem_set_of_mem { w with destroyed := true } hw hv with rfl | hv'
      · exact ⟨_, mem_set_self _ hw, rfl⟩
      · exact ⟨v, hv', rfl⟩
  all_goals repeat' (split at hs)
  all_goals try contradiction
  all_goals obtain rfl := Option.some.inj hs
  case create.isTrue.isTrue => exact keep rfl rfl fun w hw => ⟨w, by simp [hw], rfl⟩
  all_goals exact h

theorem Held.step (h : Held s) (hs : IasClient.step env a s = some s') : Held s' := by
  cases a with
  | main created => exact h.main hs
  | timer =>
    simp only [IasClient.step, Option.map_eq_some_iff] at hs
    obtain ⟨⟨sh, p⟩, hstep, rfl⟩ := hs
    obtain ⟨hmutex, hworkers⟩ := held_timerStep hstep
    simpa only [Held, Phase.Holds, hmutex, hworkers] using h
  | worker j o =>
    simp only [IasClient.step, Option.map_eq_some_iff] at hs
    obtain ⟨⟨sh, p⟩, hstep, rfl⟩ := hs
    exact held_workerStep h hstep
  | pastTimer i =>
    simp only [IasClient.step, Option.bind_eq_some_iff, Option.map_eq_some_iff] at hs
    obtain ⟨p, hi, ⟨sh, p'⟩, hstep, rfl⟩ := hs
    obtain ⟨hmutex, hworkers⟩ := held_timerStep hstep
    rw [Held, hmutex]
    refine h.imp_right fun h => h.imp_right ?_
    rintro ⟨q, hq, hholds⟩
    rcases mem_set_of_mem p' hi hq with rfl | hq'
    · exact ⟨p', mem_set_self p' hi, hholds.subset fun w hw => ⟨w, hworkers ▸ hw, rfl⟩⟩
    · exact ⟨q, hq', hholds⟩
  | pastWorker i j o =>
    simp only [IasClient.step, Option.bind_eq_some_iff, Option.map_eq_some_iff] at hs
    obtain ⟨p, hi, ⟨sh, p'⟩, hstep, rfl⟩ := hs
    have hbefore : s.sh.g.mutexTimerIndexUploadFirst = none ∨ p.Holds ∨
        (s.phase.Holds ∨ ∃ q ∈ s.past.set i p', q.Holds) := by
      rcases h with hfree | hphase | ⟨q, hq, hholds⟩
      · exact .inl hfree
      · exact .inr (.inr (.inl hphase))
      · rcases mem_set_of_mem p' hi hq with rfl | hq'
        · exact .inr (.inl hholds)
        · exact .inr (.inr (.inr ⟨q, hq', hholds⟩))
    rcases held_workerStep hbefore hstep with hfree | hholds | hrest
    · exact .inl hfree
    · exact .inr (.inr ⟨p', mem_set_self p' hi, hholds⟩)
    · exact .inr hrest
  | stop | clock =>
    obtain rfl := Option.some.inj hs
    exact h

/-- Every thread of the call has ended. -/
structure CallEnded (s : Sys) : Prop where
  main : s.main = .finished
  phase : s.phase.Ended
  past : ∀ p ∈ s.past, p.Ended

theorem Held.free (h : Held s) (hf : CallEnded s) :
    s.sh.g.mutexTimerIndexUploadFirst = none := by
  have hnone {p : Phase} (hp : p.Ended) : ¬ p.Holds := by
    rintro ⟨w, hw, hholds⟩
    rw [hp.2 w hw] at hholds
    contradiction
  rcases h with hfree | hphase | ⟨p, hp, hholds⟩
  · exact hfree
  · exact absurd hphase (hnone hf.phase)
  · exact absurd hholds (hnone (hf.past p hp))

/-- The globals but for those that `startTestCase` and the constructor of CTimer assign. -/
def Globals.kept (g : Globals) : Globals :=
  { constructTimer g with
    syncingThreads := .empty
    nTestCase := .ip
    instances := 0
    currentTestPhase := .INIT }

/-- Before the first timer, or where every test case is skipped. -/
def MainPc.early : MainPc → Bool
  | .gate _ | .gateRunning _ | .gateError _ | .startTestCase _ | .construct _ => true
  | .endPhase | .shutdown | .finished => true
  | _ => false

/-- No thread but the main thread has been created. -/
structure Early (s : Sys) : Prop where
  main : s.main.early = true
  workers : s.phase.workers = []
  timer : s.phase.timer.pc = .returned
  past : ∀ p ∈ s.past, p.workers = [] ∧ p.timer.pc = .returned

/-- What `startTestCase` assigns is the same. -/
structure Globals.Started (g g' : Globals) : Prop where
  syncingThreads : g'.syncingThreads = g.syncingThreads
  nTestCase : g'.nTestCase = g.nTestCase
  currentTestPhase : g'.currentTestPhase = g.currentTestPhase

/-- Two calls in the same state, up to the globals that this call has yet to assign. -/
inductive Alike : Sys → Sys → Prop
  | same (s : Sys) : Alike s s
  | early {s : Sys} {g' : Globals} (h : Early s) (hk : g'.kept = s.sh.g.kept)
      (hc : ∀ k, s.main = .construct k → s.sh.g.Started g') :
      Alike s { s with sh := { s.sh with g := g' } }

theorem Alike.log (h : Alike s t) : t.sh.log = s.sh.log := by
  cases h <;> rfl

/-- A reading that does not depend on the globals left out. -/
theorem Globals.read_eq {α : Type} (f : Globals → α) (hf : ∀ g, f g.kept = f g)
    (h : g'.kept = g.kept) : f g' = f g := by
  rw [← hf, h, hf]

theorem constructTimer_eq (h : g'.kept = g.kept) (hc : g.Started g') (n : Int) :
    { constructTimer g' with instances := n } = { constructTimer g with instances := n } := by
  obtain ⟨h1, h2, h3⟩ := hc
  cases g
  cases g'
  simp only [Globals.kept, constructTimer, Globals.mk.injEq] at h h1 h2 h3 ⊢
  simp only [h, h1, h2, h3, and_self]

theorem early_afterTestCase (k : TestCase) : (afterTestCase k).early = true := by
  cases k <;> rfl

/-- A step of the main thread to a place where no thread has been created. -/
theorem Alike.goto (h : Early s) (hk : g'.kept = g.kept) {pc : MainPc} (hpc : pc.early = true)
    (hc : ∀ k, pc ≠ .construct k) :
    Alike { s with sh := { s.sh with g := g }, main := pc }
      { s with sh := { s.sh with g := g' }, main := pc } :=
  .early (s := { s with sh := { s.sh with g := g }, main := pc })
    ⟨hpc, h.workers, h.timer, h.past⟩ hk fun k hk => absurd hk (hc k)

theorem Early.mainStep {created : Bool} (h : Early s) (hk : g'.kept = s.sh.g.kept)
    (hc : ∀ k, s.main = .construct k → s.sh.g.Started g') :
    Option.Rel Alike (mainStep env created s)
      (mainStep env created { s with sh := { s.sh with g := g' } }) := by
  cases hp : s.main <;> simp only [IasClient.mainStep, hp]
  case gate k =>
    have henabled : g'.enabled k = s.sh.g.enabled k :=
      Globals.read_eq (·.enabled k) (fun _ => by cases k <;> rfl) hk
    rw [henabled]
    refine .some (.goto h hk ?_ fun l => ?_)
    · split
      · rfl
      · exact early_afterTestCase k
    · split
      · exact fun hl => MainPc.noConfusion hl
      · exact afterTestCase_ne k rfl
  case gateRunning k =>
    have hrunning : g'.running = s.sh.g.running :=
      Globals.read_eq (·.running) (fun _ => rfl) hk
    rw [hrunning]
    refine .some (.goto h hk ?_ fun l => ?_)
    · split
      · split <;> rfl
      · exact early_afterTestCase k
    · split
      · split <;> exact fun hl => MainPc.noConfusion hl
      · exact afterTestCase_ne k rfl
  case gateError k =>
    have herror : g'.hasError = s.sh.g.hasError :=
      Globals.read_eq (·.hasError) (fun _ => rfl) hk
    rw [herror]
    refine .some (.goto h hk ?_ fun l => ?_)
    · split
      · exact early_afterTestCase k
      · rfl
    · split
      · exact afterTestCase_ne k rfl
      · exact fun hl => MainPc.noConfusion hl
  case startTestCase k =>
    have hpast : ∀ p ∈ s.past ++ [s.phase], p.workers = [] ∧ p.timer.pc = .returned := by
      intro p hp
      rcases List.mem_append.mp hp with hp | hp
      · exact h.past p hp
      · rw [List.mem_singleton.mp hp]
        exact ⟨h.workers, h.timer⟩
    refine .some ?_
    split
    · exact .early (s := { sh := callbackToPlatform k .started "" 0 "" _, main := _, .. })
        ⟨rfl, rfl, rfl, hpast⟩ hk fun _ _ => ⟨rfl, rfl, rfl⟩
    · exact .early (s := { sh := { g := _, .. }, main := _, .. })
        ⟨rfl, rfl, rfl, hpast⟩ hk fun _ _ => ⟨rfl, rfl, rfl⟩
  case construct k =>
    rw [constructTimer_eq hk (hc k hp)]
    exact .some (.same _)
  case endPhase =>
    exact .some (.goto h (congrArg (fun g : Globals => { g with currentTestPhase := .INIT }) hk) rfl
      fun _ hl => MainPc.noConfusion hl)
  case shutdown =>
    exact .some (.goto h (congrArg (fun g : Globals => { g with running := false }) hk) rfl
      fun _ hl => MainPc.noConfusion hl)
  case finished => exact .none
  all_goals
    have hmain := h.main
    simp [hp, MainPc.early] at hmain

theorem Early.no_thread (env : Env) (sh : Shared) (objects : List Worker) {p : Phase}
    (hp : p.workers = [] ∧ p.timer.pc = .returned) :
    timerStep env objects sh p = none ∧ ∀ j o, workerStep env j o sh p = none := by
  constructor
  · simp [timerStep, CTimer.run, hp.2]
  · simp [workerStep, hp.1]

theorem Alike.step (h : Alike s t) (a : Action) :
    Option.Rel Alike (IasClient.step env a s) (IasClient.step env a t) := by
  cases h with
  | same =>
    cases IasClient.step env a s with
    | none => exact .none
    | some u => exact .some (.same u)
  | @early g' h hk hc =>
    have hphase (sh : Shared) (objects : List Worker) :=
      Early.no_thread env sh objects ⟨h.workers, h.timer⟩
    have hpast (sh : Shared) (objects : List Worker) {i : Nat} {p : Phase}
        (hi : s.past[i]? = some p) :=
      Early.no_thread env sh objects
        (h.past p (List.mem_of_getElem? hi))
    cases a with
    | main created => exact h.mainStep hk hc
    | timer =>
      simp only [IasClient.step, (hphase _ _).1, Option.map_none]
      exact .none
    | worker j o =>
      simp only [IasClient.step, (hphase _ []).2, Option.map_none]
      exact .none
    | pastTimer i =>
      simp only [IasClient.step]
      cases hi : s.past[i]? with
      | none => exact .none
      | some p =>
        simp only [Option.bind_some, (hpast _ _ hi).1, Option.map_none]
        exact .none
    | pastWorker i j o =>
      simp only [IasClient.step]
      cases hi : s.past[i]? with
      | none => exact .none
      | some p =>
        simp only [Option.bind_some, (hpast _ [] hi).2, Option.map_none]
        exact .none
    | stop =>
      have hk' : Globals.kept { g' with running := false } =
          Globals.kept { s.sh.g with running := false } :=
        congrArg (fun g : Globals => { g with running := false }) hk
      exact .some (.early (s := { s with sh := { s.sh with g := { s.sh.g with running := false } } })
        ⟨h.main, h.workers, h.timer, h.past⟩ hk' fun k hp =>
          ⟨(hc k hp).syncingThreads, (hc k hp).nTestCase, (hc k hp).currentTestPhase⟩)
    | clock now =>
      have hk' : Globals.kept { g' with now := now } = Globals.kept { s.sh.g with now := now } :=
        congrArg (fun g : Globals => { g with now := now }) hk
      exact .some (.early (s := { s with sh := { s.sh with g := { s.sh.g with now := now } } })
        ⟨h.main, h.workers, h.timer, h.past⟩ hk' fun k hp =>
          ⟨(hc k hp).syncingThreads, (hc k hp).nTestCase, (hc k hp).currentTestPhase⟩)

/-- What `callbackToPlatform` hands over on Android: `test_case` is `conf.sTestName`, empty before
the first test case of the process, and `callbackFinished` is called too in the phase END. -/
structure Handed where
  cmd : Cmd
  msg : String
  testCase : Option TestCase
  error : Option (Int × String)
  ipInfo : IpInfo := {}
  rttUdpInfo : Option RttUdpInfo := none
  downloadInfo : List Aggregate := []
  downloadRawData : List PerStream := []
  uploadInfo : List Aggregate := []
  uploadRawData : List PerStream := []
  callbackFinished : Bool

def Message.handed (m : Message) : Handed where
  cmd := m.cmd
  msg := m.msg
  testCase := some m.testCase
  error := m.error
  ipInfo := m.ipInfo
  rttUdpInfo := m.rttUdpInfo
  downloadInfo := m.downloadInfo
  downloadRawData := m.downloadRawData
  uploadInfo := m.uploadInfo
  uploadRawData := m.uploadRawData
  callbackFinished := decide (m.currentTestPhase = .END)

def Event.handed : Event → Option Handed
  | .startTestCase _ => none
  | .platform _ m => some m.handed

/-- The global state between two calls of `measurementStart`. -/
structure Process where
  /-- `conf.sTestName` -/
  sTestName : Option TestCase
  g : Globals

namespace Process

/-- The library as it is loaded. -/
def fresh : Process where
  sTestName := none
  g := Globals.default

/-- The error that `measurementStart` reports when no test case is enabled. -/
def noTestCase (p : Process) : Handed where
  cmd := .error
  msg := "no test case enabled"
  testCase := p.sTestName
  error := some (1, "no test case enabled")
  callbackFinished := decide (p.g.currentTestPhase = .END)

/-- What is handed over before the first test case is considered. -/
def earlyError (c : Parameters) (p : Process) : List Handed := if c.any then [] else [p.noTestCase]

/-- `measurementStart` at its first test case, with RUNNING set to true before the call; after the
early error `shutdown()` has returned. -/
def start (c : Parameters) (now : UInt64) (p : Process) : Sys :=
  measurementStart c.rtt c.download c.upload { p.g with running := true, now := now }

/-- What a call hands over along a sequence of steps and events. -/
def observed (env : Env) (c : Parameters) (now : UInt64) (p : Process) (as : List Action) :
    Option (List Handed) :=
  (exec (step env) as (p.start c now)).map fun s =>
    p.earlyError c ++ s.sh.log.filterMap Event.handed

/-- The global state that a call leaves. -/
def after (p : Process) (s : Sys) : Process where
  sTestName := if starts s.sh.log = [] then p.sTestName else some s.sh.g.nTestCase
  g := s.sh.g

/-- The global states that any number of finished calls leave. -/
inductive Left : Process → Prop
  | fresh : Left fresh
  | call {p : Process} (h : Left p) (env : Env) (henv : env.mobile = true) (c : Parameters)
      (now : UInt64) {s : Sys} (hrun : Run (step env) (fun _ _ => True) (p.start c now) s)
      (hs : CallEnded s) : Left (p.after s)

theorem Left.free {p : Process} (h : Left p) : p.g.mutexTimerIndexUploadFirst = none := by
  induction h with
  | fresh => rfl
  | call _ _ _ _ _ hrun hs ih =>
    have hheld := hrun.invariant (I := Held) (fun _ _ _ hh _ hs => hh.step hs) (.inl ih)
    exact hheld.free hs

variable {p q : Process} {c : Parameters} {now : UInt64}

theorem start_alike (h : q.g.mutexTimerIndexUploadFirst = p.g.mutexTimerIndexUploadFirst) :
    Alike (p.start c now) (q.start c now) := by
  have hearly : Early (p.start c now) := by
    constructor <;> simp [start, measurementStart, MainPc.early]
  have hkept : (q.start c now).sh.g.kept = (p.start c now).sh.g.kept := by
    simp only [Globals.kept, constructTimer, start, measurementStart, h]
  exact .early hearly hkept fun k hk => by simp [start, measurementStart] at hk

/-- Two calls with the same early error hand over the same. -/
theorem observed_eq (h : q.g.mutexTimerIndexUploadFirst = p.g.mutexTimerIndexUploadFirst)
    (he : p.earlyError c = q.earlyError c) (as : List Action) :
    p.observed env c now as = q.observed env c now as := by
  have hruns : Option.Rel Alike (exec (step env) as (p.start c now))
      (exec (step env) as (q.start c now)) :=
    exec_lockstep (fun a _ _ h => h.step a) as (start_alike h)
  rw [observed, observed, he]
  generalize exec (step env) as (p.start c now) = u at hruns ⊢
  generalize exec (step env) as (q.start c now) = v at hruns ⊢
  cases hruns with
  | some h => rw [Option.map_some, Option.map_some, h.log]
  | none => rfl

theorem earlyError_eq_iff : p.earlyError c = q.earlyError c ↔ c.any = true ∨
    p.sTestName = q.sTestName ∧
      (p.g.currentTestPhase = .END ↔ q.g.currentTestPhase = .END) := by
  by_cases hc : c.any = true
  · simp [earlyError, hc]
  · simp [earlyError, hc, noTestCase]

/-- A call hands over the same from any two states that earlier calls left, whatever happens in it,
exactly if it has a test case, or the two agree in what the early error shows of them. -/
theorem calls_independent_iff (hp : Left p) (hq : Left q) (c : Parameters) (now : UInt64) :
    (∀ env : Env, env.mobile = true → ∀ as : List Action,
        p.observed env c now as = q.observed env c now as) ↔
      c.any = true ∨ p.sTestName = q.sTestName ∧
        (p.g.currentTestPhase = .END ↔ q.g.currentTestPhase = .END) := by
  rw [← earlyError_eq_iff]
  constructor
  · intro h
    have hempty := h { Env.default with mobile := true } rfl []
    simp only [observed, exec, Option.map_some, Option.some.injEq] at hempty
    exact List.append_cancel_right hempty
  · intro he env _ as
    exact observed_eq (hq.free.trans hp.free.symm) he as

/-- An Android build. -/
def android : Env := { Env.default with mobile := true }

/-- Every test case is off. -/
def noTests : Parameters where
  rtt := false
  download := false
  upload := false

theorem left_afterNoTests : ∃ q, Left q ∧ q.g.currentTestPhase = .END := by
  obtain ⟨s, hrun, hmain, htimer, hworkers, hpast, hphase⟩ : ∃ s : Sys,
      Run (step android) (fun _ _ => True) (fresh.start noTests 0) s ∧ s.main = .finished ∧
        s.phase.timer.pc = .returned ∧ s.phase.workers = [] ∧ s.past = [] ∧
          s.sh.g.currentTestPhase = .END :=
    ⟨_, run_of_exec (List.replicate 7 (.main true)) rfl, by rfl, by rfl, by rfl, by rfl, by rfl⟩
  have hended : CallEnded s := by
    refine ⟨hmain, ⟨htimer, ?_⟩, ?_⟩
    · simp [Phase.WorkersReturned, hworkers]
    · simp [hpast]
  exact ⟨_, .call .fresh android rfl noTests 0 hrun hended, hphase⟩

theorem calls_independent_iff_afterNoTests : ∃ q, Left q ∧ q.g.currentTestPhase = .END ∧
    ∀ env : Env, env.mobile = true → ∀ as : List Action,
      fresh.observed env { noTests with rtt := true } 0 as =
        q.observed env { noTests with rtt := true } 0 as := by
  obtain ⟨q, hq, hend⟩ := left_afterNoTests
  exact ⟨q, hq, hend, (calls_independent_iff .fresh hq _ 0).mpr (.inl rfl)⟩

/-- The same call, twice: the second one calls `callbackFinished` with its error. -/
theorem noTests_twice : ∃ q, Left q ∧
    (fresh.observed android noTests 0 []).map (·.map (·.callbackFinished)) = some [false] ∧
      (q.observed android noTests 0 []).map (·.map (·.callbackFinished)) = some [true] := by
  obtain ⟨q, hq, hend⟩ := left_afterNoTests
  refine ⟨q, hq, rfl, ?_⟩
  have hearly : q.earlyError noTests = [q.noTestCase] := rfl
  simp [observed, exec, hearly, noTestCase, hend, start, measurementStart]

end Process

end IasClient
