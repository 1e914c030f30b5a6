import IasClient.Accounting.History

namespace IasClient

open Framework

/-- The bins and the slow-start size are the same. -/
def Worker.Unchanged (w w' : Worker) : Prop :=
  w'.mDownload.results = w.mDownload.results ∧
    w'.mDownload.datasizeSlowStart = w.mDownload.datasizeSlowStart

namespace Download

/-- Accounting `r` bits at the index changes neither bins nor slow-start size. -/
def Vain (index r : Int) (d : MeasurementData) : Prop :=
  UInt64.ofInt r = 0 ∧ (d.results.find? index).isSome = true ∧
    (d.datasizeSlowStart = 0 → index = 0 → d.datasizeTotal = 0)

/-- The stream has no slow-start size, and its bins are there and 0. -/
def Prepared (duration : UInt64) (d : MeasurementData) : Prop :=
  d.datasizeSlowStart = 0 ∧ ∀ i ∈ binKeys duration, d.results.find? i = some 0

/-- With TIMER_STOPPED true, the stream accounts no more. -/
def Shut (g : Globals) (w : Worker) : Prop :=
  match w.pc with
  | .resolve | .timestamp | .register | .socket | .request | .prepare =>
    Prepared g.measurementDuration w.mDownload
  | .receive => g.timerRunning = true → g.hasError = true
  | .setSynced | .received => g.timerRunning = true → g.hasError = false →
    w.mResponse = -1 ∨ w.mResponse = 0 ∨
      Vain g.timerIndex (bits w.mResponse w.tlsRecords w.mTlsOverhead) w.mDownload
  | .ifTimerRunning => g.timerRunning = true → g.hasError = false →
    Vain g.timerIndex w.mResponse w.mDownload
  | .ifHasError => g.hasError = false → Vain g.timerIndex w.mResponse w.mDownload
  | .addBin => Vain g.timerIndex w.mResponse w.mDownload
  | .latch => w.mDownload.datasizeSlowStart = 0 → g.timerIndex = 0 →
    w.mDownload.datasizeTotal - UInt64.ofInt w.mResponse = 0
  | _ => True

/-- What the threads leave of the globals once TIMER_STOPPED is true. -/
structure Closing (g g' : Globals) : Prop where
  timerStopped : g'.timerStopped = g.timerStopped
  timerRunning : g'.timerRunning = g.timerRunning
  timerIndex : g'.timerIndex = g.timerIndex
  measurementDuration : g'.measurementDuration = g.measurementDuration
  hasError : g.hasError = true → g'.hasError = true

variable {env : Env} {o : Outcome} {g g' : Globals} {w w' : Worker} {s s' t : Sys} {a : Action}

theorem Shut.closing (h : Shut g w) (hg : Closing g g') : Shut g' w := by
  have herror : g'.hasError = false → g.hasError = false := by
    intro hf
    rw [← Bool.not_eq_true]
    intro he
    rw [hg.hasError he] at hf
    contradiction
  cases hp : w.pc <;> simp only [Shut, hp] at h ⊢ <;>
    simp only [hg.timerRunning, hg.timerIndex, hg.measurementDuration]
  case receive => exact fun hr => hg.hasError (h hr)
  case setSynced | received | ifTimerRunning => exact fun hr he => h hr (herror he)
  case ifHasError => exact fun he => h (herror he)
  all_goals exact h

theorem initResults_eq_self_iff {d : UInt64} {m : OrdMap Int UInt64} :
    initResults d m = m ↔ ∀ i ∈ binKeys d, m.find? i = some 0 := by
  constructor
  · intro h i hi
    rw [← h, initResults, OrdMap.find?_foldl_insert, if_pos hi]
  · intro h
    apply OrdMap.ext_find?
    intro i
    rw [initResults, OrdMap.find?_foldl_insert]
    split
    · rename_i hi
      exact (h i hi).symm
    · rfl

theorem add_eq_self_iff {m : OrdMap Int UInt64} {k : Int} {v : UInt64} :
    m.add k v = m ↔ v = 0 ∧ (m.find? k).isSome = true := by
  constructor
  · intro h
    have hget := OrdMap.get_add m k k v
    rw [h, if_pos rfl] at hget
    refine ⟨left_eq_add.mp hget, ?_⟩
    rw [← h, OrdMap.add, OrdMap.find?_insert_self]
    rfl
  · rintro ⟨rfl, hsome⟩
    obtain ⟨v, hv⟩ := Option.isSome_iff_exists.mp hsome
    apply OrdMap.ext_find?
    intro j
    rw [OrdMap.add, OrdMap.find?_insert, add_zero, OrdMap.get, hv]
    split
    · rename_i hj
      rw [hj, hv]
      rfl
    · rfl

theorem Vain.addTotal {i r : Int} {d : MeasurementData} (h : Vain i r d) :
    Vain i r (addTotal r d) := by
  obtain ⟨hr, hbin, htotal⟩ := h
  refine ⟨hr, hbin, fun hslow hi => ?_⟩
  show d.datasizeTotal + UInt64.ofInt r = 0
  rw [hr, add_zero]
  exact htotal hslow hi

theorem addBin_vain {i r : Int} {d : MeasurementData} (h : Vain i r d) : addBin i r d = d := by
  rw [addBin, add_eq_self_iff.mpr ⟨h.1, h.2.1⟩]

/-- A step of `run` of a stream that accounts no more. -/
theorem Shut.step_run (h : Shut g w) (hs : g.timerStopped = true)
    (hstep : run o g w = some (g', w')) : w.Unchanged w' ∧ Shut g w' := by
  cases hp : w.pc <;>
    simp only [run, connect, receiveLoop, hp, Worker.goto] at hstep <;>
    simp only [Shut, hp] at h
  all_goals try contradiction
  case prepare =>
    obtain ⟨-, rfl⟩ := Prod.mk.inj (Option.some.inj hstep)
    exact ⟨⟨initResults_eq_self_iff.mpr h.2, h.1.symm⟩, trivial⟩
  case receive =>
    obtain ⟨-, rfl⟩ := Prod.mk.inj (Option.some.inj hstep)
    refine ⟨⟨rfl, rfl⟩, ?_⟩
    have hclosed (hr : g.timerRunning = true) (he : g.hasError = false) : False := by
      rw [h hr] at he
      contradiction
    by_cases hd : w.dataReceived = true
    · simp only [Shut, hd, if_true]
      exact fun hr he => (hclosed hr he).elim
    · simp only [Shut, hd]
      exact fun hr he => (hclosed hr he).elim
  case received =>
    split at hstep
    · obtain ⟨-, rfl⟩ := Prod.mk.inj (Option.some.inj hstep)
      exact ⟨⟨rfl, rfl⟩, trivial⟩
    · rename_i hlive
      obtain ⟨-, rfl⟩ := Prod.mk.inj (Option.some.inj hstep)
      refine ⟨⟨rfl, rfl⟩, ?_⟩
      simp only [Shut]
      intro hr he
      obtain hm | hm | hvain := h hr he
      · exact absurd (.inl hm) hlive
      · exact absurd (.inr hm) hlive
      · exact hvain.addTotal
  case ifTimerRunning =>
    obtain ⟨-, rfl⟩ := Prod.mk.inj (Option.some.inj hstep)
    refine ⟨⟨rfl, rfl⟩, ?_⟩
    by_cases hr : g.timerRunning = true
    · simp only [Shut, hr, if_true]
      exact h hr
    · simp only [Shut, hr]
      trivial
  case ifHasError =>
    obtain ⟨-, rfl⟩ := Prod.mk.inj (Option.some.inj hstep)
    refine ⟨⟨rfl, rfl⟩, ?_⟩
    by_cases he : g.hasError = true
    · simp only [Shut, he, if_true]
    · simp only [Shut, he]
      exact h ((Bool.not_eq_true _).mp he)
  case addBin =>
    obtain ⟨-, rfl⟩ := Prod.mk.inj (Option.some.inj hstep)
    simp only [addBin_vain h]
    refine ⟨⟨rfl, rfl⟩, ?_⟩
    simp only [Shut]
    intro hslow hi
    rw [h.1, h.2.2 hslow hi, sub_zero]
  case latch =>
    obtain ⟨-, rfl⟩ := Prod.mk.inj (Option.some.inj hstep)
    refine ⟨?_, trivial⟩
    by_cases hl : w.mDownload.datasizeSlowStart = 0 ∧ g.timerIndex = 0
    · simp only [latch, if_pos hl]
      exact ⟨rfl, (h hl.1 hl.2).trans hl.1.symm⟩
    · simp only [latch, if_neg hl]
      exact ⟨rfl, rfl⟩
  all_goals repeat' (split at hstep)
  all_goals
    obtain ⟨-, rfl⟩ := Prod.mk.inj (Option.some.inj hstep)
    refine ⟨⟨rfl, rfl⟩, ?_⟩
    simp only [Shut]
  all_goals exact h

/-- A step of a stream that accounts no more. -/
theorem Shut.step (h : Shut g w) (hs : g.timerStopped = true)
    (hstep : Worker.run env .download o g w = some (g', w')) : w.Unchanged w' ∧ Shut g w' := by
  rcases Worker.run_cases hstep with ⟨-, rfl, rfl⟩ | hstep | ⟨-, hstep⟩
  · exact ⟨⟨rfl, rfl⟩, trivial⟩
  · cases hp : w.pc <;> simp only [catchException, hp, Worker.goto] at hstep
    all_goals try contradiction
    all_goals
      obtain ⟨-, rfl⟩ := Prod.mk.inj (Option.some.inj hstep)
      exact ⟨⟨rfl, rfl⟩, trivial⟩
  · exact h.step_run hs hstep

/-- The steps that a stream takes before its accounting. -/
def stepsLeft : WorkerPc → Nat
  | .resolve => 6
  | .timestamp => 5
  | .register => 4
  | .socket => 3
  | .request => 2
  | .prepare => 1
  | .receive => 7
  | .setSynced => 6
  | .received => 5
  | .ifTimerRunning => 4
  | .ifHasError => 3
  | .addBin => 2
  | .latch => 1
  | _ => 0

/-- A response of one byte where the stream receives. -/
def oneByte : Outcome := { code := 1 }

/-- A stream that is not shut changes its data, or comes closer to it. -/
theorem run_of_not_shut (h : ¬ Shut g w) (hstep : run oneByte g w = some (g', w')) :
    ¬ w.Unchanged w' ∨
      ¬ Shut g' w' ∧ w.Unchanged w' ∧ stepsLeft w'.pc < stepsLeft w.pc := by
  cases hp : w.pc <;> simp only [Shut, hp, not_true_eq_false] at h <;>
    simp only [run, connect, receiveLoop, hp, Worker.goto] at hstep
  case resolve | timestamp | register | socket | request =>
    obtain ⟨rfl, rfl⟩ := Prod.mk.inj (Option.some.inj hstep)
    exact .inr ⟨h, ⟨rfl, rfl⟩, Nat.lt_succ_self _⟩
  case prepare =>
    obtain ⟨-, rfl⟩ := Prod.mk.inj (Option.some.inj hstep)
    refine .inl ?_
    rintro ⟨hresults, hslow⟩
    exact h ⟨hslow.symm, initResults_eq_self_iff.mp hresults⟩
  case receive =>
    obtain ⟨rfl, rfl⟩ := Prod.mk.inj (Option.some.inj hstep)
    obtain ⟨hr, he⟩ := Classical.not_imp.mp h
    have hbits : bits 1 0 w.mTlsOverhead = 8 := by
      rw [bits, Int.zero_mul]
      rfl
    have hlive : ¬ ((1 : Int) = -1 ∨ (1 : Int) = 0 ∨
        Vain g.timerIndex (bits 1 0 w.mTlsOverhead) w.mDownload) := by
      rintro (hm | hm | hvain)
      · contradiction
      · contradiction
      · rw [hbits] at hvain
        exact absurd hvain.1 (by decide)
    refine .inr ⟨?_, ⟨rfl, rfl⟩, ?_⟩
    · by_cases hd : w.dataReceived = true
      · simp only [Shut, hd, if_true]
        exact fun hshut => hlive (hshut hr ((Bool.not_eq_true _).mp he))
      · simp only [Shut, hd]
        exact fun hshut => hlive (hshut hr ((Bool.not_eq_true _).mp he))
    · by_cases hd : w.dataReceived = true
      · simp only [hd, if_true]
        decide
      · simp only [hd]
        decide
  case setSynced =>
    obtain ⟨rfl, rfl⟩ := Prod.mk.inj (Option.some.inj hstep)
    exact .inr ⟨h, ⟨rfl, rfl⟩, Nat.lt_succ_self _⟩
  case received =>
    obtain ⟨hr, h⟩ := Classical.not_imp.mp h
    obtain ⟨he, h⟩ := Classical.not_imp.mp h
    obtain ⟨hm, h⟩ := not_or.mp h
    obtain ⟨hm', hvain⟩ := not_or.mp h
    rw [if_neg (not_or.mpr ⟨hm, hm'⟩)] at hstep
    obtain ⟨rfl, rfl⟩ := Prod.mk.inj (Option.some.inj hstep)
    refine .inr ⟨?_, ⟨rfl, rfl⟩, Nat.lt_succ_self _⟩
    simp only [Shut]
    intro hshut
    obtain ⟨hzero, hbin, htotal⟩ := hshut hr he
    refine hvain ⟨hzero, hbin, fun hslow hi => ?_⟩
    have hsum : w.mDownload.datasizeTotal +
        UInt64.ofInt (bits w.mResponse w.tlsRecords w.mTlsOverhead) = 0 := htotal hslow hi
    rwa [hzero, add_zero] at hsum
  case ifTimerRunning =>
    obtain ⟨hr, h⟩ := Classical.not_imp.mp h
    obtain ⟨he, hvain⟩ := Classical.not_imp.mp h
    obtain ⟨rfl, rfl⟩ := Prod.mk.inj (Option.some.inj hstep)
    simp only [hr, if_true]
    exact .inr ⟨fun hshut => hvain (hshut he), ⟨rfl, rfl⟩, Nat.lt_succ_self _⟩
  case ifHasError =>
    obtain ⟨he, hvain⟩ := Classical.not_imp.mp h
    obtain ⟨rfl, rfl⟩ := Prod.mk.inj (Option.some.inj hstep)
    simp only [he, Bool.false_eq_true, if_false]
    exact .inr ⟨hvain, ⟨rfl, rfl⟩, Nat.lt_succ_self _⟩
  case addBin =>
    obtain ⟨rfl, rfl⟩ := Prod.mk.inj (Option.some.inj hstep)
    by_cases hsame : w.mDownload.results.add g.timerIndex (UInt64.ofInt w.mResponse) =
        w.mDownload.results
    · obtain ⟨hzero, hbin⟩ := add_eq_self_iff.mp hsame
      refine .inr ⟨?_, ⟨hsame, rfl⟩, Nat.lt_succ_self _⟩
      intro hshut
      refine h ⟨hzero, hbin, fun hslow hi => ?_⟩
      have hrest : w.mDownload.datasizeTotal - UInt64.ofInt w.mResponse = 0 := hshut hslow hi
      rwa [hzero, sub_zero] at hrest
    · exact .inl fun hunchanged => hsame hunchanged.1
  case latch =>
    obtain ⟨hslow, h⟩ := Classical.not_imp.mp h
    obtain ⟨hi, hrest⟩ := Classical.not_imp.mp h
    obtain ⟨rfl, rfl⟩ := Prod.mk.inj (Option.some.inj hstep)
    refine .inl fun hunchanged => hrest ?_
    have hnew := hunchanged.2
    rw [latch, if_pos ⟨hslow, hi⟩] at hnew
    exact hnew.trans hslow

theorem isSome_run_of_not_shut (h : ¬ Shut g w) : (run oneByte g w).isSome = true := by
  cases hp : w.pc <;> simp only [Shut, hp, not_true_eq_false] at h <;>
    simp only [run, connect, receiveLoop, hp, Worker.goto]
  case received => split <;> rfl
  all_goals rfl

theorem worker_run_of_not_shut (h : ¬ Shut g w) :
    Worker.run env .download oneByte g w = run oneByte g w := by
  cases hp : w.pc <;> simp only [Shut, hp, not_true_eq_false] at h <;>
    simp [Worker.run, Worker.tryBlock, oneByte, hp]

end Download

/-- The streams and the timer take steps; the main thread only waits. -/
def ByThreads (_ : Sys) (a : Action) : Prop := ∀ created, a ≠ .main created

/-- A Download test, from the start of its streams and its timer on. -/
structure Underway (s : Sys) : Prop where
  testCase : s.phase.testCase = .download
  mTestCase : s.sh.cb.mTestCase = .download
  past : s.past = []
  wf : s.phase.timer.Wf .download
  opened : Opened s.sh.g s.phase.timer

/-- No thread changes the data of a stream by its next step. -/
def Still (env : Env) (t : Sys) : Prop :=
  ∀ (a : Action) (t' : Sys), ByThreads t a → step env a t = some t' →
    ∀ (j : Nat) (w w' : Worker), t.phase.workers[j]? = some w →
      t'.phase.workers[j]? = some w' → w.Unchanged w'

theorem Timer.Effect.closing {k : TestCase} {t t' : Timer} {sh sh' : Shared}
    (h : Timer.Effect k t t' sh sh') (hs : sh.g.timerStopped = true)
    (ho : t.pc.windowOpen = false) : Download.Closing sh.g sh'.g := by
  cases h
  case timerRunning hp _ => simp [hp, TimerPc.windowOpen] at ho
  case index hp _ => simp [hp, TimerPc.windowOpen] at ho
  case stopped => exact ⟨hs.symm, rfl, rfl, rfl, id⟩
  case hasError => exact ⟨rfl, rfl, rfl, rfl, fun _ => rfl⟩
  case performed => cases hk : sh.cb.mTestCase <;> exact ⟨rfl, rfl, rfl, rfl, id⟩
  all_goals exact ⟨rfl, rfl, rfl, rfl, id⟩

theorem Worker.Effect.closing (h : Worker.Effect .download w w' g g') : Download.Closing g g' := by
  obtain ⟨hstopped, -, hindex⟩ := h.keeps_window (by decide)
  exact ⟨hstopped, h.keeps_timerRunning, hindex, h.keeps_duration (by decide), h.grows.hasError⟩

theorem Underway.step (h : Underway s) (ha : ByThreads s a)
    (hs : IasClient.step env a s = some s') : Underway s' := by
  cases step_moved (by simp [h.past]) hs with
  | main hm => exact absurd rfl (ha _)
  | timer hstep =>
    rw [h.testCase] at hstep
    have hkept := (CTimer.run_effect hstep).kept
    exact ⟨h.testCase, hkept.mTestCase.trans h.mTestCase, h.past,
      CTimer.run_wf h.mTestCase h.wf hstep, h.opened.step_timer (.inl rfl) h.wf hstep⟩
  | worker hw hstep =>
    rw [h.testCase] at hstep
    have he := Worker.run_effect hstep
    obtain ⟨hstopped, -, hindex⟩ := he.keeps_window (by decide)
    exact ⟨h.testCase, h.mTestCase, h.past, h.wf, h.opened.congr hstopped hindex he.grows.running⟩
  | stop => exact ⟨h.testCase, h.mTestCase, h.past, h.wf, h.opened.congr rfl rfl fun _ => rfl⟩
  | clock now => exact ⟨h.testCase, h.mTestCase, h.past, h.wf, h.opened.congr rfl rfl id⟩

/-- With TIMER_STOPPED true, no stream accounts any more. -/
structure AllShut (s : Sys) : Prop where
  timerStopped : s.sh.g.timerStopped = true
  shut : ∀ w ∈ s.phase.workers, Download.Shut s.sh.g w

theorem AllShut.closing (h : AllShut s) (hg : Download.Closing s.sh.g s'.sh.g)
    (hw : s'.phase.workers = s.phase.workers) : AllShut s' :=
  ⟨hg.timerStopped.trans h.timerStopped, fun w hmem => (h.shut w (hw ▸ hmem)).closing hg⟩

theorem Worker.Unchanged.of_get {l : List Worker} {j : Nat} (hw : l[j]? = some w)
    (hw' : l[j]? = some w') : w.Unchanged w' := by
  obtain rfl := Option.some.inj (hw.symm.trans hw')
  exact ⟨rfl, rfl⟩

/-- What a step does once no stream accounts any more. -/
theorem AllShut.step (h : AllShut s) (hu : Underway s) (ha : ByThreads s a)
    (hs : IasClient.step env a s = some s') :
    AllShut s' ∧ ∀ (j : Nat) (w w' : Worker), s.phase.workers[j]? = some w →
      s'.phase.workers[j]? = some w' → w.Unchanged w' := by
  cases step_moved (by simp [hu.past]) hs with
  | main hm => exact absurd rfl (ha _)
  | timer hstep =>
    rw [hu.testCase] at hstep
    have hopen : s.phase.timer.pc.windowOpen = false := by
      rw [← Bool.not_eq_true]
      intro hopen
      have hfalse := hu.opened.windowOpen (.inl hopen)
      rw [h.timerStopped] at hfalse
      contradiction
    have hclosing := (CTimer.run_effect hstep).closing h.timerStopped hopen
    exact ⟨h.closing hclosing rfl, fun j w w' => Worker.Unchanged.of_get⟩
  | worker hw hstep =>
    rw [hu.testCase] at hstep
    have hclosing := (Worker.run_effect hstep).closing
    obtain ⟨hsame, hshut⟩ := (h.shut _ (List.mem_of_getElem? hw)).step h.timerStopped hstep
    refine ⟨⟨hclosing.timerStopped.trans h.timerStopped, fun v hv => ?_⟩, fun i v v' hv hv' => ?_⟩
    · rcases List.mem_or_eq_of_mem_set hv with hv | hv
      · exact (h.shut v hv).closing hclosing
      · exact hv ▸ hshut.closing hclosing
    · rw [List.getElem?_set] at hv'
      split at hv'
      · subst i
        split at hv'
        · obtain rfl := Option.some.inj hv'
          obtain rfl := Option.some.inj (hw.symm.trans hv)
          exact hsame
        · contradiction
      · exact Worker.Unchanged.of_get hv hv'
  | stop =>
    exact ⟨h.closing ⟨rfl, rfl, rfl, rfl, id⟩ rfl, fun j w w' => Worker.Unchanged.of_get⟩
  | clock now =>
    exact ⟨h.closing ⟨rfl, rfl, rfl, rfl, id⟩ rfl, fun j w w' => Worker.Unchanged.of_get⟩

variable (env) in
/-- A stream that is not shut comes to change its data. -/
theorem exists_changes (hu : Underway s) {j : Nat} (hw : s.phase.workers[j]? = some w)
    (h : ¬ Download.Shut s.sh.g w) :
    ∃ t, Run (IasClient.step env) ByThreads s t ∧ ¬ Still env t := by
  generalize hn : Download.stepsLeft w.pc = n
  induction n using Nat.strong_induction_on generalizing s w with
  | _ n ih =>
    obtain ⟨⟨g', w'⟩, hrun⟩ := Option.isSome_iff_exists.mp (Download.isSome_run_of_not_shut h)
    have ha : ByThreads s (.worker j Download.oneByte) := fun _ => nofun
    have hs : IasClient.step env (.worker j Download.oneByte) s =
        some { s with
          sh := { s.sh with g := g' }
          phase := { s.phase with workers := s.phase.workers.set j w' } } := by
      simp only [IasClient.step, workerStep, hw, Option.bind_some, hu.testCase,
        Download.worker_run_of_not_shut h, hrun, Option.map_some]
    have hlt : j < s.phase.workers.length := (List.getElem?_eq_some_iff.mp hw).1
    have hw' : (s.phase.workers.set j w')[j]? = some w' := List.getElem?_set_self hlt
    rcases Download.run_of_not_shut h hrun with hchanged | ⟨hopen, -, hless⟩
    · exact ⟨s, .refl, fun hstill => hchanged (hstill _ _ ha hs j w w' hw hw')⟩
    · obtain ⟨t, hrest, hstill⟩ :=
        ih _ (hn ▸ hless) (hu.step ha hs) hw' hopen rfl
      exact ⟨t, (Run.tail .refl ha hs).trans hrest, hstill⟩

theorem downloadStart_underway (env : Env) (g : Globals) (cb : CCallback) (d : UInt64) (n : Nat)
    (m : Int) : Underway (downloadStart env g cb d n m).sys :=
  have h := downloadStart_live env g cb d n m
  ⟨h.testCase, h.mTestCase, h.past, h.wf, h.opened⟩

/-- Once TIMER_STOPPED is true, the data of the streams changes no more, in any run from there,
exactly if no stream is on its way to account for something. -/
theorem window_closes_iff (env : Env) (g : Globals) (cb : CCallback) (d : UInt64) (n : Nat)
    (m : Int) (h : Run (step env) ByThreads (downloadStart env g cb d n m).sys s)
    (hs : s.sh.g.timerStopped = true) :
    (∀ t, Run (step env) ByThreads s t → Still env t) ↔
      ∀ w ∈ s.phase.workers, Download.Shut s.sh.g w := by
  have hu : Underway s :=
    h.invariant (fun _ _ _ hu ha hs => hu.step ha hs) (downloadStart_underway env g cb d n m)
  constructor
  · intro hstill w hw
    apply Classical.byContradiction
    intro hopen
    obtain ⟨j, hj⟩ := List.mem_iff_getElem?.mp hw
    obtain ⟨t, ht, hchanges⟩ := exists_changes env hu hj hopen
    exact hchanges (hstill t ht)
  · intro hshut t ht
    have ht' : Underway t ∧ AllShut t := by
      refine ht.invariant (I := fun t => Underway t ∧ AllShut t) ?_ ⟨hu, hs, hshut⟩
      rintro t a u ⟨hu, hall⟩ ha hstep
      exact ⟨hu.step ha hstep, (hall.step hu ha hstep).1⟩
    intro a u ha hstep
    exact (ht'.2.step ht'.1 ha hstep).2

instance (s : Sys) : DecidablePred (ByThreads s)
  | .main created => isFalse fun h => h created rfl
  | .timer | .clock _ | .worker .. | .pastTimer .. | .pastWorker .. | .stop => isTrue fun _ => nofun

set_option maxRecDepth 4000 in
/-- The window closes while the only stream is at the head of its loop. -/
theorem window_closes_iff_loopHead : ∃ s : Sys,
    Run (step Env.default) ByThreads oneDownload.sys s ∧ s.sh.g.timerStopped = true ∧
      ∀ t, Run (step Env.default) ByThreads s t → Still Env.default t := by
  obtain ⟨s, hrun, hs, hpc⟩ : ∃ s : Sys, Run (step Env.default) ByThreads oneDownload.sys s ∧
      s.sh.g.timerStopped = true ∧ s.phase.workers.map (·.pc) = [.whileRunning] :=
    ⟨_, run_of_exec (threeSteps ++ .clock 2100000 :: List.replicate 5 .timer) rfl, by rfl, by rfl⟩
  refine ⟨s, hrun, hs, (window_closes_iff Env.default Globals.default _ 2 1 1 hrun hs).mpr ?_⟩
  intro w hw
  have hmem := List.mem_map_of_mem (f := (·.pc)) hw
  rw [hpc, List.mem_singleton] at hmem
  simp only [Download.Shut, hmem]

set_option maxRecDepth 4000 in
/-- The window closes while the only stream waits for its data: the 9 bytes that it then receives
are 72 bits in the last bin. -/
theorem accounts_after_close : ∃ s t : Sys,
    Run (step Env.default) ByThreads oneDownload.sys s ∧ s.sh.g.timerStopped = true ∧
      Run (step Env.default) ByThreads s t ∧
      s.phase.workers.map (·.mDownload.results.get 3) = [0] ∧
      t.phase.workers.map (·.mDownload.results.get 3) = [72] :=
  ⟨_, _, run_of_exec (threeSteps ++ List.replicate 3 (Action.worker 0 {}) ++ .clock 2100000 ::
      List.replicate 5 Action.timer) rfl, by rfl,
    run_of_exec (.worker 0 { code := 9 } :: List.replicate 5 (.worker 0 {})) rfl, by rfl, by rfl⟩

end IasClient
