import IasClient.Framework.WriteOnce
import IasClient.Control.Order

namespace IasClient

open Framework

open WriteOnce (Role Turn Safe)

/-- The part of a stream in the choice of TIMER_INDEX_UPLOAD_FIRST. -/
def WorkerPc.role : WorkerPc → Role
  | .uploadFirstAgain => .testing
  | .setFirst => .writing
  | .unlock => .releasing
  | .ifFirstEqual | .grid => .relying
  | _ => .away

variable {env : Env} {k : TestCase} {o : Outcome} {g g' : Globals} {w w' : Worker}

/-- The step of a thread is a turn in the choice of TIMER_INDEX_UPLOAD_FIRST. -/
def Worker.Turns (g g' : Globals) (w w' : Worker) : Prop :=
  Turn 0 g.timerIndexUploadFirst g.mutexTimerIndexUploadFirst.isSome w.pc.role
    g'.timerIndexUploadFirst g'.mutexTimerIndexUploadFirst.isSome w'.pc.role

/-- A step that has nothing to do with the choice. -/
theorem Worker.turns_away (hf : g'.timerIndexUploadFirst = g.timerIndexUploadFirst)
    (hm : g'.mutexTimerIndexUploadFirst = g.mutexTimerIndexUploadFirst)
    (hw : w.pc.role = .away) (hw' : w'.pc.role = .away) : w.Turns g g' w' := by
  rw [Worker.Turns, hf, hm, hw, hw']
  exact .stay _ _ _

theorem connect_turns {forbids : Bool} {next : WorkerPc} (hn : next.role = .away)
    (h : connect forbids next o g w = some (g', w')) : w.Turns g g' w' := by
  cases hp : w.pc <;> simp only [connect, hp, Worker.goto] at h
  all_goals try contradiction
  all_goals repeat' (split at h)
  all_goals
    obtain ⟨rfl, rfl⟩ := Prod.mk.inj (Option.some.inj h)
    exact Worker.turns_away rfl rfl (by rw [hp]; rfl) (by first | rfl | exact hn)

theorem receiveLoop_turns {leave : WorkerPc} (hl : leave.role = .away)
    (h : receiveLoop leave o g w = some (g', w')) : w.Turns g g' w' := by
  cases hp : w.pc <;> simp only [receiveLoop, hp, Worker.goto] at h
  all_goals try contradiction
  all_goals repeat' (split at h)
  all_goals
    obtain ⟨rfl, rfl⟩ := Prod.mk.inj (Option.some.inj h)
    refine Worker.turns_away rfl rfl (by rw [hp]; rfl) ?_
  all_goals first | rfl | exact hl

theorem upload_turns (h : Upload.run env o g w = some (g', w')) : w.Turns g g' w' := by
  cases hp : w.pc <;> simp only [Upload.run, hp, Worker.goto] at h
  all_goals try with_reducible exact connect_turns rfl h
  all_goals try with_reducible exact receiveLoop_turns rfl h
  case lock =>
    split at h
    · contradiction
    · rename_i hfree
      obtain ⟨rfl, rfl⟩ := Prod.mk.inj (Option.some.inj h)
      rw [Worker.Turns, hp, hfree]
      exact .lock _
  case uploadFirstAgain =>
    obtain ⟨rfl, rfl⟩ := Prod.mk.inj (Option.some.inj h)
    rw [Worker.Turns, hp]
    by_cases hf : g.timerIndexUploadFirst = 0
    · simp only [hf, if_true]
      exact .test _
    · simp only [hf, if_false]
      exact .skip _ _
  case setFirst =>
    obtain ⟨rfl, rfl⟩ := Prod.mk.inj (Option.some.inj h)
    rw [Worker.Turns, hp]
    exact .write _ _ _
  case unlock =>
    obtain ⟨rfl, rfl⟩ := Prod.mk.inj (Option.some.inj h)
    rw [Worker.Turns, hp]
    exact .unlock _ _
  case ifFirstSet =>
    obtain ⟨rfl, rfl⟩ := Prod.mk.inj (Option.some.inj h)
    rw [Worker.Turns, hp]
    by_cases hf : g.timerIndexUploadFirst = 0
    · simp only [hf, if_true]
      exact .stay _ _ _
    · simp only [hf, if_false]
      exact .rely hf _
  case ifFirstEqual =>
    obtain ⟨rfl, rfl⟩ := Prod.mk.inj (Option.some.inj h)
    rw [Worker.Turns, hp]
    split
    · exact .stay _ _ _
    · exact .leave _ _
  case grid =>
    obtain ⟨rfl, rfl⟩ := Prod.mk.inj (Option.some.inj h)
    rw [Worker.Turns, hp]
    exact .leave _ _
  all_goals repeat' (split at h)
  all_goals
    obtain ⟨rfl, rfl⟩ := Prod.mk.inj (Option.some.inj h)
    exact Worker.turns_away rfl rfl (by rw [hp]; rfl) rfl

/-- Every step of an upload stream is a turn; an exception leaves the choice alone, as the code
under the lock throws none. -/
theorem Worker.run_turns (h : Worker.run env .upload o g w = some (g', w')) :
    w.Turns g g' w' := by
  rcases Worker.run_cases h with ⟨hin, rfl, rfl⟩ | h | ⟨-, h⟩
  · rw [Worker.Turns]
    cases hp : w.pc <;> simp only [hp, WorkerPc.inTry, Bool.false_eq_true] at hin
    case ifFirstEqual | grid => exact .leave _ _
    all_goals exact .stay _ _ _
  · cases hp : w.pc <;> simp only [catchException, hp, Worker.goto] at h
    all_goals try contradiction
    all_goals
      obtain ⟨rfl, rfl⟩ := Prod.mk.inj (Option.some.inj h)
      exact Worker.turns_away rfl rfl (by rw [hp]; rfl) rfl
  · exact upload_turns h

/-- The globals of the choice are as they were. -/
structure Globals.FirstKept (g g' : Globals) : Prop where
  first : g'.timerIndexUploadFirst = g.timerIndexUploadFirst
  mutex : g'.mutexTimerIndexUploadFirst = g.mutexTimerIndexUploadFirst

theorem Globals.FirstKept.refl (g : Globals) : g.FirstKept g := ⟨rfl, rfl⟩

/-- The threads of the other test cases have no part in the choice. -/
theorem Worker.run_firstKept (hk : k ≠ .upload) (h : Worker.run env k o g w = some (g', w')) :
    g.FirstKept g' := by
  rcases Worker.run_cases h with ⟨-, rfl, rfl⟩ | h | ⟨-, h⟩
  · exact .refl _
  · cases hp : w.pc <;> simp only [catchException, hp, Worker.goto] at h
    all_goals try contradiction
    all_goals
      obtain ⟨rfl, rfl⟩ := Prod.mk.inj (Option.some.inj h)
      exact ⟨rfl, rfl⟩
  · cases k <;> try contradiction
    all_goals
      cases hp : w.pc <;>
        simp only [Worker.tryBlock, Ip.run, Ping.run, Download.run, connect, receiveLoop, hp,
          Worker.goto] at h
      all_goals try contradiction
      all_goals repeat' (split at h)
      all_goals
        obtain ⟨rfl, rfl⟩ := Prod.mk.inj (Option.some.inj h)
        exact ⟨rfl, rfl⟩

theorem Timer.Effect.firstKept {sender : TestCase} {t t' : Timer} {sh sh' : Shared}
    (h : Timer.Effect sender t t' sh sh') : sh.g.FirstKept sh'.g := by
  cases h
  case performed => cases sh.cb.mTestCase <;> exact ⟨rfl, rfl⟩
  all_goals exact ⟨rfl, rfl⟩

/-- What concerns TIMER_INDEX_UPLOAD_FIRST in a step: a change, with the stamps that the streams
decoded last, the grid that a stream creates, by its keys, and a slow-start test. -/
inductive FirstEvent
  | changed (old new : Int) (stamps : List UInt64)
  | grid (keys : List Int)
  | slowStart (first : Int)

/-- The use that the next step of a stream makes of TIMER_INDEX_UPLOAD_FIRST. The slow-start test
compares with it only while the slow-start size is 0. -/
def Worker.firstUse (o : Outcome) (g : Globals) (w : Worker) : List FirstEvent :=
  if o.throws then []
  else
    match w.pc with
    | .grid => [.grid (Upload.gridKeys g.timerIndexUploadFirst g.measurementDuration)]
    | .latchFirst =>
      if w.upload.mUpload.datasizeSlowStart = 0 then [.slowStart g.timerIndexUploadFirst] else []
    | _ => []

def firstUse (a : Action) (s : Sys) : List FirstEvent :=
  match a with
  | .worker j o =>
    match s.phase.workers[j]? with
    | some w => w.firstUse o s.sh.g
    | none => []
  | _ => []

def firstChange (s s' : Sys) : List FirstEvent :=
  if s'.sh.g.timerIndexUploadFirst = s.sh.g.timerIndexUploadFirst then []
  else [.changed s.sh.g.timerIndexUploadFirst s'.sh.g.timerIndexUploadFirst
    (s.phase.workers.map (·.upload.nTimeRecvExa))]

/-- The measurement with the history of TIMER_INDEX_UPLOAD_FIRST, which no step reads. -/
structure FirstHistory where
  sys : Sys
  events : List FirstEvent := []

def FirstHistory.step (env : Env) (a : Action) (r : FirstHistory) : Option FirstHistory :=
  (IasClient.step env a r.sys).map fun s =>
    { sys := s, events := r.events ++ firstChange r.sys s ++ firstUse a r.sys }

/-- A grid that starts at the value, or a slow-start test that compares with it. -/
def FirstEvent.Uses (first : Int) : FirstEvent → Prop
  | .changed .. => False
  | .grid keys => keys.head? = some first
  | .slowStart f => f = first

/-- The history of one upload test, whose value is `first` at its end. While the value is 0 the
slow-start tests compare with 0; it changes once, to a last-decoded stamp that is not 0; and from
then on every use is of that value. -/
def OneOrigin (first : Int) (events : List FirstEvent) : Prop :=
  first = 0 ∧ (∀ e ∈ events, e = .slowStart 0) ∨
    first ≠ 0 ∧ ∃ before stamps after,
      events = before ++ FirstEvent.changed 0 first stamps :: after ∧
      (∃ x ∈ stamps, first = toInt x) ∧ (∀ e ∈ before, e = .slowStart 0) ∧
      ∀ e ∈ after, e.Uses first

variable {s s' : Sys} {a : Action}

/-- A step without a part in the choice, of another thread than the main one. -/
structure Sys.Aside (s s' : Sys) : Prop where
  kept : s.sh.g.FirstKept s'.sh.g
  main : s'.main = s.main
  testCase : s'.phase.testCase = s.phase.testCase
  workers : s'.phase.workers = s.phase.workers
  past : s'.past.map (·.testCase) = s.past.map (·.testCase)

/-- The steps of a measurement in which no upload test case is past. -/
inductive FirstStep (env : Env) (s : Sys) : Action → Sys → Prop
  | main {created : Bool} {s' : Sys} (h : mainStep env created s = some s') :
      FirstStep env s (.main created) s'
  | worker {j : Nat} {o : Outcome} {w w' : Worker} {g : Globals} (hw : s.phase.workers[j]? = some w)
      (h : Worker.run env s.phase.testCase o s.sh.g w = some (g, w')) :
      FirstStep env s (.worker j o)
        { s with
          sh := { s.sh with g := g }
          phase := { s.phase with workers := s.phase.workers.set j w' } }
  | aside {a : Action} {s' : Sys} (ha : firstUse a s = []) (h : s.Aside s') : FirstStep env s a s'

/-- An element is replaced by one that a function does not tell from it. -/
theorem map_set_eq {α β : Type} {f : α → β} {l : List α} {i : Nat} {a b : α} (hi : l[i]? = some a)
    (h : f b = f a) : (l.set i b).map f = l.map f := by
  obtain ⟨hlt, rfl⟩ := List.getElem?_eq_some_iff.mp hi
  rw [List.map_set, h, ← List.map_set, List.set_getElem_self]

theorem step_firstStep (hp : ∀ p ∈ s.past, p.testCase ≠ .upload) (h : step env a s = some s') :
    FirstStep env s a s' := by
  cases a with
  | main created => exact .main h
  | timer =>
    simp only [step, timerStep, Option.map_map, Option.map_eq_some_iff] at h
    obtain ⟨⟨sh, t⟩, hrun, rfl⟩ := h
    exact .aside rfl ⟨(CTimer.run_effect hrun).firstKept, rfl, rfl, rfl, rfl⟩
  | worker j o =>
    simp only [step, workerStep, Option.map_eq_some_iff, Option.bind_eq_some_iff] at h
    obtain ⟨_, ⟨w, hw, ⟨g, w'⟩, hrun, rfl⟩, rfl⟩ := h
    exact .worker hw hrun
  | pastTimer i =>
    simp only [step, timerStep, Option.map_eq_some_iff, Option.bind_eq_some_iff] at h
    obtain ⟨p, hi, _, ⟨⟨sh, t⟩, hrun, rfl⟩, rfl⟩ := h
    exact .aside rfl
      ⟨(CTimer.run_effect hrun).firstKept, rfl, rfl, rfl, map_set_eq hi rfl⟩
  | pastWorker i j o =>
    simp only [step, workerStep, Option.map_eq_some_iff, Option.bind_eq_some_iff] at h
    obtain ⟨p, hi, _, ⟨w, hw, ⟨g, w'⟩, hrun, rfl⟩, rfl⟩ := h
    exact .aside rfl ⟨Worker.run_firstKept (hp p (List.mem_of_getElem? hi)) hrun, rfl, rfl, rfl,
      map_set_eq hi rfl⟩
  | stop =>
    obtain rfl := Option.some.inj h
    exact .aside rfl ⟨⟨rfl, rfl⟩, rfl, rfl, rfl, rfl⟩
  | clock now =>
    obtain rfl := Option.some.inj h
    exact .aside rfl ⟨⟨rfl, rfl⟩, rfl, rfl, rfl, rfl⟩

theorem TestCase.number_le (k : TestCase) : k.number ≤ 4 := by
  cases k <;> decide

theorem MainPc.bound_le (m : MainPc) : m.bound ≤ 5 := by
  cases m with
  | gate k | gateRunning k | gateError k | startTestCase k => exact Nat.le_succ_of_le k.number_le
  | construct k | startMeasurement k | create k | store k | join k _ | waitPerformed k
  | waitError k | waitRunning k | destroy k _ | joinTimer k => exact Nat.succ_le_succ k.number_le
  | endPhase | shutdown | finished => exact Nat.le_refl 5

/-- The streams of the test case have not been created. -/
def MainPc.preparing : MainPc → Bool
  | .construct _ | .startMeasurement _ => true
  | _ => false

theorem preparing_afterTestCase (k : TestCase) : (afterTestCase k).preparing = false := by
  cases k <;> rfl

theorem opening_afterTestCase (k : TestCase) : (afterTestCase k).opening = false := by
  cases k <;> rfl

/-- The upload test case is the last one, and its streams are created after the constructor of
CTimer has cleared TIMER_INDEX_UPLOAD_FIRST. -/
structure UploadLast (s : Sys) : Prop where
  past : .upload ∉ s.past.map (·.testCase)
  bound : s.phase.testCase = .upload → s.main.bound = 5
  inside : ∀ k, s.main.inside = some k → s.phase.testCase = k
  workers : s.main.preparing = true → s.phase.workers = []
  unset : ∀ k, s.main = .startMeasurement k → s.sh.g.timerIndexUploadFirst = 0

namespace UploadLast

theorem not_past (h : UploadLast s) : ∀ p ∈ s.past, p.testCase ≠ .upload :=
  fun _ hp hk => h.past (List.mem_map.mpr ⟨_, hp, hk⟩)

theorem start (rtt download upload : Bool) (old : Globals) :
    UploadLast (measurementStart rtt download upload old) := by
  constructor <;> simp [measurementStart, MainPc.inside]

/-- A step of the main thread inside a test case or past the last one, or between two of them. -/
theorem goto {pc : MainPc} (h : UploadLast s) (hpast : s'.past = s.past)
    (hk : s'.phase.testCase = s.phase.testCase) (hm : s'.main = pc)
    (hb : s.main.bound ≤ pc.bound) (hi : ∀ k, pc.inside = some k → s.main.inside = some k)
    (hp : pc.preparing = false) : UploadLast s' where
  past := hpast ▸ h.past
  bound hu := by
    have hle := pc.bound_le
    have := h.bound (hk ▸ hu)
    rw [hm]
    omega
  inside k hk' := hk.trans (h.inside k (hi k (hm ▸ hk')))
  workers hp' := by
    rw [hm, hp] at hp'
    contradiction
  unset k hk' := by
    rw [← hm, hk'] at hp
    contradiction

theorem goto_after {k : TestCase} (h : UploadLast s) (hb : s.main.bound ≤ k.number + 1) :
    UploadLast { s with main := afterTestCase k } := by
  refine h.goto rfl rfl rfl (by rwa [bound_afterTestCase]) ?_ (preparing_afterTestCase k)
  intro l hl
  rw [inside_afterTestCase] at hl
  contradiction

theorem step_main {created : Bool} (h : UploadLast s) (hs : mainStep env created s = some s') :
    UploadLast s' := by
  cases hm : s.main <;> simp only [mainStep, hm] at hs
  case startTestCase k =>
    obtain rfl := Option.some.inj hs
    have hphase : s.phase.testCase ≠ .upload := by
      intro hu
      have hb := h.bound hu
      have hle := k.number_le
      rw [hm, MainPc.bound] at hb
      omega
    refine ⟨?_, ?_, ?_, ?_, ?_⟩
    · simp only [List.map_append, List.mem_append, not_or]
      exact ⟨h.past, fun hu => hphase (List.mem_singleton.mp hu).symm⟩
    · rintro rfl
      rfl
    · exact fun l hl => Option.some.inj hl
    · exact fun _ => rfl
    · exact fun _ hl => MainPc.noConfusion hl
  case construct k =>
    obtain rfl := Option.some.inj hs
    have hin := h.inside k (by rw [hm]; rfl)
    refine ⟨h.past, ?_, ?_, ?_, ?_⟩
    · intro hu
      have hb := h.bound hu
      rwa [hm] at hb
    · rintro l hl
      exact hin.trans (Option.some.inj hl)
    · exact fun _ => h.workers (hm ▸ rfl)
    · exact fun _ _ => rfl
  all_goals repeat' (split at hs)
  all_goals try contradiction
  all_goals obtain rfl := Option.some.inj hs
  all_goals try with_reducible exact h.goto_after (hm ▸ Nat.le_refl _)
  all_goals try with_reducible exact h.goto_after (hm ▸ Nat.le_succ _)
  all_goals
    refine h.goto rfl rfl rfl (hm ▸ Nat.le_refl _) ?_ rfl
    rw [hm]
    exact fun l hl => hl

theorem step (h : UploadLast s) (hs : step env a s = some s') : UploadLast s' := by
  cases step_firstStep h.not_past hs with
  | main hmain => exact h.step_main hmain
  | worker hw =>
    refine ⟨h.past, h.bound, h.inside, fun hp => ?_, fun k hk => ?_⟩
    · rw [h.workers hp] at hw
      contradiction
    · rw [h.workers (hk ▸ rfl)] at hw
      contradiction
  | aside _ ha =>
    refine ⟨?_, ?_, ?_, ?_, ?_⟩
    · exact ha.past ▸ h.past
    · rw [ha.testCase, ha.main]
      exact h.bound
    · rw [ha.testCase, ha.main]
      exact h.inside
    · rw [ha.workers, ha.main]
      exact h.workers
    · rw [ha.kept.first, ha.main]
      exact h.unset

end UploadLast

/-- The value, its lock and the parts of the streams. -/
def Sys.choice (s : Sys) : WriteOnce.State Int where
  value := s.sh.g.timerIndexUploadFirst
  locked := s.sh.g.mutexTimerIndexUploadFirst.isSome
  roles := s.phase.workers.map (·.pc.role)

theorem Sys.choice_congr (hg : s.sh.g.FirstKept s'.sh.g)
    (hr : s'.phase.workers.map (·.pc.role) = s.phase.workers.map (·.pc.role)) :
    s'.choice = s.choice := by
  rw [Sys.choice, hg.first, hg.mutex, hr, Sys.choice]

theorem newWorker_role (env : Env) (k : TestCase) (j : Nat) (cb : CCallback) :
    (newWorker env k j cb).pc.role = .away := by
  cases k <;> rfl

/-- The invariant of an upload test after the constructor of CTimer. -/
structure Choosing (s : Sys) : Prop extends UploadLast s where
  testCase : s.phase.testCase = .upload
  constructed : s.main.opening = false
  safe : Safe 0 s.choice

namespace Choosing

theorem start (h : UploadLast s) (hm : s.main = .startMeasurement .upload) : Choosing s where
  toUploadLast := h
  testCase := h.inside .upload (hm ▸ rfl)
  constructed := hm ▸ rfl
  safe := by
    rw [Sys.choice, h.workers (hm ▸ rfl)]
    exact .start _ _

/-- A step of the main thread leaves the choice alone, or adds a stream to it. -/
theorem main_choice (h : Choosing s) {created : Bool} (hs : mainStep env created s = some s') :
    s'.phase.testCase = s.phase.testCase ∧ s'.main.opening = false ∧
      (s'.choice = s.choice ∨
        s'.choice = { s.choice with roles := s.choice.roles ++ [.away] }) := by
  have hb := h.bound h.testCase
  cases hm : s.main <;> simp only [mainStep, hm] at hs
  case gate k | gateRunning k | gateError k | startTestCase k =>
    have hle := k.number_le
    rw [hm, MainPc.bound] at hb
    omega
  case construct k =>
    have hopen := h.constructed
    rw [hm] at hopen
    contradiction
  case destroy k i =>
    split at hs <;> obtain rfl := Option.some.inj hs
    · exact ⟨rfl, rfl, .inl rfl⟩
    · rename_i w hw
      exact ⟨rfl, rfl, .inl (Sys.choice_congr (.refl _) (map_set_eq hw rfl))⟩
  case create k =>
    repeat' (split at hs)
    all_goals try contradiction
    all_goals obtain rfl := Option.some.inj hs
    · refine ⟨rfl, rfl, .inr ?_⟩
      simp only [Sys.choice, List.map_append, List.map_cons, List.map_nil, newWorker_role]
    · exact ⟨rfl, opening_afterTestCase k, .inl rfl⟩
    · exact ⟨rfl, rfl, .inl rfl⟩
  case joinTimer k =>
    split at hs
    · obtain rfl := Option.some.inj hs
      exact ⟨rfl, opening_afterTestCase k, .inl rfl⟩
    · contradiction
  all_goals repeat' (split at hs)
  all_goals try contradiction
  all_goals obtain rfl := Option.some.inj hs
  all_goals exact ⟨rfl, rfl, .inl rfl⟩

theorem step (h : Choosing s) (hs : step env a s = some s') : Choosing s' := by
  have hlast := h.toUploadLast.step hs
  cases step_firstStep h.not_past hs with
  | main hmain =>
    obtain ⟨hk, hc, hchoice⟩ := h.main_choice hmain
    refine ⟨hlast, hk.trans h.testCase, hc, ?_⟩
    rcases hchoice with hchoice | hchoice
    · exact hchoice ▸ h.safe
    · exact hchoice ▸ h.safe.spawn
  | worker hw hrun =>
    have hturn := Worker.run_turns (h.testCase ▸ hrun)
    refine ⟨hlast, h.testCase, h.constructed, ?_⟩
    simp only [Sys.choice, List.map_set]
    exact h.safe.turn (by simp [hw]) hturn
  | aside _ ha =>
    refine ⟨hlast, ha.testCase.trans h.testCase, ?_, ?_⟩
    · rw [ha.main]
      exact h.constructed
    · rw [Sys.choice_congr ha.kept (congrArg _ ha.workers)]
      exact h.safe

end Choosing

theorem head?_gridKeys (first : Int) (d : UInt64) :
    (Upload.gridKeys first d).head? = some first := by
  rw [Upload.gridKeys, List.head?_map, List.head?_range, if_neg (Nat.succ_ne_zero _)]
  simp

theorem Worker.firstUse_uses {e : FirstEvent} (he : e ∈ w.firstUse o g) :
    e.Uses g.timerIndexUploadFirst ∧
      (w.pc.role = .relying ∨ e = .slowStart g.timerIndexUploadFirst) := by
  unfold Worker.firstUse at he
  split at he
  · contradiction
  · split at he
    · rename_i hp
      obtain rfl := List.mem_singleton.mp he
      exact ⟨head?_gridKeys _ _, .inl (hp ▸ rfl)⟩
    · split at he
      · obtain rfl := List.mem_singleton.mp he
        exact ⟨rfl, .inr rfl⟩
      · contradiction
    · contradiction

theorem WorkerPc.eq_setFirst {p : WorkerPc} (h : p.role = .writing) : p = .setFirst := by
  cases p <;> first | rfl | contradiction

/-- The write under the lock. -/
theorem Worker.run_setFirst (hp : w.pc = .setFirst)
    (h : Worker.run env .upload o g w = some (g', w')) :
    g'.timerIndexUploadFirst = toInt w.upload.nTimeRecvExa ∧ w.firstUse o g = [] := by
  refine ⟨?_, ?_⟩
  · rcases Worker.run_cases h with ⟨hin, -⟩ | h | ⟨-, h⟩
    · simp [hp, WorkerPc.inTry] at hin
    · simp [catchException, hp] at h
    · simp only [Worker.tryBlock, Upload.run, hp, Worker.goto] at h
      obtain ⟨rfl, -⟩ := Prod.mk.inj (Option.some.inj h)
      rfl
  · rw [Worker.firstUse, hp]
    split <;> rfl

namespace OneOrigin

variable {first : Int} {events es : List FirstEvent}

theorem append (h : OneOrigin first events)
    (he : ∀ e ∈ es, e.Uses first ∧ (first ≠ 0 ∨ e = .slowStart first)) :
    OneOrigin first (events ++ es) := by
  rcases h with ⟨rfl, h⟩ | ⟨hf, before, stamps, after, rfl, hx, hb, ha⟩
  · refine .inl ⟨rfl, fun e hmem => ?_⟩
    rcases List.mem_append.mp hmem with hmem | hmem
    · exact h e hmem
    · exact (he e hmem).2.resolve_left fun hf => hf rfl
  · refine .inr ⟨hf, before, stamps, after ++ es, by simp, hx, hb, fun e hmem => ?_⟩
    rcases List.mem_append.mp hmem with hmem | hmem
    · exact ha e hmem
    · exact (he e hmem).1

theorem change {stamps : List UInt64} (h : OneOrigin 0 events) (hf : first ≠ 0)
    (hx : ∃ x ∈ stamps, first = toInt x) :
    OneOrigin first (events ++ [FirstEvent.changed 0 first stamps]) := by
  rcases h with ⟨-, h⟩ | ⟨h0, -⟩
  · exact .inr ⟨hf, events, stamps, [], rfl, hx, h, fun _ he => absurd he List.not_mem_nil⟩
  · exact absurd rfl h0

/-- A step of the upload test, seen from its history. -/
theorem step {r r' : FirstHistory} (h : OneOrigin r.sys.sh.g.timerIndexUploadFirst r.events)
    (hc : Choosing r.sys) (hs : FirstHistory.step env a r = some r') :
    OneOrigin r'.sys.sh.g.timerIndexUploadFirst r'.events := by
  obtain ⟨s', hsys, rfl⟩ := Option.map_eq_some_iff.mp hs
  have hkept (hf : s'.sh.g.timerIndexUploadFirst = r.sys.sh.g.timerIndexUploadFirst)
      (hu : ∀ e ∈ firstUse a r.sys, e.Uses r.sys.sh.g.timerIndexUploadFirst ∧
        (r.sys.sh.g.timerIndexUploadFirst ≠ 0 ∨
          e = .slowStart r.sys.sh.g.timerIndexUploadFirst)) :
      OneOrigin s'.sh.g.timerIndexUploadFirst
        (r.events ++ firstChange r.sys s' ++ firstUse a r.sys) := by
    rw [firstChange, if_pos hf, List.append_nil, hf]
    exact h.append hu
  cases step_firstStep hc.not_past hsys with
  | main hmain =>
    refine hkept ?_ fun _ he => absurd he List.not_mem_nil
    obtain ⟨-, -, hchoice | hchoice⟩ := hc.main_choice hmain
    · exact congrArg WriteOnce.State.value hchoice
    · exact congrArg WriteOnce.State.value hchoice
  | @worker j o w w' g hw hrun =>
    rw [hc.testCase] at hrun
    have hrole : r.sys.choice.roles[j]? = some w.pc.role := by simp [Sys.choice, hw]
    have huse : firstUse (.worker j o) r.sys = w.firstUse o r.sys.sh.g := by
      simp only [firstUse, hw]
    by_cases hf : g.timerIndexUploadFirst = r.sys.sh.g.timerIndexUploadFirst
    · refine hkept hf fun e he => ?_
      obtain ⟨huses, hkind⟩ := Worker.firstUse_uses (huse ▸ he)
      refine ⟨huses, hkind.imp_left fun hp => hc.safe.relying ?_⟩
      exact List.mem_of_getElem? (hp ▸ hrole)
    · obtain ⟨hwriting, hunset⟩ := hc.safe.changes hrole (Worker.run_turns hrun) hf
      obtain ⟨hstamp, hnone⟩ := Worker.run_setFirst (WorkerPc.eq_setFirst hwriting) hrun
      change r.sys.sh.g.timerIndexUploadFirst = 0 at hunset
      simp only [firstChange, if_neg hf, huse, hnone, List.append_nil]
      rw [hunset] at h hf ⊢
      exact h.change hf ⟨_, List.mem_map.mpr ⟨w, List.mem_of_getElem? hw, rfl⟩, hstamp⟩
  | aside ha hkeep =>
    exact hkept hkeep.kept.first fun _ he => absurd (ha ▸ he) List.not_mem_nil

end OneOrigin

/-- In one upload test TIMER_INDEX_UPLOAD_FIRST changes at most once, from 0 to a last-decoded
stamp of a stream that is not 0. Every grid starts at that value, and every slow-start test after
the change compares with it. -/
theorem upload_streams_agree (env : Env) (rtt download upload : Bool) (old : Globals) {s : Sys}
    {r : FirstHistory}
    (hs : Run (step env) (fun _ _ => True) (measurementStart rtt download upload old) s)
    (hm : s.main = .startMeasurement .upload)
    (hr : Run (FirstHistory.step env) (fun _ _ => True) { sys := s } r) :
    OneOrigin r.sys.sh.g.timerIndexUploadFirst r.events := by
  have hlast : UploadLast s :=
    hs.invariant (fun _ _ _ h _ hs => h.step hs) (.start rtt download upload old)
  have hchoosing (t : FirstHistory)
      (ht : Run (FirstHistory.step env) (fun _ _ => True) { sys := s } t) : Choosing t.sys := by
    refine Run.invariant (I := fun t => Choosing t.sys) (fun _ _ _ h _ hu => ?_)
      (Choosing.start hlast hm) ht
    obtain ⟨s', hsys, rfl⟩ := Option.map_eq_some_iff.mp hu
    exact h.step hsys
  exact Run.invariant_of (I := fun t => OneOrigin t.sys.sh.g.timerIndexUploadFirst t.events)
    hchoosing (fun _ _ _ hc _ h _ hu => h.step hc hu)
    (.inl ⟨hlast.unset .upload hm, fun _ he => absurd he List.not_mem_nil⟩) hr

/-- The ip test, and the main thread up to the streams of the upload. -/
def uploadTest : List Action :=
  List.replicate 8 (Action.main true) ++ List.replicate 8 (Action.worker 0 {}) ++
    [Action.worker 0 { code := 5 }] ++ List.replicate 4 (Action.worker 0 {}) ++
    List.replicate 17 Action.timer ++ [Action.clock 600000] ++ List.replicate 27 Action.timer ++
    List.replicate 13 (Action.main true)

/-- Two upload streams that both find no origin with their first entry after TIMER_RUNNING. The
first is the one that sets it; the second waits for the mutex, finds it set, and creates its grid at
its next entry. -/
def contended : List Action :=
  List.replicate 3 (Action.main true) ++
    List.replicate 9 (Action.worker 0 {}) ++ List.replicate 9 (Action.worker 1 {}) ++
    [Action.worker 0 { code := 13, text := "5,0,0,100000;".toList },
      .worker 1 { code := 13, text := "7,0,0,100000;".toList }] ++
    List.replicate 8 (Action.worker 0 {}) ++ List.replicate 8 (Action.worker 1 {}) ++
    List.replicate 12 Action.timer ++
    List.replicate 3 (Action.worker 0 {}) ++ List.replicate 3 (Action.worker 1 {}) ++
    [Action.worker 0 { code := 13, text := "3,0,0,100005;".toList },
      .worker 1 { code := 26, text := "4,0,0,100010;6,0,0,100005;".toList }] ++
    List.replicate 4 (Action.worker 0 {}) ++ List.replicate 4 (Action.worker 1 {}) ++
    List.replicate 4 (Action.worker 0 {}) ++ List.replicate 17 (Action.worker 1 {}) ++
    List.replicate 6 (Action.worker 0 {})

set_option maxRecDepth 4000 in
theorem run_contended : ∃ (s : Sys) (r : FirstHistory),
    Run (step twoStreamEnv) (fun _ _ => True)
      (measurementStart false false true Globals.default) s ∧
    s.main = .startMeasurement .upload ∧
    Run (FirstHistory.step twoStreamEnv) (fun _ _ => True) { sys := s } r ∧
    r.sys.sh.g.timerIndexUploadFirst = 100005 ∧
    r.events = [.changed 0 100005 [100005, 100010],
      .grid [100005, 100010, 100015, 100020, 100025, 100030, 100035, 100040, 100045],
      .slowStart 100005,
      .grid [100005, 100010, 100015, 100020, 100025, 100030, 100035, 100040, 100045],
      .slowStart 100005] :=
  ⟨_, _, run_of_exec uploadTest rfl, by decide, run_of_exec contended rfl, by decide, by rfl⟩

theorem upload_streams_agree_contended : ∃ r : FirstHistory,
    .changed 0 100005 [100005, 100010] ∈ r.events ∧ OneOrigin 100005 r.events := by
  obtain ⟨s, r, hs, hm, hr, hfirst, hevents⟩ := run_contended
  refine ⟨r, hevents ▸ .head _, ?_⟩
  have h := upload_streams_agree twoStreamEnv false false true Globals.default hs hm hr
  rwa [hfirst] at h

/-- An upload stream that receives two entries with one stamp before TIMER_RUNNING, and one entry
after it. -/
def latchedEarly : List Action :=
  List.replicate 2 (Action.main true) ++ List.replicate 9 (Action.worker 0 {}) ++
    [Action.worker 0 { code := 26, text := "5,0,0,100000;7,0,0,100000;".toList }] ++
    List.replicate 17 (Action.worker 0 {}) ++ List.replicate 12 Action.timer ++
    [Action.worker 0 { code := 13, text := "3,0,0,100005;".toList }] ++
    List.replicate 14 (Action.worker 0 {})

set_option maxRecDepth 4000 in
theorem run_latchedEarly : ∃ (s : Sys) (r : FirstHistory),
    Run (step oneStreamEnv) (fun _ _ => True)
      (measurementStart false false true Globals.default) s ∧
    s.main = .startMeasurement .upload ∧
    Run (FirstHistory.step oneStreamEnv) (fun _ _ => True) { sys := s } r ∧
    r.sys.sh.g.timerIndexUploadFirst = 100005 ∧
    r.events = [.slowStart 0, .changed 0 100005 [100005],
      .grid [100005, 100010, 100015, 100020, 100025, 100030, 100035], .slowStart 100005] :=
  ⟨_, _, run_of_exec uploadTest rfl, by decide, run_of_exec latchedEarly rfl, by decide, by rfl⟩

/-- The slow-start test of the entry before TIMER_RUNNING compares with 0, the grid starts at
100005. -/
theorem first_unset_in_slow_start : ∃ (s : Sys) (r : FirstHistory),
    Run (step oneStreamEnv) (fun _ _ => True)
      (measurementStart false false true Globals.default) s ∧
    s.main = .startMeasurement .upload ∧
    Run (FirstHistory.step oneStreamEnv) (fun _ _ => True) { sys := s } r ∧
    ¬ ∃ first, ∀ e ∈ r.events, e.Uses first ∨ ∃ stamps, e = .changed 0 first stamps := by
  obtain ⟨s, r, hs, hm, hr, -, hevents⟩ := run_latchedEarly
  refine ⟨s, r, hs, hm, hr, ?_⟩
  rintro ⟨first, hall⟩
  rw [hevents] at hall
  have hzero : 0 = first := by
    rcases hall (.slowStart 0) (.head _) with h | ⟨_, h⟩
    · exact h
    · contradiction
  have hslow : 100005 = first := by
    rcases hall (.slowStart 100005) (by simp) with h | ⟨_, h⟩
    · exact h
    · contradiction
  omega

end IasClient
