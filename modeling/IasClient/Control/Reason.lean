import IasClient.Control.Joined

namespace IasClient

open Framework

/-- A worker or the timer has written down why the test case fails. -/
def Globals.reason (g : Globals) : Prop :=
  g.unreachable = true ∨ g.forbidden = true ∨ g.tlsParametersMissing = true ∨
    g.streamsDropped = true

/-- Some worker is about to write `hasError`. -/
def Sys.Owes (s : Sys) : Prop := ∃ w ∈ s.phase.workers, w.pc.owesError = true

/-- Every reason is followed by `hasError`. -/
structure Owing (s : Sys) : Prop where
  owed : s.sh.g.reason → s.sh.g.hasError = true ∨ s.Owes
  dropFlag : ∀ c, s.phase.timer.pc = .callback c .dropFlag → s.sh.g.hasError = true

variable {env : Env} {k : TestCase} {s s' : Sys} {a : Action} {sh sh' : Shared}

theorem Worker.Effect.reason {w w' : Worker} {g g' : Globals} (h : Worker.Effect k w w' g g')
    (hr : g'.reason) : g.reason ∨ w'.pc.owesError = true := by
  cases h
  case unreachable h => exact .inr h
  case forbidden h => exact .inr h
  case tlsParametersMissing h => exact .inr h
  all_goals exact .inl hr

/-- Only the write of `hasError` ends a debt. -/
theorem Worker.Effect.owes {w w' : Worker} {g g' : Globals} (h : Worker.Effect k w w' g g')
    (ho : w.pc.owesError = true) : g'.hasError = true ∨ w'.pc.owesError = true := by
  cases h
  case none h => exact .inr (h ho)
  case unreachable h => exact .inr h
  case forbidden h => exact .inr h
  case tlsParametersMissing h => exact .inr h
  case hasError => exact .inl rfl
  all_goals simp_all

theorem Globals.setPerformed_reason (g : Globals) (k : TestCase) :
    (g.setPerformed k).reason ↔ g.reason := by
  cases k <;> exact Iff.rfl

theorem Timer.Effect.reason {t t' : Timer} (h : Timer.Effect k t t' sh sh')
    (hr : sh'.g.reason) : sh.g.reason ∨ ∃ c, t.pc = .callback c .dropFlag := by
  cases h
  case streamsDropped c h _ => exact .inr ⟨c, h⟩
  case performed => exact .inl ((Globals.setPerformed_reason _ _).mp hr)
  all_goals exact .inl hr

theorem Globals.Persists.reason {g g' : Globals} (h : g.Persists g') (hr : g.reason) :
    g'.reason := by
  unfold Globals.reason at hr ⊢
  have := h.unreachable
  have := h.forbidden
  have := h.tlsParametersMissing
  have := h.streamsDropped
  tauto

/-- The main thread writes down no reason, and sets `hasError` back in no test case. -/
theorem mainStep_reason {created : Bool} (h : mainStep env created s = some s') :
    (s'.sh.g.reason → s.sh.g.reason) ∧ s'.sh.g.hasError = s.sh.g.hasError := by
  cases hm : s.main <;> simp only [mainStep, hm] at h
  all_goals repeat' (split at h)
  all_goals try contradiction
  all_goals
    simp only [Option.some.injEq] at h
    subst h
    exact ⟨id, rfl⟩

/-- The main thread moves no worker. -/
theorem mainStep_keeps {created : Bool} (h : mainStep env created s = some s')
    (hs : ∀ k, s.main ≠ .startTestCase k) {w : Worker} (hw : w ∈ s.phase.workers) :
    w ∈ s'.phase.workers ∨ { w with destroyed := true } ∈ s'.phase.workers := by
  cases hm : s.main <;> simp only [mainStep, hm] at h
  case startTestCase k => exact absurd hm (hs k)
  case create k =>
    repeat' (split at h)
    all_goals simp only [Option.some.injEq, reduceCtorEq] at h
    all_goals subst h
    · exact .inl (List.mem_append_left _ hw)
    all_goals exact .inl hw
  case destroy k i =>
    split at h
    all_goals
      simp only [Option.some.injEq] at h
      subst h
    · exact .inl hw
    · rename_i v hv
      rcases mem_set_of_mem { v with destroyed := true } hv hw with rfl | hw
      · exact .inr (mem_set_self _ hv)
      · exact .inl hw
  all_goals repeat' (split at h)
  all_goals try contradiction
  all_goals
    simp only [Option.some.injEq] at h
    subst h
    exact .inl hw

theorem mainStep_owes {created : Bool} (h : mainStep env created s = some s')
    (hs : ∀ k, s.main ≠ .startTestCase k) (ho : s.Owes) : s'.Owes := by
  obtain ⟨w, hw, hpc⟩ := ho
  rcases mainStep_keeps h hs hw with hw | hw
  · exact ⟨w, hw, hpc⟩
  · exact ⟨{ w with destroyed := true }, hw, hpc⟩

theorem mainStep_timer_pc {created : Bool} (h : mainStep env created s = some s') :
    s'.phase.timer.pc = s.phase.timer.pc ∨ s'.phase.timer.pc = .returned ∨
      s'.phase.timer.pc = .outerRunning := by
  cases hm : s.main <;> simp only [mainStep, hm] at h
  all_goals repeat' (split at h)
  all_goals try contradiction
  all_goals
    simp only [Option.some.injEq] at h
    subst h
    simp

theorem Owing.step_main (ho : Owing s) {created : Bool} (h : mainStep env created s = some s')
    (hr : ∀ k, s.main = .startTestCase k → s.phase.WorkersReturned) : Owing s' := by
  obtain ⟨hreason, herr⟩ := mainStep_reason h
  refine ⟨fun hrs => ?_, fun c hp => ?_⟩
  · rw [herr]
    rcases ho.owed (hreason hrs) with he | howes
    · exact .inl he
    · by_cases hs : ∃ k, s.main = .startTestCase k
      · obtain ⟨k, hm⟩ := hs
        obtain ⟨w, hw, hpc⟩ := howes
        simp [hr k hm w hw, WorkerPc.owesError] at hpc
      · exact .inr (mainStep_owes h (by simpa using hs) howes)
  · rw [herr]
    rcases mainStep_timer_pc h with hpc | hpc | hpc
    · exact ho.dropFlag c (hpc ▸ hp)
    · simp [hpc] at hp
    · simp [hpc] at hp

theorem Owing.step_timer (ho : Owing s) {sh : Shared} {t : Timer}
    (h : CTimer.run env s.phase.testCase s.phase.objects s.sh s.phase.timer = some (sh, t)) :
    Owing { s with sh := sh, phase := { s.phase with timer := t } } := by
  have he := CTimer.run_effect h
  have hg := he.grows.1.toPersists
  refine ⟨fun hr => ?_, (CTimer.run_arrives h).dropFlag⟩
  rcases he.reason hr with hr | ⟨c, hc⟩
  · exact (ho.owed hr).imp_left hg.hasError
  · exact .inl (hg.hasError (ho.dropFlag c hc))

theorem Owing.step_worker (ho : Owing s) {j : Nat} {o : Outcome} {w w' : Worker} {g : Globals}
    (hw : s.phase.workers[j]? = some w)
    (h : Worker.run env s.phase.testCase o s.sh.g w = some (g, w')) :
    Owing { s with
      sh := { s.sh with g := g }
      phase := { s.phase with workers := s.phase.workers.set j w' } } := by
  have he := Worker.run_effect h
  have hg := he.grows.toPersists
  refine ⟨fun hr => ?_, fun c hp => hg.hasError (ho.dropFlag c hp)⟩
  have hnew : w'.pc.owesError = true → ∃ v ∈ s.phase.workers.set j w', v.pc.owesError = true :=
    fun h' => ⟨w', mem_set_self w' hw, h'⟩
  rcases he.reason hr with hr | h'
  · rcases ho.owed hr with he' | ⟨v, hv, h'⟩
    · exact .inl (hg.hasError he')
    · rcases mem_set_of_mem w' hw hv with rfl | hv
      · exact (he.owes h').imp_right hnew
      · exact .inr ⟨v, hv, h'⟩
  · exact .inr (hnew h')

theorem Threads.returned_startTestCase (ht : Threads env s) (k : TestCase)
    (hm : s.main = .startTestCase k) : s.phase.WorkersReturned := by
  have hj := ht.joined
  simp only [Joined, hm] at hj
  exact hj.2

theorem Owing.step (ho : Owing s) (ht : Threads env s) (h : IasClient.step env a s = some s') :
    Owing s' := by
  cases step_moved ht.past h with
  | main hm => exact ho.step_main hm ht.returned_startTestCase
  | timer hstep => exact ho.step_timer hstep
  | worker hw hstep => exact ho.step_worker hw hstep
  | stop => exact ⟨ho.owed, ho.dropFlag⟩
  | clock now => exact ⟨ho.owed, ho.dropFlag⟩

theorem Owing.run {rtt download upload : Bool} {old : Globals} {ok : Sys → Action → Prop}
    (hok : ∀ t a, ok t a → Created a)
    (h : Run (IasClient.step env) ok (measurementStart rtt download upload old) s) : Owing s :=
  Run.invariant_of (fun _ hr => Threads.run hok hr) (fun _ _ _ ht _ ho _ hs => ho.step ht hs)
    ⟨by simp [measurementStart, Globals.reason], by simp [measurementStart]⟩ h

/-- Without a worker that is about to write it, `hasError` is true if there is a reason. -/
theorem Owing.hasError (ho : Owing s) (hw : s.phase.WorkersReturned) (hr : s.sh.g.reason) :
    s.sh.g.hasError = true := by
  rcases ho.owed hr with he | ⟨w, hmem, hpc⟩
  · exact he
  · simp [hw w hmem, WorkerPc.owesError] at hpc

end IasClient
