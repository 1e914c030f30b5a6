import IasClient.Model.Measurement

namespace IasClient

open Framework

/-- The positions whose next write is `hasError = true`. -/
def WorkerPc.owesError : WorkerPc → Bool
  | .setHasError | .httpHasError | .tlsHasError | .catchHasError => true
  | _ => false

/-- What one step of a worker of the test case `k` may do to the globals. Only the write of
`hasError` ends the debt of a position that owes it. -/
inductive Worker.Effect (k : TestCase) (w w' : Worker) (g : Globals) : Globals → Prop
  | none (h : w.pc.owesError = true → w'.pc.owesError = true) : Effect k w w' g g
  | unreachable (h : w'.pc.owesError = true) : Effect k w w' g { g with unreachable := true }
  | forbidden (h : w'.pc.owesError = true) : Effect k w w' g { g with forbidden := true }
  | tlsParametersMissing (h : w'.pc.owesError = true) :
      Effect k w w' g { g with tlsParametersMissing := true }
  | hasError : Effect k w w' g { g with hasError := true }
  | running (h : w.pc.owesError = false) : Effect k w w' g { g with running := false }
  | stopped (hk : k = .rttUdp) (h : w.pc.owesError = false) :
      Effect k w w' g { g with timerStopped := true }
  | duration (hk : k = .rttUdp) (h : w.pc.owesError = false) (v : UInt64) :
      Effect k w w' g { g with measurementDuration := v }
  | first (h : w.pc.owesError = false) (v : Int) :
      Effect k w w' g { g with timerIndexUploadFirst := v }
  | mutex (h : w.pc.owesError = false) (v : Option Int) :
      Effect k w w' g { g with mutexTimerIndexUploadFirst := v }
  | synced (h : w.pc.owesError = false) (v : Int) :
      Effect k w w' g { g with syncingThreads := g.syncingThreads.insert w.pid v }

variable {env : Env} {k : TestCase} {o : Outcome} {g g' : Globals} {w w' : Worker}

theorem connect_effect {forbids : Bool} {next : WorkerPc}
    (h : connect forbids next o g w = some (g', w')) : Worker.Effect k w w' g g' := by
  cases hp : w.pc <;> simp only [connect, hp, Worker.goto] at h
  all_goals try contradiction
  all_goals repeat' (split at h)
  all_goals
    simp only [Option.some.injEq, Prod.mk.injEq] at h
    obtain ⟨rfl, rfl⟩ := h
    with_reducible constructor
    all_goals simp [WorkerPc.owesError, hp]

theorem receiveLoop_effect {leave : WorkerPc} (h : receiveLoop leave o g w = some (g', w')) :
    Worker.Effect k w w' g g' := by
  cases hp : w.pc <;> simp only [receiveLoop, hp, Worker.goto] at h
  all_goals try contradiction
  all_goals
    simp only [Option.some.injEq, Prod.mk.injEq] at h
    obtain ⟨rfl, rfl⟩ := h
    with_reducible constructor
    all_goals simp [WorkerPc.owesError, hp]

theorem catchException_effect (h : catchException g w = some (g', w')) :
    Worker.Effect k w w' g g' := by
  cases hp : w.pc <;> simp only [catchException, hp, Worker.goto] at h
  all_goals try contradiction
  all_goals
    simp only [Option.some.injEq, Prod.mk.injEq] at h
    obtain ⟨rfl, rfl⟩ := h
    with_reducible constructor
    all_goals simp [WorkerPc.owesError, hp]

theorem ip_effect (h : Ip.run env o g w = some (g', w')) : Worker.Effect k w w' g g' := by
  cases hp : w.pc <;> simp only [Ip.run, hp, Worker.goto] at h
  all_goals try with_reducible exact connect_effect h
  all_goals try with_reducible exact receiveLoop_effect h
  all_goals repeat' (split at h)
  all_goals
    simp only [Option.some.injEq, Prod.mk.injEq] at h
    obtain ⟨rfl, rfl⟩ := h
    with_reducible constructor
    all_goals simp [WorkerPc.owesError, hp]

theorem ping_effect (h : Ping.run env o g w = some (g', w')) :
    Worker.Effect .rttUdp w w' g g' := by
  cases hp : w.pc <;> simp only [Ping.run, hp, Worker.goto] at h
  all_goals try contradiction
  all_goals
    simp only [Option.some.injEq, Prod.mk.injEq] at h
    obtain ⟨rfl, rfl⟩ := h
    with_reducible constructor
    all_goals simp [WorkerPc.owesError, hp]

theorem download_effect (h : Download.run o g w = some (g', w')) : Worker.Effect k w w' g g' := by
  cases hp : w.pc <;> simp only [Download.run, hp, Worker.goto] at h
  all_goals try with_reducible exact connect_effect h
  all_goals try with_reducible exact receiveLoop_effect h
  all_goals repeat' (split at h)
  all_goals
    simp only [Option.some.injEq, Prod.mk.injEq] at h
    obtain ⟨rfl, rfl⟩ := h
    with_reducible constructor
    all_goals simp [WorkerPc.owesError, hp]

theorem upload_effect (h : Upload.run env o g w = some (g', w')) :
    Worker.Effect k w w' g g' := by
  cases hp : w.pc <;> simp only [Upload.run, hp, Worker.goto] at h
  all_goals try with_reducible exact connect_effect h
  all_goals try with_reducible exact receiveLoop_effect h
  all_goals repeat' (split at h)
  all_goals try contradiction
  all_goals
    simp only [Option.some.injEq, Prod.mk.injEq] at h
    obtain ⟨rfl, rfl⟩ := h
    with_reducible constructor
    all_goals simp [WorkerPc.owesError, hp]

/-- A step of a worker thread leaves the `try` block by an exception, or is one of the handler, or
one of the `try` block. -/
theorem Worker.run_cases (h : Worker.run env k o g w = some (g', w')) :
    (w.pc.inTry = true ∧ g' = g ∧ w' = { w with pc := .catchHasError }) ∨
      catchException g w = some (g', w') ∨
      o.throws = false ∧ Worker.tryBlock env k o g w = some (g', w') := by
  unfold Worker.run at h
  split at h
  · split at h
    · simp only [Worker.goto, Option.some.injEq, Prod.mk.injEq] at h
      exact .inl ⟨by assumption, h.1.symm, h.2.symm⟩
    · contradiction
  · rename_i ht
    split at h
    · exact .inr (.inl h)
    · exact .inr (.inl h)
    · exact .inr (.inr ⟨by simpa using ht, h⟩)

/-- The effect of any step of a worker thread. -/
theorem Worker.run_effect (h : Worker.run env k o g w = some (g', w')) :
    Worker.Effect k w w' g g' := by
  rcases Worker.run_cases h with ⟨_, rfl, rfl⟩ | h | ⟨_, h⟩
  · exact .none (fun _ => rfl)
  · exact catchException_effect h
  · cases k with
    | ip => exact ip_effect h
    | rttUdp => exact ping_effect h
    | download => exact download_effect h
    | upload => exact upload_effect h

/-- What a step leaves alone in the worker's object. -/
structure Worker.Kept (w w' : Worker) : Prop where
  pid : w'.pid = w.pid
  destroyed : w'.destroyed = w.destroyed
  dataReceived : w.dataReceived = true → w'.dataReceived = true
  moves : w.pc ≠ .returned

theorem connect_kept {forbids : Bool} {next : WorkerPc}
    (h : connect forbids next o g w = some (g', w')) : w.Kept w' := by
  cases hp : w.pc <;> simp only [connect, hp, Worker.goto] at h
  all_goals try contradiction
  all_goals repeat' (split at h)
  all_goals
    simp only [Option.some.injEq, Prod.mk.injEq] at h
    obtain ⟨rfl, rfl⟩ := h
    exact ⟨rfl, rfl, id, by simp [hp]⟩

theorem receiveLoop_kept {leave : WorkerPc} (h : receiveLoop leave o g w = some (g', w')) :
    w.Kept w' := by
  cases hp : w.pc <;> simp only [receiveLoop, hp, Worker.goto] at h
  all_goals try contradiction
  all_goals
    simp only [Option.some.injEq, Prod.mk.injEq] at h
    obtain ⟨rfl, rfl⟩ := h
    exact ⟨rfl, rfl, by simp, by simp [hp]⟩

theorem tryBlock_kept (h : Worker.tryBlock env k o g w = some (g', w')) : w.Kept w' := by
  cases k <;> cases hp : w.pc <;>
    simp only [Worker.tryBlock, Ip.run, Ping.run, Download.run, Upload.run, hp, Worker.goto] at h
  all_goals try contradiction
  all_goals try with_reducible exact connect_kept h
  all_goals try with_reducible exact receiveLoop_kept h
  all_goals repeat' (split at h)
  all_goals try contradiction
  all_goals
    simp only [Option.some.injEq, Prod.mk.injEq] at h
    obtain ⟨rfl, rfl⟩ := h
    exact ⟨rfl, rfl, by simp, by simp [hp]⟩

theorem Worker.run_kept (h : Worker.run env k o g w = some (g', w')) : w.Kept w' := by
  rcases Worker.run_cases h with ⟨hp, rfl, rfl⟩ | h | ⟨_, h⟩
  · exact ⟨rfl, rfl, id, fun hr => by simp [hr, WorkerPc.inTry] at hp⟩
  · cases hp : w.pc <;> simp only [catchException, hp, Worker.goto] at h
    all_goals try contradiction
    all_goals
      simp only [Option.some.injEq, Prod.mk.injEq] at h
      obtain ⟨rfl, rfl⟩ := h
      exact ⟨rfl, rfl, id, by simp [hp]⟩
  · exact tryBlock_kept h

/-- The flags that a measurement never takes back. -/
structure Globals.Persists (g g' : Globals) : Prop where
  running : g.running = false → g'.running = false
  unreachable : g.unreachable = true → g'.unreachable = true
  forbidden : g.forbidden = true → g'.forbidden = true
  tlsParametersMissing : g.tlsParametersMissing = true → g'.tlsParametersMissing = true
  streamsDropped : g.streamsDropped = true → g'.streamsDropped = true
  hasError : g.hasError = true → g'.hasError = true
  performed : ∀ k, g.performed k = true → g'.performed k = true
  enabled : ∀ k, g'.enabled k = g.enabled k

/-- Within a test case the flags that the waiting loops react to are only ever raised. -/
structure Globals.Grows (g g' : Globals) : Prop extends Globals.Persists g g' where
  timerStopped : g.timerStopped = true → g'.timerStopped = true
  timerActive : g.timerActive = false → g'.timerActive = false

theorem Globals.Grows.refl (g : Globals) : g.Grows g :=
  ⟨⟨id, id, id, id, id, id, fun _ => id, fun _ => rfl⟩, id, id⟩

theorem Worker.Effect.grows (h : Worker.Effect k w w' g g') : g.Grows g' := by
  obtain ⟨⟨h1, h2, h3, h4, h5, h6, h7, h8⟩, h9, h10⟩ := Globals.Grows.refl g
  cases h
  all_goals
    refine ⟨⟨?_, ?_, ?_, ?_, ?_, ?_, h7, h8⟩, ?_, ?_⟩
    all_goals first | assumption | exact fun _ => rfl

theorem Worker.Effect.find?_synced {pid : Int} (h : Worker.Effect k w w' g g')
    (hp : pid ≠ w.pid) : g'.syncingThreads.find? pid = g.syncingThreads.find? pid := by
  cases h
  case synced v => exact OrdMap.find?_insert_ne _ hp v
  all_goals rfl

end IasClient
