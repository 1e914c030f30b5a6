import IasClient.Model.Senders
import IasClient.Control.StopEnds
import IasClient.Control.UploadFirst
import Mathlib.Algebra.BigOperators.Group.Finset.Basic
import Mathlib.Algebra.Order.BigOperators.Group.Finset

namespace IasClient

open Framework

/-- The positions of an upload stream before its sender is there. -/
def WorkerPc.beforeSender : WorkerPc → Bool
  | .resolve | .setUnreachable | .setHasError | .timestamp | .register | .socket | .request
  | .httpUnreachable | .httpForbidden | .httpHasError | .prepare => true
  | _ => false

/-- The positions behind the scope of the sender. -/
def WorkerPc.afterSender : WorkerPc → Bool
  | .catchHasError | .catchRunning | .returned => true
  | _ => false

/-- A thread that has been told to stop sends at most once more. -/
def SenderThread.Stopping (q : SenderThread) : Prop :=
  q.sender.sends.length = q.sentBefore ∨ q.sender.sends.length = q.sentBefore + 1 ∧
    (q.sender.pc = .ifResponse ∨ q.sender.pc = .ifStop ∨ q.sender.pc = .returned)

/-- A sender against the position of its stream and `hasError`. -/
structure Joins (e : Bool) (pc : WorkerPc) (q : SenderThread) : Prop where
  created : pc.beforeSender = false
  stopped : q.m_fStop = true → pc = .stopSender ∨ q.destroyed = true
  left : pc.afterSender = true → q.destroyed = true
  joined : q.destroyed = true → q.unwound = true ∨ q.sender.pc = .returned
  stopping : q.m_fStop = true → q.Stopping
  raised : q.unwound = true → pc = .catchHasError ∨ e = true

variable {env : Env} {k : TestCase} {o : Outcome} {g g' : Globals} {w w' : Worker}
variable {q q' : SenderThread} {e e' : Bool} {pc : WorkerPc}

/-- How an upload stream goes on once it has its sender. -/
theorem Upload.run_scope (h : Upload.run env o g w = some (g', w'))
    (hb : w.pc.beforeSender = false) : w'.pc.beforeSender = false ∧
      (w'.pc.afterSender = true → w.pc = .stopSender ∨
        w.pc = .nextToken ∧ w.vResponse.head?.map (Upload.decode env) = some .outOfRange) ∧
      (w.pc = .stopSender → w'.pc = .returned) := by
  cases hp : w.pc <;> simp only [Upload.run, connect, receiveLoop, hp, Worker.goto] at h hb
  all_goals try contradiction
  all_goals repeat' (split at h)
  all_goals try contradiction
  all_goals
    obtain ⟨rfl, rfl⟩ := Prod.mk.inj (Option.some.inj h)
    simp_all [WorkerPc.beforeSender, WorkerPc.afterSender]

theorem joins_created (hpc : pc.beforeSender = false) (ha : pc.afterSender = false) :
    Joins e pc {} :=
  ⟨hpc, by simp, by simp [ha], by simp, by simp, by simp⟩

theorem Joins.unwind (h : Joins e pc q) : Joins e' .catchHasError q.unwind :=
  ⟨rfl, fun _ => .inr rfl, fun _ => rfl, fun _ => .inl rfl, h.stopping, fun _ => .inl rfl⟩

theorem Joins.stopThread (h : Joins e .stopSender q) : Joins e .stopSender q.stopThread :=
  ⟨rfl, fun _ => .inl rfl, by simp [WorkerPc.afterSender], h.joined, fun _ => .inl rfl, h.raised⟩

/-- `waitForEnd` and the end of the scope. -/
theorem Joins.finish (h : Joins e .stopSender q) (hr : q.sender.pc = .returned)
    (he : e = true → e' = true) : Joins e' .returned q.destroy :=
  ⟨rfl, fun _ => .inr rfl, fun _ => rfl, fun _ => .inr hr, h.stopping,
    fun hu => .inr (he ((h.raised hu).resolve_left (by simp)))⟩

/-- The stream goes on within or behind the scope. -/
theorem Joins.goto {pc' : WorkerPc} (h : Joins e pc q) (hpc : pc ≠ .stopSender)
    (hb : pc'.beforeSender = false) (ha : pc'.afterSender = true → pc.afterSender = true)
    (he : pc = .catchHasError ∨ e = true → e' = true) : Joins e' pc' q :=
  ⟨hb, fun hs => .inr ((h.stopped hs).resolve_left hpc), fun hl => h.left (ha hl), h.joined,
    h.stopping, fun hu => .inr (he (h.raised hu))⟩

theorem Joins.mono (h : Joins e pc q) (he : e = true → e' = true) : Joins e' pc q :=
  { h with raised := fun hu => (h.raised hu).imp_right he }

/-- A step of the sender thread. -/
theorem Joins.send {P : UInt64} {d : RandomData} {code : Int} {r : Sender} (h : Joins e pc q)
    (hr : CUploadSender.run P d { g := g, m_fStop := q.m_fStop, code := code } q.sender = some r) :
    Joins e pc { q with sender := r } := by
  have hmoves : q.sender.pc ≠ .returned := by
    intro hp
    simp [CUploadSender.run, hp] at hr
  refine ⟨h.created, h.stopped, h.left, fun hd => ?_, fun hs => ?_, h.raised⟩
  · exact .inl ((h.joined hd).resolve_right hmoves)
  · have hlate := h.stopping hs
    change q.m_fStop = true at hs
    simp only [SenderThread.Stopping] at hlate ⊢
    cases hp : q.sender.pc <;> simp only [CUploadSender.run, hp] at hr
    all_goals repeat' (split at hr)
    all_goals try contradiction
    all_goals
      obtain rfl := Option.some.inj hr
      simp_all

variable {s t : Sending} {j : Nat}

/-- The step of the stream `j` to `w'`, after which its sender is `x`. -/
def Sending.Streamed (env : Env) (o : Outcome) (s : Sending) (j : Nat) (w w' : Worker)
    (x : Option SenderThread) (t : Sending) : Prop :=
  ∃ g, Worker.run env .upload o s.sys.sh.g w = some (g, w') ∧
    t.sys =
      { s.sys with
        sh := { s.sys.sh with g := g }
        phase := { s.sys.phase with workers := s.sys.phase.workers.set j w' } } ∧
    t.senders = Function.update s.senders j x

theorem Sending.advance_streamed {f : Option SenderThread → Option SenderThread}
    (hw : s.sys.phase.workers[j]? = some w) (htc : s.sys.phase.testCase = .upload)
    (h : s.advance env (.worker j o) j f = some t) :
    ∃ w', s.Streamed env o j w w' (f (s.senders j)) t := by
  simp only [advance, IasClient.step, workerStep, hw, Option.bind_some, Option.map_map,
    Option.map_eq_some_iff] at h
  obtain ⟨⟨g, w'⟩, hrun, rfl⟩ := h
  exact ⟨w', g, htc ▸ hrun, rfl, rfl⟩

theorem Worker.run_upload (ho : o.throws = false)
    (hpc : w.pc ≠ .catchHasError ∧ w.pc ≠ .catchRunning)
    (h : Worker.run env .upload o g w = some (g', w')) : Upload.run env o g w = some (g', w') := by
  unfold Worker.run at h
  simp only [ho, Bool.false_eq_true, if_false] at h
  split at h
  · exact absurd ‹_› hpc.1
  · exact absurd ‹_› hpc.2
  · exact h

theorem Worker.run_catch (ho : o.throws = false)
    (hpc : w.pc = .catchHasError ∨ w.pc = .catchRunning)
    (h : Worker.run env k o g w = some (g', w')) : w'.pc.beforeSender = false ∧
      (w.pc = .catchHasError → g'.hasError = true) := by
  rcases hpc with hp | hp <;> simp only [Worker.run, ho, hp, catchException, Worker.goto] at h <;>
    obtain ⟨rfl, rfl⟩ := Prod.mk.inj (Option.some.inj (by simpa using h)) <;>
    simp [WorkerPc.beforeSender, hp]

/-- What a step of the upload stream `j` does: it stops its sender, or it goes on. -/
theorem Sending.uploadStep_joins (hw : s.sys.phase.workers[j]? = some w)
    (htc : s.sys.phase.testCase = .upload)
    (hj : ∀ q, s.senders j = some q → Joins s.sys.sh.g.hasError w.pc q)
    (h : s.uploadStep env j o w = some t) :
    (∃ q, s.senders j = some q ∧ q.m_fStop = false ∧
        Joins s.sys.sh.g.hasError w.pc q.stopThread ∧
        t = { s with senders := Function.update s.senders j (some q.stopThread) }) ∨
      ∃ w' x, s.Streamed env o j w w' x t ∧
        ∀ q, x = some q → Joins t.sys.sh.g.hasError w'.pc q := by
  unfold uploadStep at h
  split at h
  case isTrue ho =>
    right
    obtain ⟨w', hs⟩ := advance_streamed hw htc h
    refine ⟨w', _, hs, fun q hq => ?_⟩
    obtain ⟨g, hrun, -⟩ := hs
    obtain ⟨p, hp, rfl⟩ := Option.map_eq_some_iff.mp hq
    unfold Worker.run at hrun
    simp only [ho, if_true] at hrun
    split at hrun
    · obtain ⟨-, rfl⟩ := Prod.mk.inj (Option.some.inj hrun)
      exact (hj p hp).unwind
    · contradiction
  case isFalse ho =>
    have ho : o.throws = false := by simpa using ho
    -- a step within or behind the scope that keeps the sender
    have keep {w' : Worker} {q : SenderThread} (hs : s.Streamed env o j w w' (s.senders j) t)
        (hq : s.senders j = some q) (hpc : w.pc ≠ .stopSender)
        (hb : w'.pc.beforeSender = false)
        (ha : w'.pc.afterSender = true → w.pc.afterSender = true) :
        Joins t.sys.sh.g.hasError w'.pc q := by
      obtain ⟨g, hrun, hsys, -⟩ := hs
      rw [hsys]
      refine (hj q hq).goto hpc hb ha ?_
      rintro (hc | he)
      · exact (Worker.run_catch ho (.inl hc) hrun).2 hc
      · exact (Worker.run_effect hrun).grows.hasError he
    split at h
    case h_1 hpc =>
      right
      obtain ⟨w', hs⟩ := advance_streamed hw htc h
      refine ⟨w', _, hs, fun q hq => ?_⟩
      obtain ⟨g, hrun, -⟩ := hs
      obtain rfl := Option.some.inj hq
      have hup := Worker.run_upload ho (by simp [hpc]) hrun
      simp only [Upload.run, hpc] at hup
      obtain ⟨-, rfl⟩ := Prod.mk.inj (Option.some.inj hup)
      exact joins_created rfl rfl
    case h_2 hpc =>
      right
      split at h
      case h_1 hout =>
        obtain ⟨w', hs⟩ := advance_streamed hw htc h
        refine ⟨w', _, hs, fun q hq => ?_⟩
        obtain ⟨g, hrun, -⟩ := hs
        obtain ⟨p, hp, rfl⟩ := Option.map_eq_some_iff.mp hq
        have hup := Worker.run_upload ho (by simp [hpc]) hrun
        cases hv : w.vResponse with
        | nil => simp [hv] at hout
        | cons token rest =>
          have hd : Upload.decode env token = .outOfRange := by simpa [hv] using hout
          simp only [Upload.run, hpc, hv, hd, Worker.goto] at hup
          obtain ⟨-, rfl⟩ := Prod.mk.inj (Option.some.inj hup)
          exact (hj p hp).unwind
      case h_2 hout =>
        obtain ⟨w', hs⟩ := advance_streamed hw htc h
        refine ⟨w', _, hs, fun q hq => ?_⟩
        have hrun := hs
        obtain ⟨g, hrun, -⟩ := hrun
        obtain ⟨hb, ha, -⟩ := Upload.run_scope (Worker.run_upload ho (by simp [hpc]) hrun)
          (hj q hq).created
        refine keep hs hq (by simp [hpc]) hb fun hl => ?_
        rcases ha hl with hstop | ⟨-, hrange⟩
        · simp [hpc] at hstop
        · exact absurd hrange hout
    case h_3 hpc =>
      split at h
      case h_1 hnone =>
        right
        obtain ⟨w', hs⟩ := advance_streamed hw htc h
        refine ⟨w', _, hs, fun q hq => ?_⟩
        simp [hnone] at hq
      case h_2 q hsome =>
        have hold := hj q hsome
        split at h
        case isTrue =>
          split at h
          case isTrue hret =>
            right
            obtain ⟨w', hs⟩ := advance_streamed hw htc h
            refine ⟨w', _, hs, fun p hp => ?_⟩
            obtain ⟨g, hrun, hsys, -⟩ := hs
            obtain rfl : q.destroy = p := by simpa [hsome] using hp
            obtain ⟨-, -, hend⟩ := Upload.run_scope (Worker.run_upload ho (by simp [hpc]) hrun)
              hold.created
            rw [hpc] at hold
            rw [hend hpc, hsys]
            exact hold.finish hret (Worker.run_effect hrun).grows.hasError
          case isFalse => contradiction
        case isFalse hrun =>
          left
          rw [hpc] at hold ⊢
          exact ⟨q, hsome, by simpa using hrun, hold.stopThread, (Option.some.inj h).symm⟩
    case h_4 h1 h2 h3 =>
      right
      obtain ⟨w', hs⟩ := advance_streamed hw htc h
      refine ⟨w', _, hs, fun q hq => ?_⟩
      have hrun := hs
      obtain ⟨g, hrun, -⟩ := hrun
      by_cases hc : w.pc = .catchHasError ∨ w.pc = .catchRunning
      · exact keep hs hq h3 (Worker.run_catch ho hc hrun).1 fun _ => by
          rcases hc with hc | hc <;> simp [hc, WorkerPc.afterSender]
      · obtain ⟨hb, ha, -⟩ := Upload.run_scope (Worker.run_upload ho (not_or.mp hc) hrun)
          (hj q hq).created
        refine keep hs hq h3 hb fun hl => ?_
        rcases ha hl with hstop | ⟨hnext, -⟩
        · exact absurd hstop h3
        · exact absurd hnext h2

theorem Sending.Streamed.step {w : Worker} {x : Option SenderThread}
    (hw : s.sys.phase.workers[j]? = some w) (htc : s.sys.phase.testCase = .upload)
    (h : s.Streamed env o j w w' x t) : IasClient.step env (.worker j o) s.sys = some t.sys := by
  obtain ⟨g, hrun, hsys, -⟩ := h
  simp [IasClient.step, workerStep, hw, htc, hrun, hsys]

/-- Once RUNNING is false, a sender takes at most as many steps. -/
def SenderPc.depth : SenderPc → Nat
  | .returned => 0
  | .whileRunning => 1
  | .ifStop => 2
  | .ifResponse => 3
  | .send => 4
  | .ifEnd => 5
  | .whileError => 6

def SenderThread.depth (q : SenderThread) : Nat := q.sender.pc.depth + if q.m_fStop then 0 else 1

theorem CUploadSender.run_descends {P : UInt64} {d : RandomData} {i : SenderInput} {r r' : Sender}
    (hr : i.g.running = false) (h : CUploadSender.run P d i r = some r') :
    r'.pc.depth < r.pc.depth := by
  cases hp : r.pc <;> simp only [CUploadSender.run, hp, hr] at h
  all_goals repeat' (split at h)
  all_goals try contradiction
  all_goals
    obtain rfl := Option.some.inj h
    try split
  all_goals exact Nat.le_of_ble_eq_true rfl

variable {P : UInt64} {d : RandomData} {b : SendingAction}

/-- A step of the measurement with its senders is one of the measurement, or one of a sender or
for it, which brings the sender closer to its end. -/
theorem Sending.step_cases (h : s.step env P d b = some t) :
    (∃ a, b = .sys a ∧ IasClient.step env a s.sys = some t.sys) ∨
      ∃ j q q', s.senders j = some q ∧
        t = { s with senders := Function.update s.senders j (some q') } ∧
        (s.sys.sh.g.running = false → q'.depth < q.depth) := by
  have aside {a : Action} {f : Option SenderThread → Option SenderThread} {j : Nat}
      (h : s.advance env a j f = some t) : IasClient.step env a s.sys = some t.sys := by
    obtain ⟨s', hs', rfl⟩ := Option.map_eq_some_iff.mp h
    exact hs'
  cases b with
  | sender j code =>
    simp only [step, Option.bind_eq_some_iff, Option.map_eq_some_iff] at h
    obtain ⟨q, hq, r, hr, rfl⟩ := h
    exact .inr ⟨j, q, _, hq, rfl, fun hg =>
      Nat.add_lt_add_right (CUploadSender.run_descends hg hr) _⟩
  | sys a =>
    cases a
    case worker j o =>
      simp only [step, Option.bind_eq_some_iff] at h
      obtain ⟨w, -, h⟩ := h
      split at h
      · simp only [uploadStep] at h
        repeat' (split at h)
        all_goals try exact .inl ⟨_, rfl, aside h⟩
        · contradiction
        · rename_i q hq _
          refine .inr ⟨j, q, _, hq, (Option.some.inj h).symm, fun _ => ?_⟩
          simp_all [SenderThread.depth, SenderThread.stopThread]
      · exact .inl ⟨_, rfl, aside h⟩
    all_goals
      simp only [step, Option.map_eq_some_iff] at h
      obtain ⟨s', hs', rfl⟩ := h
      exact .inl ⟨_, rfl, hs'⟩

/-- The senders of the streams, and how a sender can be left behind. -/
structure Sending.Attended (s : Sending) : Prop where
  last : UploadLast s.sys
  upload : ∀ j q, s.senders j = some q → s.sys.phase.testCase = .upload
  joins : ∀ j q, s.senders j = some q → ∃ w, s.sys.phase.workers[j]? = some w ∧
    Joins s.sys.sh.g.hasError w.pc q

/-- The workers stay where they are. -/
structure Phase.Rests (p p' : Phase) : Prop where
  testCase : p'.testCase = p.testCase
  workers : ∀ (j : Nat) (w : Worker), p.workers[j]? = some w →
    ∃ w', p'.workers[j]? = some w' ∧ w'.pc = w.pc

theorem Phase.Rests.refl (p : Phase) : p.Rests p := ⟨rfl, fun _ w hw => ⟨w, hw, rfl⟩⟩

/-- Short of the start of a test case, the main thread leaves the workers where they are. -/
theorem mainStep_rests {s s' : Sys} {created : Bool} (h : mainStep env created s = some s')
    (hs : ∀ k, s.main ≠ .startTestCase k) : s.phase.Rests s'.phase := by
  cases hm : s.main <;> simp only [mainStep, hm] at h
  case startTestCase k => exact absurd hm (hs k)
  case create k =>
    repeat' (split at h)
    all_goals try contradiction
    all_goals obtain rfl := Option.some.inj h
    · refine ⟨rfl, fun j w hw => ⟨w, ?_, rfl⟩⟩
      rw [List.getElem?_append_left (List.getElem?_eq_some_iff.mp hw).1]
      exact hw
    all_goals exact .refl _
  case destroy k i =>
    split at h
    all_goals obtain rfl := Option.some.inj h
    · exact .refl _
    · rename_i v hv
      refine ⟨rfl, fun j w hw => ?_⟩
      by_cases hij : i = j
      · subst hij
        obtain rfl := Option.some.inj (hv.symm.trans hw)
        exact ⟨_, List.getElem?_set_self (List.getElem?_eq_some_iff.mp hv).1, rfl⟩
      · exact ⟨w, (List.getElem?_set_ne hij).trans hw, rfl⟩
  all_goals repeat' (split at h)
  all_goals try contradiction
  all_goals
    obtain rfl := Option.some.inj h
    exact ⟨rfl, fun _ w hw => ⟨w, hw, rfl⟩⟩

/-- In an upload test, only a step of a stream moves a stream. -/
theorem UploadLast.rests {s s' : Sys} {a : Action} (hl : UploadLast s)
    (hu : s.phase.testCase = .upload) (ha : ∀ j o, a ≠ .worker j o)
    (h : IasClient.step env a s = some s') : s.phase.Rests s'.phase := by
  cases a with
  | main created =>
    refine mainStep_rests h fun k hm => ?_
    have hb := hl.bound hu
    have hk := k.number_le
    rw [hm, MainPc.bound] at hb
    omega
  | timer =>
    simp only [IasClient.step, timerStep, Option.map_map, Option.map_eq_some_iff] at h
    obtain ⟨r, -, rfl⟩ := h
    exact ⟨rfl, fun _ w hw => ⟨w, hw, rfl⟩⟩
  | worker j o => exact absurd rfl (ha j o)
  | pastTimer i =>
    simp only [IasClient.step, Option.bind_eq_some_iff, Option.map_eq_some_iff] at h
    obtain ⟨p, -, r, -, rfl⟩ := h
    exact ⟨rfl, fun _ w hw => ⟨w, hw, rfl⟩⟩
  | pastWorker i j o =>
    simp only [IasClient.step, Option.bind_eq_some_iff, Option.map_eq_some_iff] at h
    obtain ⟨p, -, r, -, rfl⟩ := h
    exact ⟨rfl, fun _ w hw => ⟨w, hw, rfl⟩⟩
  | stop =>
    obtain rfl := Option.some.inj h
    exact ⟨rfl, fun _ w hw => ⟨w, hw, rfl⟩⟩
  | clock now =>
    obtain rfl := Option.some.inj h
    exact ⟨rfl, fun _ w hw => ⟨w, hw, rfl⟩⟩

namespace Sending.Attended

theorem start (rtt download upload : Bool) (old : Globals) :
    (Sending.start rtt download upload old).Attended :=
  ⟨UploadLast.start rtt download upload old, by simp [Sending.start], by simp [Sending.start]⟩

/-- One sender is replaced while its stream stays where it is. -/
theorem replace (h : s.Attended) (hw : s.sys.phase.workers[j]? = some w) (hq : s.senders j = some q)
    (hj : Joins s.sys.sh.g.hasError w.pc q') :
    Sending.Attended { s with senders := Function.update s.senders j (some q') } := by
  refine ⟨h.last, fun i p hp => ?_, fun i p hp => ?_⟩
  · exact h.upload j q hq
  · by_cases hij : i = j
    · subst hij
      obtain rfl : q' = p := by simpa using hp
      exact ⟨w, hw, hj⟩
    · exact h.joins i p (by simpa [hij] using hp)

/-- A stream goes on with its sender, the others stay where they are. -/
theorem streamed {x : Option SenderThread} (h : s.Attended)
    (hw : s.sys.phase.workers[j]? = some w) (htc : s.sys.phase.testCase = .upload)
    (hs : s.Streamed env o j w w' x t)
    (hx : ∀ q, x = some q → Joins t.sys.sh.g.hasError w'.pc q) : t.Attended := by
  have hl : UploadLast t.sys := h.last.step (hs.step hw htc)
  obtain ⟨g, hrun, hsys, hsend⟩ := hs
  have hlen := (List.getElem?_eq_some_iff.mp hw).1
  refine ⟨hl, fun i p hp => by rw [hsys]; exact htc, fun i p hp => ?_⟩
  rw [hsend] at hp
  by_cases hij : i = j
  · subst hij
    refine ⟨w', ?_, hx p (by simpa using hp)⟩
    rw [hsys]
    exact List.getElem?_set_self hlen
  · obtain ⟨v, hv, hj⟩ := h.joins i p (by simpa [hij] using hp)
    refine ⟨v, ?_, ?_⟩
    · rw [hsys]
      exact (List.getElem?_set_ne (Ne.symm hij)).trans hv
    · rw [hsys]
      exact hj.mono (Worker.run_effect hrun).grows.hasError

/-- A step that moves no stream. -/
theorem rests {s' : Sys} (h : s.Attended) (hl : UploadLast s')
    (hr : s.sys.phase.testCase = .upload → s.sys.phase.Rests s'.phase)
    (he : s.sys.sh.g.hasError = true → s'.sh.g.hasError = true) :
    Sending.Attended { s with sys := s' } := by
  refine ⟨hl, fun j q hq => ?_, fun j q hq => ?_⟩
  · exact (hr (h.upload j q hq)).testCase.trans (h.upload j q hq)
  · obtain ⟨w, hw, hj⟩ := h.joins j q hq
    obtain ⟨w', hw', hpc⟩ := (hr (h.upload j q hq)).workers j w hw
    exact ⟨w', hw', hpc ▸ hj.mono he⟩

theorem step (h : s.Attended) (hs : s.step env P d b = some t) : t.Attended := by
  cases b with
  | sender j code =>
    simp only [Sending.step, Option.bind_eq_some_iff, Option.map_eq_some_iff] at hs
    obtain ⟨q, hq, r, hr, rfl⟩ := hs
    obtain ⟨w, hw, hj⟩ := h.joins j q hq
    exact h.replace hw hq (hj.send hr)
  | sys a =>
    by_cases ha : ∃ j o, a = .worker j o
    · obtain ⟨j, o, rfl⟩ := ha
      simp only [Sending.step, Option.bind_eq_some_iff] at hs
      obtain ⟨w, hw, hs⟩ := hs
      split at hs
      case isTrue htc =>
        have hj : ∀ q, s.senders j = some q → Joins s.sys.sh.g.hasError w.pc q := fun q hq => by
          obtain ⟨v, hv, hj⟩ := h.joins j q hq
          exact Option.some.inj (hw.symm.trans hv) ▸ hj
        rcases uploadStep_joins hw htc hj hs with ⟨q, hq, -, hj, rfl⟩ | ⟨w', x, hst, hx⟩
        · exact h.replace hw hq hj
        · exact h.streamed hw htc hst hx
      case isFalse htc =>
        obtain ⟨s', hs', rfl⟩ := Option.map_eq_some_iff.mp hs
        rw [id_eq, Function.update_eq_self]
        exact h.rests (h.last.step hs') (fun hu => absurd hu htc)
          (step_acted hs').persists.hasError
    · have ha : ∀ j o, a ≠ .worker j o := by simpa using ha
      have hs : (IasClient.step env a s.sys).map (fun s' => { s with sys := s' }) = some t := by
        cases a
        case worker => exact absurd rfl (ha _ _)
        all_goals exact hs
      obtain ⟨s', hs', rfl⟩ := Option.map_eq_some_iff.mp hs
      exact h.rests (h.last.step hs') (fun hu => h.last.rests hu ha hs')
        (step_acted hs').persists.hasError

theorem run {ok : Sending → SendingAction → Prop} {rtt download upload : Bool} {old : Globals}
    (h : Run (Sending.step env P d) ok (Sending.start rtt download upload old) s) : s.Attended :=
  h.invariant (fun _ _ _ ha _ hs => ha.step hs) (start rtt download upload old)

end Sending.Attended

/-- No `createThread` of the measurement fails. -/
def SendingAction.Created : SendingAction → Prop
  | .sys a => IasClient.Created a
  | .sender .. => True

instance : DecidablePred SendingAction.Created
  | .sys a => inferInstanceAs (Decidable (IasClient.Created a))
  | .sender .. => isTrue trivial

/-- The measurement in a run with the senders is one of a run without them. -/
theorem Sending.run_sys (ok : Sys → Action → Prop) {ok' : Sending → SendingAction → Prop}
    {rtt download upload : Bool} {old : Globals} (hok : ∀ t a, ok' t (.sys a) → ok t.sys a)
    (h : Run (Sending.step env P d) ok' (Sending.start rtt download upload old) s) :
    Run (IasClient.step env) ok (measurementStart rtt download upload old) s.sys := by
  induction h with
  | refl => exact .refl
  | tail hr ha hs ih =>
    rcases step_cases hs with ⟨a, rfl, hstep⟩ | ⟨j, q, q', -, rfl, -⟩
    · exact ih.tail (hok _ _ ha) hstep
    · exact ih

/-- A stream that has returned has ended its sender before, unless an exception has set `hasError`;
and once it has told the sender to stop, the sender sends at most one more packet. So a measurement
that ends without an error leaves no sender running. -/
theorem senders_joined (env : Env) (P : UInt64) (d : RandomData) (rtt download upload : Bool)
    (old : Globals) (h : Run (Sending.step env P d) (fun _ a => a.Created)
      (Sending.start rtt download upload old) s) :
    (∀ j q, s.senders j = some q → ∃ w, s.sys.phase.workers[j]? = some w ∧
      (w.pc = .returned → q.destroyed = true) ∧
      (q.destroyed = true → q.sender.pc = .returned ∨
        q.unwound = true ∧ (w.pc = .catchHasError ∨ s.sys.sh.g.hasError = true)) ∧
      (q.m_fStop = true → q.sender.sends.length ≤ q.sentBefore + 1)) ∧
    (s.sys.main = .finished → s.sys.sh.g.hasError = false →
      ∀ j q, s.senders j = some q → q.sender.pc = .returned) := by
  have ha := Sending.Attended.run h
  have ht : Threads env s.sys :=
    Threads.run (fun _ _ h => h) (Sending.run_sys (fun _ a => Created a) (fun _ _ h => h) h)
  have hcore (j : Nat) (q : SenderThread) (hq : s.senders j = some q) :
      ∃ w, s.sys.phase.workers[j]? = some w ∧ (w.pc = .returned → q.destroyed = true) ∧
      (q.destroyed = true → q.sender.pc = .returned ∨
        q.unwound = true ∧ (w.pc = .catchHasError ∨ s.sys.sh.g.hasError = true)) ∧
      (q.m_fStop = true → q.sender.sends.length ≤ q.sentBefore + 1) := by
    obtain ⟨w, hw, hj⟩ := ha.joins j q hq
    refine ⟨w, hw, fun hr => hj.left (by rw [hr]; rfl), fun hd => ?_, fun hs => ?_⟩
    · rcases hj.joined hd with hu | hr
      · exact .inr ⟨hu, hj.raised hu⟩
      · exact .inl hr
    · rcases hj.stopping hs with heq | ⟨heq, -⟩ <;> omega
  refine ⟨hcore, fun hm he j q hq => ?_⟩
  have hend := ht.joined
  simp only [Joined, hm] at hend
  obtain ⟨w, hw, hleft, hjoined, -⟩ := hcore j q hq
  have hr : w.pc = .returned := hend.2 w (List.mem_of_getElem? hw)
  rcases hjoined (hleft hr) with h | ⟨-, hc | he'⟩
  · exact h
  · rw [hr] at hc
    contradiction
  · rw [he] at he'
    contradiction

/-- The upload of one stream, until its sender is about to send. -/
def uploadUntilSend : List SendingAction :=
  (ipThenRtt ++ List.replicate 5 (Action.main true) ++ List.replicate 6 (Action.worker 0 {})).map
    .sys ++ List.replicate 3 (.sender 0 5)

/-- What is left of it after a stop. -/
def uploadStopped : List SendingAction :=
  List.replicate 4 (.sender 0 5) ++ (List.replicate 3 (Action.worker 0 {}) ++
    List.replicate 3 Action.timer ++ List.replicate 12 (Action.main true)).map .sys

def fourBytes : RandomData := ⟨[0, 1, 2, 3], by decide⟩

set_option maxRecDepth 4000 in
theorem senders_joined_stopped : ∃ (s : Sending) (q : SenderThread), s.sys.main = .finished ∧
    s.senders 0 = some q ∧ q.sender.sends.length = 1 ∧ q.sender.pc = .returned := by
  obtain ⟨s, q, hrun, hm, he, hq, hlen⟩ : ∃ s q,
      Run (Sending.step oneStreamEnv 1 fourBytes) (fun _ a => a.Created)
        (Sending.start false false true Globals.default) s ∧ s.sys.main = .finished ∧
      s.sys.sh.g.hasError = false ∧ s.senders 0 = some q ∧ q.sender.sends.length = 1 :=
    ⟨_, _, run_of_exec (uploadUntilSend ++ [.sys .stop] ++ uploadStopped) rfl, by decide,
      by decide, by rfl, by decide⟩
  exact ⟨s, q, hm, hq, hlen, (senders_joined oneStreamEnv 1 fourBytes false false true
    Globals.default hrun).2 hm he 0 q hq⟩

/-- The steps that are left of the senders of the first `n` streams. -/
def Sending.sends (n : Nat) (s : Sending) : Nat :=
  ∑ j ∈ Finset.range n, ((s.senders j).map SenderThread.depth).getD 0

/-- Lexicographic, as a stream may still create its sender. -/
def Sending.rank (env : Env) (s : Sending) : (ℕ ×ₗ ℕ) ×ₗ ℕ :=
  toLex (s.sys.rank env, s.sends s.sys.phase.workers.length)

/-- The action of a thread. -/
def SendingAction.thread : SendingAction → Bool
  | .sys a => a.thread
  | .sender .. => true

theorem CUploadSender.run_enabled {r : Sender} (i : SenderInput) (h : r.pc ≠ .returned) :
    (CUploadSender.run P d i r).isSome = true := by
  cases hp : r.pc <;> simp only [CUploadSender.run, hp]
  case returned => exact absurd hp h
  all_goals repeat' split
  all_goals rfl

/-- A sender of a stream that is there comes closer to its end. -/
theorem Sending.rank_replace_lt (hj : j < s.sys.phase.workers.length) (hq : s.senders j = some q)
    (hlt : q'.depth < q.depth) :
    Sending.rank env { s with senders := Function.update s.senders j (some q') } < s.rank env := by
  rw [Sending.rank, Sending.rank, Prod.Lex.toLex_lt_toLex]
  refine .inr ⟨rfl, Finset.sum_lt_sum (fun i _ => ?_) ⟨j, Finset.mem_range.mpr hj, ?_⟩⟩
  · by_cases hij : i = j
    · subst hij
      simpa [hq] using hlt.le
    · simp [hij]
  · simpa [hq] using hlt

/-- With RUNNING false every step of a thread lowers the rank. -/
theorem Sending.step_rank_lt (ha : s.Attended) (hr : s.sys.sh.g.running = false)
    (hb : b.thread = true) (h : s.step env P d b = some t) : t.rank env < s.rank env := by
  rcases step_cases h with ⟨a, rfl, hstep⟩ | ⟨j, q, q', hq, rfl, hlt⟩
  · rw [rank, rank, Prod.Lex.toLex_lt_toLex]
    exact .inl (IasClient.step_rank_lt hr hb hstep)
  · obtain ⟨w, hw, -⟩ := ha.joins j q hq
    exact rank_replace_lt (List.getElem?_eq_some_iff.mp hw).1 hq (hlt hr)

/-- The user and the clock leave the rank alone. -/
theorem Sending.step_rank_le (hb : ¬ b.thread = true) (h : s.step env P d b = some t) :
    t.rank env ≤ s.rank env := by
  cases b with
  | sender j code => exact absurd rfl hb
  | sys a =>
    cases a
    case stop =>
      obtain rfl := Option.some.inj h
      exact le_refl _
    case clock now =>
      obtain rfl := Option.some.inj h
      exact le_refl _
    all_goals exact absurd rfl hb

/-- What the end of a measurement with its senders rests on once RUNNING is false. -/
structure Sending.Stopped (s : Sending) : Prop where
  attended : s.Attended
  stopped : IasClient.Stopped s.sys

theorem Sending.Stopped.step (hs : s.Stopped) (h : s.step env P d b = some t) : t.Stopped := by
  refine ⟨hs.attended.step h, ?_⟩
  rcases step_cases h with ⟨a, -, hstep⟩ | ⟨j, q, q', -, rfl, -⟩
  · exact hs.stopped.step hstep
  · exact hs.stopped

/-- A stream that waits for its sender leaves the sender free to move. -/
theorem Sending.uploadStep_enabled (P : UInt64) (d : RandomData)
    (hw : s.sys.phase.workers[j]? = some w) (htc : s.sys.phase.testCase = .upload)
    (h : (IasClient.step env (.worker j o) s.sys).isSome = true) :
    ∃ b : SendingAction, b.thread = true ∧ (s.step env P d b).isSome = true := by
  have hadv (f : Option SenderThread → Option SenderThread) :
      (s.advance env (.worker j o) j f).isSome = true := by simpa [advance] using h
  by_cases hq : ∃ q, s.senders j = some q ∧ q.m_fStop = true ∧ q.sender.pc ≠ .returned
  · obtain ⟨q, hq, -, hpc⟩ := hq
    refine ⟨.sender j 0, rfl, ?_⟩
    simpa [step, hq] using CUploadSender.run_enabled _ hpc
  · refine ⟨.sys (.worker j o), rfl, ?_⟩
    simp only [step, hw, Option.bind_some, htc, if_true, uploadStep]
    repeat' split
    all_goals try exact hadv _
    · rename_i q hsome hstop hret
      exact absurd ⟨q, hsome, hstop, hret⟩ hq
    · rfl

theorem Sending.Stopped.enabled (hs : s.Stopped) (env : Env) (P : UInt64) (d : RandomData) :
    (s.sys.main = .finished ∨ s.sys.Aborted) ∨
      ∃ b : SendingAction, b.thread = true ∧ (s.step env P d b).isSome = true := by
  refine (hs.stopped.manned.enabled hs.stopped.held env).imp_right ?_
  rintro ⟨a, hthread, hstep⟩
  by_cases hu : ∃ j o, a = .worker j o ∧ s.sys.phase.testCase = .upload
  · obtain ⟨j, o, rfl, htc⟩ := hu
    cases hw : s.sys.phase.workers[j]? with
    | none => simp [IasClient.step, workerStep, hw] at hstep
    | some w => exact uploadStep_enabled P d hw htc hstep
  · refine ⟨.sys a, hthread, ?_⟩
    cases a
    case worker j o =>
      have htc : s.sys.phase.testCase ≠ .upload := fun htc => hu ⟨_, _, rfl, htc⟩
      cases hw : s.sys.phase.workers[j]? with
      | none => simp [IasClient.step, workerStep, hw] at hstep
      | some w => simpa [Sending.step, hw, htc, advance] using hstep
    all_goals simpa [Sending.step] using hstep

/-- Once RUNNING is false the threads of the measurement and the senders of its streams take
finitely many more steps; and if they keep moving as long as one of them can, the measurement ends,
whatever its streams wait for. -/
theorem stopped_sending_ends {rtt download upload : Bool} {old : Globals}
    {ok : Sending → SendingAction → Prop} (hfree : old.mutexTimerIndexUploadFirst = none)
    (h : Run (Sending.step env P d) ok (Sending.start rtt download upload old) s)
    (hr : s.sys.sh.g.running = false) (r : Schedule (Sending.step env P d)) (h0 : r.state 0 = s) :
    (∃ N, ∀ n, N ≤ n → ¬ (r.action n).thread = true) ∧
      ((∀ n, (∃ b : SendingAction, b.thread = true ∧
            (Sending.step env P d b (r.state n)).isSome = true) →
          ∃ m, n ≤ m ∧ (r.action m).thread = true) →
        ∃ n, (r.state n).sys.main = .finished ∨ (r.state n).sys.Aborted) := by
  have hrun := Sending.run_sys (fun _ _ => True) (fun _ _ _ => trivial) h
  have hm : Manned s.sys := hrun.invariant (fun _ _ _ hm _ hs => hm.step hs)
    (measurementStart_manned rtt download upload old)
  have hh : Held s.sys := hrun.invariant (fun _ _ _ hh _ hs => hh.step hs)
    (measurementStart_held rtt download upload hfree)
  have hI (n : Nat) : (r.state n).Stopped :=
    r.invariant (fun _ _ _ hI hs => hI.step hs)
      (h0 ▸ ⟨Sending.Attended.run h, hm, hh, hr⟩) n
  have hmove (s : Sending) (b : SendingAction) (t : Sending) (hI : s.Stopped)
      (hb : b.thread = true) (hs : s.step env P d b = some t) : t.rank env < s.rank env :=
    Sending.step_rank_lt hI.attended hI.stopped.running hb hs
  have hidle (s : Sending) (b : SendingAction) (t : Sending) (_ : s.Stopped)
      (hb : ¬ b.thread = true) (hs : s.step env P d b = some t) : t.rank env ≤ s.rank env :=
    Sending.step_rank_le hb hs
  exact ⟨r.eventually_idle hI hmove hidle,
    r.reaches hI hmove hidle fun s hI => hI.enabled env P d⟩

set_option maxRecDepth 4000 in
/-- The sender of an upload stream is about to send when the measurement is stopped. -/
theorem stopped_sending_ends_uploading : ∃ r : Schedule (Sending.step oneStreamEnv 1 fourBytes),
    (∃ q, (r.state 0).senders 0 = some q ∧ q.sender.pc = .send) ∧
      ∃ n, (r.state n).sys.main = .finished ∨ (r.state n).sys.Aborted := by
  obtain ⟨s, t, q, hrun, hr, hq, hpc, hexec, hrest, hend, hrank⟩ : ∃ s t q,
      Run (Sending.step oneStreamEnv 1 fourBytes) (fun _ a => a.Created)
        (Sending.start false false true Globals.default) s ∧ s.sys.sh.g.running = false ∧
      s.senders 0 = some q ∧ q.sender.pc = .send ∧
      exec (Sending.step oneStreamEnv 1 fourBytes) uploadStopped s = some t ∧
      Sending.step oneStreamEnv 1 fourBytes (.sys (.clock 600000)) t = some t ∧
      t.sys.sh.g.running = false ∧ t.rank oneStreamEnv = toLex (toLex (0, 0), 0) :=
    ⟨_, _, _, run_of_exec (uploadUntilSend ++ [.sys .stop]) rfl, by decide, by rfl, by decide, rfl,
      rfl, by decide, rfl⟩
  obtain ⟨r, h0, ha, hn⟩ := Schedule.exists_of_exec hexec hrest
  refine ⟨r, ⟨q, h0 ▸ hq, hpc⟩, (stopped_sending_ends rfl hrun hr r h0).2 ?_⟩
  rintro n ⟨b, hthread, hs⟩
  by_cases hle : uploadStopped.length ≤ n
  · -- nothing is below the rank of the last state
    obtain ⟨u, hu⟩ := Option.isSome_iff_exists.mp hs
    have hatt : (r.state n).Attended :=
      r.invariant (fun _ _ _ h hs => h.step hs) (h0 ▸ Sending.Attended.run hrun) n
    rw [hn n hle] at hatt hu
    have hlt := Sending.step_rank_lt hatt hend hthread hu
    rw [hrank] at hlt
    exact absurd hlt (by simp [Prod.Lex.lt_iff])
  · have hlt : n < uploadStopped.length := by omega
    refine ⟨n, le_refl n, ?_⟩
    rw [ha, List.getElem?_eq_getElem hlt]
    exact (by decide : ∀ b ∈ uploadStopped, b.thread = true) _ (List.getElem_mem hlt)

end IasClient
