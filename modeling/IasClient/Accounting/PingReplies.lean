import IasClient.Model.Libtool
import IasClient.Model.Timer
import IasClient.Accounting.PingQueue

namespace IasClient

open Framework

namespace Ping

theorem mPingQuery_of_within {env : Env} (h0 : 0 ≤ env.readLong "PING_QUERY" 30)
    (h1 : env.readLong "PING_QUERY" 30 < 2147483647) :
    mPingQuery env = env.readLong "PING_QUERY" 30 + 1 := by
  have hread : wrapInt (env.readLong "PING_QUERY" 30) = env.readLong "PING_QUERY" 30 :=
    wrapInt_of_within (by omega) (by omega)
  rw [mPingQuery, hread]
  exact wrapInt_of_within (by omega) (by omega)

/-- A loop that is entered goes one pass beyond the target. -/
theorem mPingQuery_of_pos {env : Env} (hQ : 0 < mPingQuery env) :
    mPingQuery env = nPingTarget env + 1 := by
  have hle : mPingQuery env ≤ 2147483647 := wrapInt_le _
  rw [nPingTarget, wrapInt_of_within (by omega) (by omega)]
  omega

/-- One pass of the loop: the payload sent, the answer to it, and the readings of the clock. -/
structure Pass where
  sbuffer : List UInt8
  time1 : UInt64
  mResponse : Int
  rbuffer : List UInt8
  time2 : UInt64
  time3 : UInt64
  timestampMeasurementStart : Int

namespace Pass

def missing (r : Pass) : Bool := r.mResponse == -1

def mirrored (r : Pass) : Bool := mirroredPayloadVerified r.mResponse r.rbuffer r.sbuffer

def reply (r : Pass) : Bool := !r.missing && r.mirrored

def mismatch (r : Pass) : Bool := !r.missing && !r.mirrored

/-- `mTimeDiff` -/
def timeDiff (r : Pass) : UInt64 := r.time2 - r.time1

/-- The entry of the pass in `results_timestamp`. -/
def timestamp (r : Pass) : UInt64 :=
  r.time3 * 1000 - UInt64.ofInt r.timestampMeasurementStart

end Pass

/-- The passes that count, each with its number: all but the first one. -/
def counted (rs : List Pass) : List (Pass × Nat) := (rs.zipIdx 1).drop 1

def replies (rs : List Pass) : List (Pass × Nat) := (counted rs).filter fun e => e.1.reply

theorem counted_append {rs : List Pass} (h : rs ≠ []) (r : Pass) :
    counted (rs ++ [r]) = counted rs ++ [(r, rs.length + 1)] := by
  have hpos : 0 < rs.length := List.length_pos_iff.mpr h
  rw [counted, List.zipIdx_append, List.drop_append_of_le_length]
  · rw [counted, List.zipIdx_singleton, Nat.add_comm]
  · rw [List.length_zipIdx]
    exact hpos

theorem length_counted (rs : List Pass) : (counted rs).length = rs.length - 1 := by
  rw [counted, List.length_drop, List.length_zipIdx]

theorem mem_counted {rs : List Pass} {e : Pass × Nat} (h : e ∈ counted rs) :
    2 ≤ e.2 ∧ e.2 ≤ rs.length ∧ rs[e.2 - 1]? = some e.1 := by
  obtain ⟨j, hj, he⟩ := List.getElem_of_mem h
  have hlen : j < rs.length - 1 := by rwa [length_counted] at hj
  have hval : e = (rs[j + 1], j + 2) := by
    rw [← he]
    simp only [counted, List.getElem_drop, List.getElem_zipIdx]
    rw [Prod.mk.injEq]
    constructor
    · congr 1
      omega
    · omega
  subst hval
  refine ⟨by simp, by simp only; omega, ?_⟩
  simp only [show j + 2 - 1 = j + 1 by omega]
  exact List.getElem?_eq_getElem _

/-- The counters and maps of a Ping after the passes `rs`. -/
structure Accounted (rs : List Pass) (p : PingData) : Prop where
  i : p.i = rs.length + 1
  firstResponse : p.firstResponse = rs.isEmpty
  nReplies : p.nReplies = (replies rs).length
  nMissing : p.nMissing = ((counted rs).filter fun e => e.1.missing).length
  nErrors : p.nErrors = ((counted rs).filter fun e => e.1.mismatch).length
  results : p.results.entries = (replies rs).map fun e => ((e.2 : Int), e.1.timeDiff)
  resultsTimestamp :
    p.resultsTimestamp.entries = (replies rs).map fun e => ((e.2 : Int), e.1.timestamp)

section Evaluate

variable {time2 time3 : UInt64} {start m : Int} {p : PingData}

theorem evaluate_warmup (hf : p.firstResponse = true) :
    evaluate time2 time3 start m p = { p with firstResponse := false, i := p.i + 1 } := by
  simp only [evaluate, hf, if_true]

theorem evaluate_missing (hf : p.firstResponse = false) (hm : m = -1) :
    evaluate time2 time3 start m p = { p with nMissing := p.nMissing + 1, i := p.i + 1 } := by
  simp only [evaluate, hf, hm, if_true, if_false, Bool.false_eq_true]

theorem evaluate_mismatch (hf : p.firstResponse = false) (hm : m ≠ -1)
    (hv : mirroredPayloadVerified m p.rbuffer p.sbuffer = false) :
    evaluate time2 time3 start m p = { p with nErrors := p.nErrors + 1, i := p.i + 1 } := by
  simp only [evaluate, hf, hm, hv, if_false, Bool.false_eq_true]

/-- A reply under a new number is stored as it is. -/
theorem evaluate_reply (hf : p.firstResponse = false) (hm : m ≠ -1)
    (hv : mirroredPayloadVerified m p.rbuffer p.sbuffer = true)
    (hnone : p.results.find? p.i = none) :
    evaluate time2 time3 start m p =
      { p with
        nReplies := p.nReplies + 1
        results := p.results.insert p.i (time2 - p.time1)
        resultsTimestamp := p.resultsTimestamp.insert p.i (time3 * 1000 - UInt64.ofInt start)
        i := p.i + 1 } := by
  simp only [evaluate, hf, hm, hv, hnone, if_true, if_false, Bool.false_eq_true]

end Evaluate

theorem Accounted.key_lt {rs : List Pass} {p : PingData} (h : Accounted rs p) :
    (∀ e ∈ p.results.entries, e.1 < p.i) ∧ ∀ e ∈ p.resultsTimestamp.entries, e.1 < p.i := by
  have hlt : ∀ e ∈ replies rs, (e.2 : Int) < p.i := by
    intro e he
    have hle := (mem_counted (List.mem_of_mem_filter he)).2.1
    have hi := h.i
    omega
  rw [h.results, h.resultsTimestamp]
  constructor
  · intro e he
    obtain ⟨r, hr, rfl⟩ := List.mem_map.mp he
    exact hlt r hr
  · intro e he
    obtain ⟨r, hr, rfl⟩ := List.mem_map.mp he
    exact hlt r hr

theorem length_filter_counted_append {rs : List Pass} (hrs : rs ≠ []) (r : Pass)
    (f : Pass → Bool) :
    ((counted (rs ++ [r])).filter fun e => f e.1).length =
      ((counted rs).filter fun e => f e.1).length + if f r then 1 else 0 := by
  rw [counted_append hrs, List.filter_append, List.length_append]
  cases hf : f r <;> simp [hf]

theorem replies_append {rs : List Pass} (hrs : rs ≠ []) (r : Pass) :
    replies (rs ++ [r]) = replies rs ++ if r.reply then [(r, rs.length + 1)] else [] := by
  rw [replies, counted_append hrs, List.filter_append, ← replies]
  cases hr : r.reply <;> simp [hr]

/-- What one pass adds: nothing if it is the first, otherwise one to the counter of its outcome,
and its entries if it is a reply. -/
theorem Accounted.evaluate {rs : List Pass} {p : PingData} (h : Accounted rs p) {r : Pass}
    (hs : r.sbuffer = p.sbuffer) (ht : r.time1 = p.time1) (hr : r.rbuffer = p.rbuffer) :
    Accounted (rs ++ [r])
      (evaluate r.time2 r.time3 r.timestampMeasurementStart r.mResponse p) := by
  obtain ⟨hres, hstamp⟩ := h.key_lt
  have hnone := OrdMap.find?_of_forall_lt hres
  have hi : p.i + 1 = ((rs ++ [r]).length : Int) + 1 := by
    have := h.i
    rw [List.length_append, List.length_singleton]
    omega
  have hne : (rs ++ [r]).isEmpty = false := by simp
  by_cases hrs : rs = []
  · subst hrs
    have hf : p.firstResponse = true := h.firstResponse
    rw [evaluate_warmup hf]
    exact ⟨hi, hne.symm, h.nReplies, h.nMissing, h.nErrors, h.results, h.resultsTimestamp⟩
  · have hf : p.firstResponse = false := by
      rw [h.firstResponse, List.isEmpty_eq_false_iff]
      exact hrs
    have hfirst : p.firstResponse = (rs ++ [r]).isEmpty := hf.trans hne.symm
    have hmissing := length_filter_counted_append hrs r Pass.missing
    have hmismatch := length_filter_counted_append hrs r Pass.mismatch
    have hreplies := replies_append hrs r
    by_cases hm : r.mResponse = -1
    · have hmiss : r.missing = true := by rw [Pass.missing, hm, beq_self_eq_true]
      have hrep : r.reply = false := by rw [Pass.reply, hmiss, Bool.not_true, Bool.false_and]
      have hmis : r.mismatch = false := by rw [Pass.mismatch, hmiss, Bool.not_true, Bool.false_and]
      simp only [hmiss, hrep, hmis, if_true, Bool.false_eq_true, if_false, List.append_nil,
        Nat.add_zero] at hmissing hmismatch hreplies
      rw [evaluate_missing hf hm]
      refine ⟨hi, hfirst, ?_, ?_, ?_, ?_, ?_⟩
      · rw [hreplies]
        exact h.nReplies
      · rw [hmissing, Int.natCast_succ, ← h.nMissing]
      · rw [hmismatch]
        exact h.nErrors
      · rw [hreplies]
        exact h.results
      · rw [hreplies]
        exact h.resultsTimestamp
    · have hmiss : r.missing = false := by
        rw [Pass.missing, beq_eq_false_iff_ne]
        exact hm
      have hv : mirroredPayloadVerified r.mResponse p.rbuffer p.sbuffer = r.mirrored := by
        rw [Pass.mirrored, hs, hr]
      have hrep : r.reply = r.mirrored := by rw [Pass.reply, hmiss, Bool.not_false, Bool.true_and]
      have hmis : r.mismatch = !r.mirrored := by
        rw [Pass.mismatch, hmiss, Bool.not_false, Bool.true_and]
      cases hmir : r.mirrored with
      | true =>
        simp only [hmiss, hrep, hmis, hmir, Bool.not_true, if_true, Bool.false_eq_true, if_false,
          Nat.add_zero] at hmissing hmismatch hreplies
        rw [evaluate_reply hf hm (hv.trans hmir) hnone]
        refine ⟨hi, hfirst, ?_, ?_, ?_, ?_, ?_⟩
        · rw [hreplies, List.length_append, List.length_singleton, Int.natCast_succ, ← h.nReplies]
        · rw [hmissing]
          exact h.nMissing
        · rw [hmismatch]
          exact h.nErrors
        · rw [hreplies, List.map_append, ← h.results,
            OrdMap.entries_insert_of_forall_lt hres, h.i, ← ht]
          rfl
        · rw [hreplies, List.map_append, ← h.resultsTimestamp,
            OrdMap.entries_insert_of_forall_lt hstamp, h.i]
          rfl
      | false =>
        simp only [hmiss, hrep, hmis, hmir, Bool.not_false, if_true, Bool.false_eq_true, if_false,
          List.append_nil, Nat.add_zero] at hmissing hmismatch hreplies
        rw [evaluate_mismatch hf hm (hv.trans hmir)]
        refine ⟨hi, hfirst, ?_, ?_, ?_, ?_, ?_⟩
        · rw [hreplies]
          exact h.nReplies
        · rw [hmissing]
          exact h.nMissing
        · rw [hmismatch, Int.natCast_succ, ← h.nErrors]
        · rw [hreplies]
          exact h.results
        · rw [hreplies]
          exact h.resultsTimestamp

/-- The thread together with the passes that it has ended, which no step reads. -/
structure PingRun where
  worker : Worker
  passes : List Pass

/-- The pass that ends with the evaluation at the globals `g`. -/
def passOf (g : Globals) (w : Worker) : Pass :=
  { sbuffer := w.ping.sbuffer
    time1 := w.ping.time1
    mResponse := w.mResponse
    rbuffer := w.ping.rbuffer
    time2 := g.now
    time3 := g.now
    timestampMeasurementStart := g.timestampMeasurementStart }

namespace PingRun

/-- One step of `run`, with the globals that it finds. -/
def step (env : Env) (a : Outcome × Globals) (s : PingRun) : Option PingRun :=
  (run env a.1 a.2 s.worker).map fun r =>
    { worker := r.2
      passes :=
        if s.worker.pc = .evaluate then s.passes ++ [passOf a.2 s.worker] else s.passes }

/-- The thread as it enters `run`. -/
def start (pid : Int) : PingRun := { worker := { pc := .timestamp, pid := pid }, passes := [] }

/-- A step ends a pass, or leaves the passes and all counters and maps as they are. -/
theorem step_cases {env : Env} {a : Outcome × Globals} {s t : PingRun}
    (h : step env a s = some t) :
    (s.worker.pc = .evaluate ∧ t.worker.pc = .pingRunning ∧
        t.passes = s.passes ++ [passOf a.2 s.worker] ∧
        t.worker.ping = evaluate a.2.now a.2.now a.2.timestampMeasurementStart
          s.worker.mResponse s.worker.ping) ∨
      (t.passes = s.passes ∧ ∃ sbuffer rbuffer time1,
        t.worker.ping =
          { s.worker.ping with sbuffer := sbuffer, rbuffer := rbuffer, time1 := time1 }) := by
  simp only [step, Option.map_eq_some_iff] at h
  obtain ⟨r, hr, rfl⟩ := h
  cases hp : s.worker.pc <;> simp only [run, hp, Worker.goto] at hr <;> try contradiction
  case evaluate =>
    simp only [Option.some.injEq] at hr
    subst hr
    exact Or.inl ⟨rfl, rfl, by simp, rfl⟩
  all_goals
    simp only [Option.some.injEq] at hr
    subst hr
    exact Or.inr ⟨by simp, _, _, _, by rfl⟩

theorem run_accounted {env : Env} {ok : PingRun → Outcome × Globals → Prop} {pid : Int}
    {s : PingRun} (h : Run (step env) ok (start pid) s) : Accounted s.passes s.worker.ping := by
  refine Run.invariant (I := fun s => Accounted s.passes s.worker.ping) ?_ ?_ h
  · intro t a u ht _ hstep
    rcases step_cases hstep with ⟨-, -, hpass, hping⟩ | ⟨hpass, sb, rb, t1, hping⟩
    · rw [hpass, hping]
      exact ht.evaluate rfl rfl rfl
    · rw [hpass, hping]
      exact ⟨ht.i, ht.firstResponse, ht.nReplies, ht.nMissing, ht.nErrors, ht.results,
        ht.resultsTimestamp⟩
  · exact ⟨rfl, rfl, rfl, rfl, rfl, rfl, rfl⟩

/-- How many passes have ended at each position while RUNNING is true. -/
def Placed (env : Env) (s : PingRun) : Prop :=
  match s.worker.pc with
  | .pingRunning => (s.passes.length : Int) ≤ nPingTarget env + 1
  | .pingSynced | .sendto | .recvfrom | .evaluate => (s.passes.length : Int) ≤ nPingTarget env
  | .setStopped => (s.passes.length : Int) = nPingTarget env + 1
  | .returned => s.passes = [] ∨ (s.passes.length : Int) = nPingTarget env + 1
  | _ => s.passes = []

theorem step_placed {env : Env} {a : Outcome × Globals} {s t : PingRun}
    (hQ : 0 < mPingQuery env) (ha : a.2.running = true) (hacc : Accounted s.passes s.worker.ping)
    (hs : Placed env s) (h : step env a s = some t) : Placed env t := by
  have hi := hacc.i
  have hquery := mPingQuery_of_pos hQ
  simp only [step, Option.map_eq_some_iff] at h
  obtain ⟨r, hr, rfl⟩ := h
  cases hp : s.worker.pc <;> simp only [run, hp, Worker.goto] at hr <;> try contradiction
  all_goals
    simp only [Option.some.injEq] at hr
    subst hr
    simp only [Placed, hp] at hs
  case pingRunning =>
    simp only [Placed, ha, true_and, reduceCtorEq, if_false, hquery]
    by_cases hle : s.worker.ping.i ≤ nPingTarget env + 1
    · have hlen : (s.passes.length : Int) ≤ nPingTarget env := by omega
      rw [if_pos hle]
      cases s.worker.dataReceived
      · exact hlen
      · exact hlen
    · rw [if_neg hle]
      show (s.passes.length : Int) = nPingTarget env + 1
      omega
  case evaluate =>
    show ((s.passes ++ [passOf a.2 s.worker]).length : Int) ≤ nPingTarget env + 1
    rw [List.length_append, List.length_singleton]
    omega
  case resolve =>
    simp only [reduceCtorEq, if_false, hs]
    cases a.1.ok <;> rfl
  case udpSocket =>
    simp only [reduceCtorEq, if_false, hs]
    cases a.1.ok
    · exact Or.inl rfl
    · show (([] : List Pass).length : Int) ≤ nPingTarget env + 1
      rw [List.length_nil]
      omega
  case setHasError => exact Or.inl hs
  case setStopped => exact Or.inr hs
  all_goals exact hs

/-- What the passes ended so far have left in the counters and maps of the thread. -/
structure Balanced (env : Env) (s : PingRun) : Prop where
  bound : (s.passes.length : Int) ≤ nPingTarget env + 1
  total : s.worker.ping.nReplies + s.worker.ping.nMissing + s.worker.ping.nErrors =
    s.passes.length - 1
  count : (s.worker.ping.results.keys.length : Int) = s.worker.ping.nReplies
  keys : ∀ k ∈ s.worker.ping.results.keys, 2 ≤ k ∧ k ≤ s.passes.length
  same : s.worker.ping.resultsTimestamp.keys = s.worker.ping.results.keys
  single : ∀ k v, s.worker.ping.results.find? k = some v →
    ∃ r, s.passes[k.toNat - 1]? = some r ∧ v = r.timeDiff

def Ended (s : PingRun) : Prop :=
  s.worker.pc = .setStopped ∨ s.worker.pc = .returned ∧ s.passes ≠ []

end PingRun

theorem length_outcomes (l : List (Pass × Nat)) :
    (l.filter fun e => e.1.reply).length + (l.filter fun e => e.1.missing).length +
      (l.filter fun e => e.1.mismatch).length = l.length := by
  induction l with
  | nil => rfl
  | cons e l ih =>
    rw [List.length_cons, ← ih]
    cases hm : e.1.missing <;> cases hv : e.1.mirrored <;>
      simp only [List.filter_cons, Pass.reply, Pass.mismatch, hm, hv, Bool.not_true,
        Bool.not_false, Bool.and_true, Bool.and_false, if_true, Bool.false_eq_true, if_false,
        List.length_cons] <;> omega

theorem Accounted.keys_results {rs : List Pass} {p : PingData} (h : Accounted rs p) :
    p.results.keys = (replies rs).map fun e => (e.2 : Int) := by
  rw [OrdMap.keys, h.results, List.map_map]
  rfl

theorem Accounted.keys_resultsTimestamp {rs : List Pass} {p : PingData} (h : Accounted rs p) :
    p.resultsTimestamp.keys = (replies rs).map fun e => (e.2 : Int) := by
  rw [OrdMap.keys, h.resultsTimestamp, List.map_map]
  rfl

/-- The counters add up to the passes without the first. -/
theorem Accounted.total {rs : List Pass} {p : PingData} (h : Accounted rs p) (hrs : rs ≠ []) :
    p.nReplies + p.nMissing + p.nErrors = rs.length - 1 := by
  have hpos : 0 < rs.length := List.length_pos_iff.mpr hrs
  have hsum := length_outcomes (counted rs)
  rw [length_counted] at hsum
  have hreplies := h.nReplies
  have hmissing := h.nMissing
  have herrors := h.nErrors
  rw [replies] at hreplies
  omega

theorem Accounted.single {rs : List Pass} {p : PingData} (h : Accounted rs p) {k : Int}
    {v : UInt64} (hv : p.results.find? k = some v) :
    ∃ r, rs[k.toNat - 1]? = some r ∧ v = r.timeDiff := by
  have hmem := OrdMap.mem_of_find? hv
  rw [h.results] at hmem
  obtain ⟨e, he, heq⟩ := List.mem_map.mp hmem
  obtain ⟨hk, hval⟩ := Prod.mk.injEq _ _ _ _ ▸ heq
  obtain ⟨-, -, hget⟩ := mem_counted (List.mem_of_mem_filter he)
  refine ⟨e.1, ?_, hval.symm⟩
  rw [← hk, Int.toNat_natCast]
  exact hget

namespace PingRun

theorem run_placed {env : Env} {pid : Int} {s : PingRun} (hQ : 0 < mPingQuery env)
    (h : Run (step env) (fun _ a => a.2.running = true) (start pid) s) : Placed env s := by
  refine Run.invariant_of (J := fun s => Accounted s.passes s.worker.ping)
    (fun t => run_accounted) ?_ (by rfl) h
  intro t a u ht _ hI ha hstep
  exact step_placed hQ ha ht hI hstep

theorem run_balanced {env : Env} {pid : Int} {s : PingRun} (hQ : 0 < mPingQuery env)
    (h : Run (step env) (fun _ a => a.2.running = true) (start pid) s) (hs : s.passes ≠ []) :
    Balanced env s := by
  have hacc := run_accounted h
  refine ⟨?_, hacc.total hs, ?_, ?_, ?_, fun k v hv => hacc.single hv⟩
  · have hplaced := run_placed hQ h
    cases hp : s.worker.pc <;> simp only [Placed, hp] at hplaced
    all_goals first
      | contradiction
      | omega
      | exact (hplaced.resolve_left hs).le
  · rw [hacc.keys_results, List.length_map]
    exact hacc.nReplies.symm
  · intro k hk
    rw [hacc.keys_results] at hk
    obtain ⟨e, he, rfl⟩ := List.mem_map.mp hk
    obtain ⟨h2, hle, -⟩ := mem_counted (List.mem_of_mem_filter he)
    omega
  · rw [hacc.keys_resultsTimestamp, hacc.keys_results]

theorem run_ended {env : Env} {pid : Int} {s : PingRun} (hQ : 0 < mPingQuery env)
    (h : Run (step env) (fun _ a => a.2.running = true) (start pid) s) (hs : s.Ended) :
    (s.passes.length : Int) = nPingTarget env + 1 := by
  have hplaced := run_placed hQ h
  rcases hs with hp | ⟨hp, hne⟩
  · simpa only [Placed, hp] using hplaced
  · simp only [Placed, hp] at hplaced
    exact hplaced.resolve_left hne

end PingRun

/-- A read of a counter, but for the last one, goes on to the next with what it has read. -/
theorem callback_read {env : Env} {sender : TestCase} {w : Worker} {ws : List Worker} {c : Call}
    {r r' : CounterRead} (hr : r.next = some r') (sh : Shared) (t : Timer) :
    CCallback.callback env sender (w :: ws) c (.rttCounters r) sh t =
      some (sh, { t with
        walk := { t.walk with counters := r.read w.ping t.walk.counters }
        pc := .callback c (.rttCounters r') }) := by
  simp only [CCallback.callback, List.getElem?_cons_zero, hr]

/-- The last read publishes what has been read. -/
theorem callback_lastRead (env : Env) (sender : TestCase) (w : Worker) (ws : List Worker)
    (c : Call) (sh : Shared) (t : Timer) :
    CCallback.callback env sender (w :: ws) c (.rttCounters .errors) sh t =
      some ({ sh with cb := { sh.cb with
        jMeasurementResultsRttUdp := some (rttUdpInfo env
          (CounterRead.errors.read w.ping t.walk.counters) t.walk.pingResults
          t.walk.pingTimestamps) } }, { t with pc := .callback c c.stored }) :=
  rfl

/-- What the six reads find of counters that do not move meanwhile. -/
def Counters.of (p : PingData) : RttCounters :=
  { requests := p.nReplies + p.nMissing + p.nErrors
    replies := p.nReplies
    missing := p.nMissing
    errors := p.nErrors }

/-- Six reads of the same counters, one after the other, publish them and their sum. -/
theorem reads_publish {env : Env} {sender : TestCase} {p : PingData} {w : CounterRead → Worker}
    {ws : List Worker} {c : Call} {sh sh' : CounterRead → Shared} {t t' : CounterRead → Timer}
    (hw : ∀ r, (w r).ping = p)
    (hcall : ∀ r, CCallback.callback env sender (w r :: ws) c (.rttCounters r) (sh r) (t r) =
      some (sh' r, t' r))
    (hnext : ∀ r r' : CounterRead, r.next = some r' → (t r').walk = (t' r).walk) :
    ∃ results timestamps, (sh' .errors).cb.jMeasurementResultsRttUdp =
      some (rttUdpInfo env (Counters.of p) results timestamps) := by
  have hstep : ∀ r r' : CounterRead, r.next = some r' →
      (t r').walk.counters = r.read p (t r).walk.counters := by
    intro r r' hr
    have hr' := hcall r
    rw [callback_read hr, Option.some.injEq, Prod.mk.injEq] at hr'
    rw [hnext r r' hr, ← hr'.2, hw r]
  have hlast := hcall .errors
  rw [callback_lastRead, Option.some.injEq, Prod.mk.injEq, hw, hstep .missing .errors rfl,
    hstep .replies .missing rfl, hstep .requestsErrors .replies rfl,
    hstep .requestsMissing .requestsErrors rfl,
    hstep .requestsReplies .requestsMissing rfl] at hlast
  exact ⟨_, _, by rw [← hlast.1]; rfl⟩

/-- After each pass the counters add up to the passes that count and the maps have the entries of
the replies; after the last one the section published has PING_QUERY pings sent. The `int` members
hold the query, and the loop counter goes up to two beyond it. -/
theorem ping_accounting {env : Env} {pid : Int} {s : PingRun}
    (hQ : 0 ≤ env.readLong "PING_QUERY" 30) (hint : env.readLong "PING_QUERY" 30 + 2 ≤ 2147483647)
    (h : Run (PingRun.step env) (fun _ a => a.2.running = true) (PingRun.start pid) s) :
    (s.passes ≠ [] → s.Balanced env) ∧
      (s.Ended → ∀ (sender : TestCase) (w : CounterRead → Worker) (ws : List Worker) (c : Call)
          (sh sh' : CounterRead → Shared) (t t' : CounterRead → Timer),
        (∀ r, (w r).ping = s.worker.ping) →
        (∀ r, CCallback.callback env sender (w r :: ws) c (.rttCounters r) (sh r) (t r) =
          some (sh' r, t' r)) →
        (∀ r r' : CounterRead, r.next = some r' → (t r').walk = (t' r).walk) →
          ∃ info, (sh' .errors).cb.jMeasurementResultsRttUdp = some info ∧
            info.numSent = env.readLong "PING_QUERY" 30 ∧
            env.readLong "PING_QUERY" 30 = nPingTarget env ∧
            info.numSent = info.numReceived + info.numMissing + info.numError) := by
  have hquery := mPingQuery_of_within hQ (by omega)
  have hpos : 0 < mPingQuery env := by omega
  have htarget := mPingQuery_of_pos hpos
  refine ⟨PingRun.run_balanced hpos h, ?_⟩
  intro hend sender w ws c sh sh' t t' hw hcall hnext
  have hlen := PingRun.run_ended hpos h hend
  have hne : s.passes ≠ [] := by
    intro hnil
    rw [hnil, List.length_nil] at hlen
    omega
  have htotal := (PingRun.run_accounted h).total hne
  obtain ⟨results, timestamps, hinfo⟩ := reads_publish hw hcall hnext
  refine ⟨_, hinfo, ?_, by omega, rfl⟩
  show s.worker.ping.nReplies + s.worker.ping.nMissing + s.worker.ping.nErrors = _
  omega

/-- A measurement of one ping, after the one that does not count. -/
def oneQuery : Env :=
  { Env.default with readLong := fun key value => if key = "PING_QUERY" then 1 else value }

/-- The thread up to the end of its loop, one second after the start of the measurement: the echo
of each ping takes `delay` microseconds. -/
def onePing (delay : UInt64) : List (Outcome × Globals) :=
  let g : Globals :=
    { Globals.default with timestampMeasurementStart := 1000000000, now := 2000000 }
  let payload := List.replicate ECHO 7
  let pass : List (Outcome × Globals) :=
    [({ bytes := payload }, g), ({ code := 64, bytes := payload }, g),
      ({}, { g with now := g.now + delay }), ({}, g)]
  List.replicate 7 (({} : Outcome), g) ++ pass ++ pass

/-- The shared state before a message. -/
def idle : Shared := { g := Globals.default, cb := { mTestCase := .rttUdp }, log := [] }

/-- The timer before each of its reads of the counters of `p`. -/
def reader (p : PingData) (r : CounterRead) : Timer :=
  { pc := .callback .finish (.rttCounters r)
    mInstances := 1
    walk :=
      { counters :=
          match r with
          | .requestsReplies => {}
          | .requestsMissing => { requests := p.nReplies }
          | .requestsErrors => { requests := p.nReplies + p.nMissing }
          | .replies => { requests := p.nReplies + p.nMissing + p.nErrors }
          | .missing =>
            { requests := p.nReplies + p.nMissing + p.nErrors
              replies := p.nReplies }
          | .errors =>
            { requests := p.nReplies + p.nMissing + p.nErrors
              replies := p.nReplies
              missing := p.nMissing } } }

/-- The six reads of a worker that does not move. -/
theorem reader_reads (env : Env) (w : Worker) :
    ∃ (sh' : CounterRead → Shared) (t' : CounterRead → Timer),
      (∀ r, CCallback.callback env .rttUdp [w] .finish (.rttCounters r) idle (reader w.ping r) =
        some (sh' r, t' r)) ∧
      (∀ r r' : CounterRead, r.next = some r' → (reader w.ping r').walk = (t' r).walk) ∧
      (sh' .errors).cb.jMeasurementResultsRttUdp =
        some (rttUdpInfo env (Counters.of w.ping) .empty .empty) := by
  have hex : ∀ r, ∃ x : Shared × Timer,
      CCallback.callback env .rttUdp [w] .finish (.rttCounters r) idle (reader w.ping r) =
        some x := by
    intro r
    cases r <;> exact ⟨_, rfl⟩
  choose x hx using hex
  refine ⟨fun r => (x r).1, fun r => (x r).2, hx, ?_, ?_⟩
  · intro r r' hr
    have hstep := hx r
    rw [callback_read hr, Option.some.injEq] at hstep
    simp only [← hstep]
    cases r <;> cases hr <;> rfl
  · have hlast := hx .errors
    rw [callback_lastRead, Option.some.injEq] at hlast
    simp only [← hlast]
    rfl

theorem ping_accounting_oneReply :
    ∃ (s : PingRun) (sh' : CounterRead → Shared) (t' : CounterRead → Timer),
      s.Ended ∧ s.worker.ping.nReplies = 1 ∧ (s.passes ≠ [] → s.Balanced oneQuery) ∧
      (∀ r, CCallback.callback oneQuery .rttUdp [s.worker] .finish (.rttCounters r) idle
        (reader s.worker.ping r) = some (sh' r, t' r)) ∧
      ∃ info, (sh' .errors).cb.jMeasurementResultsRttUdp = some info ∧ info.numSent = 1 := by
  have hrun : ∃ s, Run (PingRun.step oneQuery) (fun _ a => a.2.running = true)
      (PingRun.start 0) s ∧ s.worker.pc = .setStopped ∧ s.worker.ping.nReplies = 1 :=
    ⟨_, run_of_exec (onePing 1) rfl, by rfl, by decide⟩
  obtain ⟨s, h, hpc, hone⟩ := hrun
  obtain ⟨sh', t', hcall, hnext, -⟩ := reader_reads oneQuery s.worker
  obtain ⟨hbal, hpub⟩ := ping_accounting (by decide) (by decide) h
  obtain ⟨info, hinfo, hsent, -⟩ := hpub (Or.inl hpc) .rttUdp (fun _ => s.worker) [] .finish
    (fun _ => idle) sh' (reader s.worker.ping) t' (fun _ => rfl) hcall hnext
  exact ⟨s, sh', t', Or.inl hpc, hone, hbal, hcall, info, hinfo, hsent⟩

/-- A number of pings beyond an `int`, of which the member holds 1. -/
def cutQuery : Env :=
  { Env.default with
    readLong := fun key value => if key = "PING_QUERY" then 4294967297 else value }

/-- The loop ends after the first ping that counts, and one ping is published as sent. -/
theorem cutQuery_not_sent :
    ∃ (s : PingRun) (sh' : CounterRead → Shared) (t' : CounterRead → Timer),
      Run (PingRun.step cutQuery) (fun _ a => a.2.running = true) (PingRun.start 0) s ∧ s.Ended ∧
      (∀ r, CCallback.callback cutQuery .rttUdp [s.worker] .finish (.rttCounters r) idle
        (reader s.worker.ping r) = some (sh' r, t' r)) ∧
      (∀ r r' : CounterRead, r.next = some r' →
        (reader s.worker.ping r').walk = (t' r).walk) ∧
      cutQuery.readLong "PING_QUERY" 30 = 4294967297 ∧
      ∃ info, (sh' .errors).cb.jMeasurementResultsRttUdp = some info ∧ info.numSent = 1 := by
  have hrun : ∃ s, Run (PingRun.step cutQuery) (fun _ a => a.2.running = true)
      (PingRun.start 0) s ∧ s.worker.pc = .setStopped ∧ (Counters.of s.worker.ping).requests = 1 :=
    ⟨_, run_of_exec (onePing 1) rfl, by rfl, by decide⟩
  obtain ⟨s, h, hpc, hone⟩ := hrun
  obtain ⟨sh', t', hcall, hnext, hinfo⟩ := reader_reads cutQuery s.worker
  exact ⟨s, sh', t', h, Or.inl hpc, hcall, hnext, rfl, _, hinfo, hone⟩

/-- The array `rtts` with each value beside the time stamp of its own reply. -/
def paired (results timestamps : OrdMap Int UInt64) : List (UInt64 × UInt64) :=
  results.entries.map fun e => (e.2 * 1000, timestamps.get e.1)

section Numbering

variable {ν : Type} {m : OrdMap Int ν}

theorem number_lt_key (h : ∀ e ∈ m.entries, 2 ≤ e.1) (j : Nat) (hj : j < m.entries.length) :
    (j : Int) + 2 ≤ m.entries[j].1 := by
  induction j with
  | zero =>
    have := h _ (List.getElem_mem hj)
    omega
  | succ j ih =>
    have hprev := ih (by omega)
    have hlt := List.pairwise_iff_getElem.mp m.sorted j (j + 1) (by omega) hj (by omega)
    omega

/-- Reading a map by the numbers of its entries gives their values only if all of them are zero:
the first entry is looked up under a key that does not exist, and each later one under such a key
or under the key of an earlier entry. -/
theorem get_number_eq_iff [Zero ν] (h : ∀ e ∈ m.entries, 2 ≤ e.1) :
    (∀ j (hj : j < m.entries.length), m.get ((j : Int) + 1) = m.entries[j].2) ↔
      ∀ e ∈ m.entries, e.2 = 0 := by
  constructor
  · intro hall
    have hzero : ∀ j (hj : j < m.entries.length), m.entries[j].2 = 0 := by
      intro j
      induction j using Nat.strong_induction_on with
      | _ j ih =>
        intro hj
        rw [← hall j hj]
        cases hf : m.find? ((j : Int) + 1) with
        | none => exact OrdMap.get_of_find?_none hf
        | some v =>
          obtain ⟨l, hl, heq⟩ := List.getElem_of_mem (OrdMap.mem_of_find? hf)
          have hkey := number_lt_key h l hl
          rw [heq] at hkey
          have hv := ih l (by simp only at hkey; omega) hl
          rw [heq] at hv
          rw [OrdMap.get, hf]
          exact hv
    intro e he
    obtain ⟨j, hj, rfl⟩ := List.getElem_of_mem he
    exact hzero j hj
  · intro hzero j hj
    rw [hzero _ (List.getElem_mem hj), OrdMap.get]
    cases hf : m.find? ((j : Int) + 1) with
    | none => rfl
    | some v => exact hzero _ (OrdMap.mem_of_find? hf)

end Numbering

theorem Accounted.two_le_key {rs : List Pass} {p : PingData} (h : Accounted rs p) :
    ∀ e ∈ p.resultsTimestamp.entries, 2 ≤ e.1 := by
  intro e he
  rw [h.resultsTimestamp] at he
  obtain ⟨r, hr, rfl⟩ := List.mem_map.mp he
  have h2 := (mem_counted (List.mem_of_mem_filter hr)).1
  simp only
  omega

theorem Accounted.rtts_eq_paired_iff {rs : List Pass} {p : PingData} (h : Accounted rs p) :
    rtts p.results.values p.resultsTimestamp = paired p.results p.resultsTimestamp ↔
      ∀ e ∈ p.resultsTimestamp.entries, e.2 = 0 := by
  have hlen : p.resultsTimestamp.entries.length = p.results.entries.length := by
    rw [h.results, h.resultsTimestamp, List.length_map, List.length_map]
  have hget : ∀ j (hj : j < p.results.entries.length),
      p.resultsTimestamp.get p.results.entries[j].1 =
        (p.resultsTimestamp.entries.get ⟨j, hlen ▸ hj⟩).2 := by
    intro j hj
    rw [List.get_eq_getElem]
    have hj' : j < p.resultsTimestamp.entries.length := hlen ▸ hj
    have hkey : p.results.entries[j].1 = p.resultsTimestamp.entries[j].1 := by
      simp only [h.results, h.resultsTimestamp, List.getElem_map]
    rw [hkey, OrdMap.get, OrdMap.find?,
      OrdMap.findList_of_mem p.resultsTimestamp.sorted (List.getElem_mem _)]
    rfl
  rw [← get_number_eq_iff h.two_le_key, List.ext_getElem_iff]
  simp only [rtts, paired, OrdMap.values, List.length_map, List.length_zipIdx, true_and,
    List.getElem_map, List.getElem_zipIdx, Prod.mk.injEq, zero_add]
  constructor
  · intro hall j hj
    rw [hall j (hlen ▸ hj) (hlen ▸ hj)]
    exact hget j (hlen ▸ hj)
  · intro hall j hj _
    rw [hget j hj]
    exact hall j (hlen ▸ hj)

/-- The array published after a snapshot pairs each reply with its own time stamp exactly when all
replies of the snapshot carry the time stamp zero, as when there is none. -/
theorem rtts_paired_iff {env : Env} (hcalc : ∀ m, env.interimValues m = m.values) {pid : Int}
    {s : PingRun} (h : Run (PingRun.step env) (fun _ _ => True) (PingRun.start pid) s)
    {sender : TestCase} {w : Worker} {ws ws' : List Worker} {c : Call} {sh sh₁ sh' sh₂ : Shared}
    {t t₁ t' t₂ : Timer}
    (hsnapshot : CCallback.callback env sender (s.worker :: ws) c .rttResults sh t = some (sh₁, t₁))
    (hwalk : t'.walk = { t₁.walk with counters := t'.walk.counters })
    (hpublish : CCallback.callback env sender (w :: ws') c (.rttCounters .errors) sh' t' =
      some (sh₂, t₂)) :
    ∃ info, sh₂.cb.jMeasurementResultsRttUdp = some info ∧
      (info.rtts = paired s.worker.ping.results s.worker.ping.resultsTimestamp ↔
        ∀ e ∈ replies s.passes, e.1.timestamp = 0) := by
  have hacc := PingRun.run_accounted h
  simp only [CCallback.callback, List.getElem?_cons_zero, Option.some.injEq, Prod.mk.injEq]
    at hsnapshot
  rw [callback_lastRead, Option.some.injEq, Prod.mk.injEq] at hpublish
  obtain ⟨-, rfl⟩ := hsnapshot
  obtain ⟨rfl, -⟩ := hpublish
  refine ⟨_, rfl, ?_⟩
  rw [hwalk]
  simp only [rttUdpInfo, hcalc]
  rw [hacc.rtts_eq_paired_iff, hacc.resultsTimestamp]
  simp only [List.mem_map, forall_exists_index, and_imp, forall_apply_eq_imp_iff₂]

theorem rtts_paired_iff_oneReply :
    ∃ (s : PingRun) (sh : Shared) (info : RttUdpInfo), s.worker.ping.nReplies = 1 ∧
      sh.cb.jMeasurementResultsRttUdp = some info ∧
      (info.rtts = paired s.worker.ping.results s.worker.ping.resultsTimestamp ↔
        ∀ e ∈ replies s.passes, e.1.timestamp = 0) := by
  have hrun : ∃ s, Run (PingRun.step oneQuery) (fun _ _ => True) (PingRun.start 0) s ∧
      s.worker.ping.nReplies = 1 :=
    ⟨_, run_of_exec (onePing 1) rfl, by decide⟩
  obtain ⟨s, h, hone⟩ := hrun
  obtain ⟨sh₁, t₁, hsnapshot⟩ : ∃ sh₁ t₁, CCallback.callback oneQuery .rttUdp [s.worker] .finish
      .rttResults idle { pc := .returned, mInstances := 1 } = some (sh₁, t₁) := ⟨_, _, rfl⟩
  obtain ⟨sh₂, t₂, hpublish⟩ : ∃ sh₂ t₂, CCallback.callback oneQuery .rttUdp [s.worker] .finish
      (.rttCounters .errors) idle t₁ = some (sh₂, t₂) := ⟨_, _, callback_lastRead ..⟩
  obtain ⟨info, hinfo, hiff⟩ := rtts_paired_iff (fun _ => by rfl) h hsnapshot rfl hpublish
  exact ⟨s, sh₂, info, hone, hinfo, hiff⟩

/-- The only reply, stored under number 2 a second after the start of the measurement, is
published with the time stamp that number 1 does not have. -/
theorem firstReply_unpaired :
    ∃ s, Run (PingRun.step oneQuery) (fun _ _ => True) (PingRun.start 0) s ∧
      s.worker.ping.results.entries = [(2, 10)] ∧
      s.worker.ping.resultsTimestamp.entries = [(2, 1000010000)] ∧
      (∀ m, oneQuery.interimValues m = m.values) ∧
      (rttUdpInfo oneQuery (Counters.of s.worker.ping) s.worker.ping.results
        s.worker.ping.resultsTimestamp).rtts = [(10000, 0)] ∧
      paired s.worker.ping.results s.worker.ping.resultsTimestamp = [(10000, 1000010000)] :=
  ⟨_, run_of_exec (onePing 10) rfl, by decide, by decide, fun _ => rfl, by decide, by decide⟩

/-- The receive buffer, zeroed before `recvfrom` writes the datagram to its front. -/
def received (d : List UInt8) : List UInt8 := d ++ List.replicate (ECHO - d.length) 0

theorem mirrored_received_iff {d payload : List UInt8} (h : d.length ≤ payload.length) :
    mirroredPayloadVerified d.length (received d) payload = true ↔ d <+: payload := by
  rw [mirroredPayloadVerified, Int.toNat_natCast, List.all_eq_true, List.prefix_iff_getElem]
  have hget : ∀ j (hj : j < d.length),
      ((received d).getD j 0 == payload.getD j 0) = true ↔
        d[j] = payload.get ⟨j, Nat.lt_of_lt_of_le hj h⟩ := by
    intro j hj
    rw [List.get_eq_getElem, received, List.getD_append _ _ _ _ hj, List.getD_eq_getElem _ _ hj,
      List.getD_eq_getElem _ _ (Nat.lt_of_lt_of_le hj h), beq_iff_eq]
  constructor
  · intro hall
    exact ⟨h, fun j hj => (hget j hj).mp (hall j (List.mem_range.mpr hj))⟩
  · rintro ⟨_, hall⟩ j hj
    exact (hget j (List.mem_range.mp hj)).mpr (hall j (List.mem_range.mp hj))

/-- A pass from `p` to `q` counts a reply and stores its result. -/
def Replied (p q : PingData) : Prop :=
  q.nReplies = p.nReplies + 1 ∧ (q.results.find? p.i).isSome = true ∧
    (q.resultsTimestamp.find? p.i).isSome = true

/-- A pass from `p` to `q` counts an error and stores nothing. -/
def Failed (p q : PingData) : Prop :=
  q.nErrors = p.nErrors + 1 ∧ q.nReplies = p.nReplies ∧ q.results = p.results ∧
    q.resultsTimestamp = p.resultsTimestamp

theorem Failed.not_replied {p q : PingData} (h : Failed p q) : ¬ Replied p q := by
  intro hr
  have h1 := h.2.1
  have h2 := hr.1
  omega

theorem evaluate_replied {time2 time3 : UInt64} {start m : Int} {p : PingData}
    (hf : p.firstResponse = false) (hm : m ≠ -1)
    (hv : mirroredPayloadVerified m p.rbuffer p.sbuffer = true) :
    Replied p (evaluate time2 time3 start m p) := by
  obtain ⟨hres, hcount⟩ := @evaluate_counted time2 time3 start m p hf hm hv
  refine ⟨hcount, hres, ?_⟩
  simp only [evaluate, hf, hm, hv, if_true, if_false, Bool.false_eq_true]
  rw [OrdMap.find?_insert_self]
  rfl

/-- A pass that counts meets "a reply is a full mirror of the payload" exactly when the datagram
is not a proper prefix of the payload. -/
theorem only_mirror_counts_iff {env : Env} {payload d : List UInt8} {o₁ o₂ o₃ : Outcome}
    {g₁ g₂ g₃ g₁' g₂' g₃' : Globals} {w w₁ w₂ w₃ : Worker} (hpayload : payload.length = ECHO)
    (hd : d.length ≤ ECHO) (hpc : w.pc = .sendto) (hf : w.ping.firstResponse = false)
    (hsent : o₁.bytes = payload) (hcode : o₂.code = d.length) (hbytes : o₂.bytes = received d)
    (h₁ : run env o₁ g₁ w = some (g₁', w₁)) (h₂ : run env o₂ g₂ w₁ = some (g₂', w₂))
    (h₃ : run env o₃ g₃ w₂ = some (g₃', w₃)) :
    ((Replied w.ping w₃.ping ↔ d = payload) ∧ (d ≠ payload → Failed w.ping w₃.ping)) ↔
      ¬ (d <+: payload ∧ d ≠ payload) := by
  simp only [run, hpc, Option.some.injEq, Prod.mk.injEq] at h₁
  obtain ⟨-, rfl⟩ := h₁
  simp only [run, Option.some.injEq, Prod.mk.injEq] at h₂
  obtain ⟨-, rfl⟩ := h₂
  simp only [run, Option.some.injEq, Prod.mk.injEq] at h₃
  obtain ⟨-, rfl⟩ := h₃
  simp only [hsent, hcode, hbytes]
  have hm : (d.length : Int) ≠ -1 := by omega
  have hmirrored := mirrored_received_iff (hd.trans_eq hpayload.symm)
  by_cases hp : d <+: payload
  · have hreplied : Replied { w.ping with
          sbuffer := payload
          time1 := g₁.now
          rbuffer := received d }
        (evaluate g₃.now g₃.now g₃.timestampMeasurementStart d.length
          { w.ping with sbuffer := payload, time1 := g₁.now, rbuffer := received d }) :=
      evaluate_replied hf hm (hmirrored.mpr hp)
    constructor
    · rintro ⟨hiff, -⟩ ⟨-, hne⟩
      exact hne (hiff.mp hreplied)
    · intro hproper
      have heq : d = payload := by
        by_contra hne
        exact hproper ⟨hp, hne⟩
      exact ⟨⟨fun _ => heq, fun _ => hreplied⟩, fun hne => absurd heq hne⟩
  · have hv : mirroredPayloadVerified d.length (received d) payload = false := by
      rw [← Bool.not_eq_true, hmirrored]
      exact hp
    have hfailed : Failed w.ping (evaluate g₃.now g₃.now g₃.timestampMeasurementStart d.length
        { w.ping with sbuffer := payload, time1 := g₁.now, rbuffer := received d }) := by
      rw [evaluate_mismatch
        (p := { w.ping with sbuffer := payload, time1 := g₁.now, rbuffer := received d }) hf hm hv]
      exact ⟨rfl, rfl, rfl, rfl⟩
    have hne : d ≠ payload := fun heq => hp (heq ▸ List.prefix_rfl)
    constructor
    · exact fun _ hproper => hp hproper.1
    · exact fun _ => ⟨⟨fun hr => absurd hr hfailed.not_replied, fun heq => absurd heq hne⟩,
        fun _ => hfailed⟩

/-- A thread before its second ping. -/
def secondPing : Worker :=
  { pc := .sendto, pid := 0, ping := { i := 2, firstResponse := false } }

theorem only_mirror_counts_iff_mirror : ∃ w₁ w₂ w₃,
    run oneQuery { bytes := List.replicate ECHO 7 } Globals.default secondPing =
        some (Globals.default, w₁) ∧
      run oneQuery { code := 64, bytes := List.replicate ECHO 7 } Globals.default w₁ =
        some (Globals.default, w₂) ∧
      run oneQuery {} Globals.default w₂ = some (Globals.default, w₃) ∧
      Replied secondPing.ping w₃.ping := by
  obtain ⟨w₁, w₂, w₃, h₁, h₂, h₃⟩ : ∃ w₁ w₂ w₃,
      run oneQuery { bytes := List.replicate ECHO 7 } Globals.default secondPing =
          some (Globals.default, w₁) ∧
        run oneQuery { code := 64, bytes := List.replicate ECHO 7 } Globals.default w₁ =
          some (Globals.default, w₂) ∧
        run oneQuery {} Globals.default w₂ = some (Globals.default, w₃) :=
    ⟨_, _, _, rfl, rfl, rfl⟩
  have hiff := only_mirror_counts_iff (d := List.replicate ECHO 7) List.length_replicate
    (by decide) (by rfl) (by rfl) (by rfl) (by decide) (by decide) h₁ h₂ h₃
  exact ⟨w₁, w₂, w₃, h₁, h₂, h₃, (hiff.mpr fun h => h.2 rfl).1.mpr rfl⟩

/-- An empty datagram counts as a reply. -/
theorem emptyDatagram_counts : ∃ w₁ w₂ w₃,
    run oneQuery { bytes := List.replicate ECHO 7 } Globals.default secondPing =
        some (Globals.default, w₁) ∧
      run oneQuery { code := 0, bytes := received [] } Globals.default w₁ =
        some (Globals.default, w₂) ∧
      run oneQuery {} Globals.default w₂ = some (Globals.default, w₃) ∧
      Replied secondPing.ping w₃.ping ∧ ¬ Failed secondPing.ping w₃.ping :=
  ⟨_, _, _, rfl, rfl, rfl, ⟨by decide, by decide, by decide⟩, fun h => absurd h.1 (by decide)⟩

end Ping

end IasClient
