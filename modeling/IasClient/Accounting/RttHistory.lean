import IasClient.Framework.Climb
import IasClient.Accounting.PingReplies
import IasClient.Control.Completion

namespace IasClient

open Framework

namespace Ping

/-- Later passes add replies with larger numbers. -/
theorem replies_extend (rs ts : List Pass) :
    ∃ rest, replies (rs ++ ts) = replies rs ++ rest ∧ ∀ e ∈ rest, rs.length < e.2 := by
  cases rs with
  | nil =>
    refine ⟨replies ts, rfl, fun e he => ?_⟩
    have := (mem_counted (List.mem_of_mem_filter he)).1
    simp only [List.length_nil]
    omega
  | cons r rs =>
    refine ⟨(ts.zipIdx (1 + (r :: rs).length)).filter fun e => e.1.reply, ?_, fun e he => ?_⟩
    · rw [replies, replies, counted, counted, List.zipIdx_append, List.drop_append_of_le_length,
        List.filter_append]
      simp
    · have := List.le_snd_of_mem_zipIdx (List.mem_of_mem_filter he)
      omega

theorem replies_grow {rs rs' : List Pass} (h : rs <+: rs') : replies rs <+: replies rs' := by
  obtain ⟨ts, rfl⟩ := h
  obtain ⟨rest, hrest, -⟩ := replies_extend rs ts
  exact ⟨rest, hrest.symm⟩

/-- The maps of a Ping after the passes `rs`. -/
structure Shot (rs : List Pass) (results timestamps : OrdMap Int UInt64) : Prop where
  results : results.entries = (replies rs).map fun e => ((e.2 : Int), e.1.timeDiff)
  timestamps : timestamps.entries = (replies rs).map fun e => ((e.2 : Int), e.1.timestamp)

section Shot

variable {rs rs' : List Pass} {results results' timestamps timestamps' : OrdMap Int UInt64}

/-- Up to the number of passes the time stamps are settled. -/
theorem Shot.get_eq (h : Shot rs results timestamps) (h' : Shot rs' results' timestamps')
    (hp : rs <+: rs') {k : Int} (hk : k ≤ rs.length) : timestamps'.get k = timestamps.get k := by
  obtain ⟨ts, rfl⟩ := hp
  obtain ⟨rest, hrest, hlt⟩ := replies_extend rs ts
  have hfind : timestamps'.find? k = timestamps.find? k := by
    ext v
    rw [← OrdMap.mem_entries_iff (e := (k, v)), ← OrdMap.mem_entries_iff (e := (k, v)),
      h.timestamps, h'.timestamps, hrest, List.map_append, List.mem_append]
    refine or_iff_left fun hmem => ?_
    obtain ⟨e, he, heq⟩ := List.mem_map.mp hmem
    have := hlt e he
    have := congrArg Prod.fst heq
    simp only at this
    omega
  rw [OrdMap.get, OrdMap.get, hfind]

/-- The array published after some passes is the beginning of the one published after more. -/
theorem Shot.rtts_prefix (h : Shot rs results timestamps) (h' : Shot rs' results' timestamps')
    (hp : rs <+: rs') : rtts results.values timestamps <+: rtts results'.values timestamps' := by
  have hpre := replies_grow hp
  have hlen : results.entries.length = (replies rs).length := by rw [h.results, List.length_map]
  have hlen' : results'.entries.length = (replies rs').length := by rw [h'.results, List.length_map]
  rw [List.prefix_iff_getElem]
  simp only [rtts, OrdMap.values, List.length_map, List.length_zipIdx, List.getElem_map,
    List.getElem_zipIdx, Prod.mk.injEq, hlen, hlen']
  refine ⟨hpre.length_le, fun j hj => ⟨?_, ?_⟩⟩
  · simp only [h.results, h'.results, List.getElem_map, hpre.getElem hj]
  · have hcount : (replies rs).length ≤ (counted rs).length := List.length_filter_le ..
    rw [length_counted] at hcount
    exact (h.get_eq h' hp (by omega)).symm

end Shot

/-- What the counters are after the passes `rs`. -/
def tally (rs : List Pass) : RttCounters :=
  { requests := (counted rs).length
    replies := (replies rs).length
    missing := ((counted rs).filter fun e => e.1.missing).length
    errors := ((counted rs).filter fun e => e.1.mismatch).length }

theorem tally_requests (rs : List Pass) :
    (tally rs).requests = (tally rs).replies + (tally rs).missing + (tally rs).errors := by
  have hsum := length_outcomes (counted rs)
  simp only [tally, replies]
  omega

/-- None of the counters of `a` is above that of `b`. -/
structure AtMost (a b : RttCounters) : Prop where
  replies : a.replies ≤ b.replies
  missing : a.missing ≤ b.missing
  errors : a.errors ≤ b.errors

/-- What the reads before `r` have found of counters that went from `b` to `c` meanwhile. -/
def Within (b c n : RttCounters) : CounterRead → Prop
  | .requestsReplies => True
  | .requestsMissing => b.replies ≤ n.requests ∧ n.requests ≤ c.replies
  | .requestsErrors =>
    b.replies + b.missing ≤ n.requests ∧ n.requests ≤ c.replies + c.missing
  | .replies =>
    b.replies + b.missing + b.errors ≤ n.requests ∧ n.requests ≤ c.replies + c.missing + c.errors
  | .missing =>
    b.replies + b.missing + b.errors ≤ n.requests ∧ n.requests ≤ n.replies + c.missing + c.errors ∧
      b.replies ≤ n.replies ∧ n.replies ≤ c.replies
  | .errors =>
    b.replies + b.missing + b.errors ≤ n.requests ∧ n.requests ≤ n.replies + n.missing + c.errors ∧
      b.replies ≤ n.replies ∧ n.replies ≤ c.replies ∧ b.missing ≤ n.missing ∧ n.missing ≤ c.missing

/-- What all six reads have found of counters that went from `b` to `c` meanwhile. -/
structure Between (b c n : RttCounters) : Prop where
  lower : AtMost b n
  upper : AtMost n c
  sent : b.replies + b.missing + b.errors ≤ n.requests
  sum : n.requests ≤ n.replies + n.missing + n.errors

section Within

variable {b c c' n : RttCounters} {r r' : CounterRead} {p : PingData}

/-- The counters go on. -/
theorem Within.mono (h : Within b c n r) (hc : AtMost c c') : Within b c' n r := by
  obtain ⟨h1, h2, h3⟩ := hc
  cases r <;> simp only [Within] at h ⊢ <;> omega

/-- A read finds the counter as it is. -/
theorem Within.read (h : Within b (Counters.of p) n r) (hb : AtMost b (Counters.of p))
    (hr : r.next = some r') : Within b (Counters.of p) (r.read p n) r' := by
  obtain ⟨h1, h2, h3⟩ := hb
  cases r <;> cases hr <;> simp only [Within, CounterRead.read, Counters.of] at h h1 h2 h3 ⊢ <;>
    omega

theorem Within.readLast (h : Within b (Counters.of p) n .errors) (hb : AtMost b (Counters.of p)) :
    Between b (Counters.of p) (CounterRead.errors.read p n) := by
  obtain ⟨h1, h2, h3⟩ := hb
  simp only [Within, Counters.of] at h h1 h2 h3
  refine ⟨⟨?_, ?_, ?_⟩, ⟨?_, ?_, ?_⟩, ?_, ?_⟩ <;>
    simp only [CounterRead.read, Counters.of] <;> omega

end Within

/-- The section published from the maps after the passes `shot`, while the counters went from those
of the passes `bs` to those of `es`. -/
structure Published (shot bs es : List Pass) (r : RttUdpInfo) : Prop where
  order : shot <+: bs
  rtts : ∃ results timestamps, Shot shot results timestamps ∧
    r.rtts = IasClient.rtts results.values timestamps
  counters : ∃ n, Between (tally bs) (tally es) n ∧ r.numSent = n.requests ∧
    r.numReceived = n.replies ∧ r.numMissing = n.missing ∧ r.numError = n.errors

theorem Accounted.counters {rs : List Pass} {p : PingData} (h : Accounted rs p) :
    Counters.of p = tally rs := by
  have hsum := length_outcomes (counted rs)
  have h1 := h.nReplies
  have h2 := h.nMissing
  have h3 := h.nErrors
  simp only [Counters.of, tally, RttCounters.mk.injEq]
  rw [replies] at h1 ⊢
  omega

theorem Accounted.shot {rs : List Pass} {p : PingData} (h : Accounted rs p) :
    Shot rs p.results p.resultsTimestamp := ⟨h.results, h.resultsTimestamp⟩

theorem counted_grow {rs rs' : List Pass} (h : rs <+: rs') : counted rs <+: counted rs' := by
  obtain ⟨ts, rfl⟩ := h
  rw [counted, counted, List.zipIdx_append]
  exact (List.prefix_append ..).drop 1

theorem tally_mono {rs rs' : List Pass} (h : rs <+: rs') : AtMost (tally rs) (tally rs') := by
  have hrec := (replies_grow h).length_le
  have hmis := ((counted_grow h).filter fun e => e.1.missing).length_le
  have herr := ((counted_grow h).filter fun e => e.1.mismatch).length_le
  exact ⟨Int.ofNat_le.mpr hrec, Int.ofNat_le.mpr hmis, Int.ofNat_le.mpr herr⟩

/-- The positions in the body of the loop. -/
def inLoop : WorkerPc → Bool
  | .pingSynced | .sendto | .recvfrom | .evaluate => true
  | _ => false

/-- The thread has ended the passes `rs`. -/
structure Passed (env : Env) (rs : List Pass) (w : Worker) : Prop where
  accounted : Accounted rs w.ping
  query : inLoop w.pc = true → w.ping.i ≤ mPingQuery env
  bound : (rs.length : Int) ≤ max 0 (mPingQuery env)

theorem run_inLoop {env : Env} {o : Outcome} {g g' : Globals} {w w' : Worker}
    (h : run env o g w = some (g', w')) (hl : inLoop w'.pc = true) :
    w'.ping.i = w.ping.i ∧ (inLoop w.pc = true ∨ w.ping.i ≤ mPingQuery env) := by
  cases hp : w.pc <;> simp only [run, hp, Worker.goto] at h
  all_goals repeat' (split at h)
  all_goals try contradiction
  all_goals
    obtain ⟨rfl, rfl⟩ := Prod.mk.inj (Option.some.inj h)
    simp_all [inLoop]

/-- A step of the thread ends at most one pass more. -/
theorem Passed.step {env : Env} {rs : List Pass} {o : Outcome} {g g' : Globals} {w w' : Worker}
    (hw : Passed env rs w) (h : Worker.run env .rttUdp o g w = some (g', w')) :
    ∃ rs', rs <+: rs' ∧ Passed env rs' w' := by
  rcases Worker.run_cases h with ⟨-, -, rfl⟩ | h | ⟨-, h⟩
  · exact ⟨rs, List.prefix_refl rs, hw.accounted, by simp [inLoop], hw.bound⟩
  · refine ⟨rs, List.prefix_refl rs, ?_⟩
    cases hp : w.pc <;> simp only [catchException, hp, Worker.goto] at h
    all_goals try contradiction
    all_goals
      obtain ⟨-, rfl⟩ := Prod.mk.inj (Option.some.inj h)
      exact ⟨hw.accounted, by simp [inLoop], hw.bound⟩
  · have hstep : PingRun.step env (o, g) ⟨w, rs⟩ = some
        ⟨w', if w.pc = .evaluate then rs ++ [passOf g w] else rs⟩ := by
      simp only [PingRun.step]
      rw [show run env o g w = some (g', w') from h]
      rfl
    have hi := hw.accounted.i
    rcases PingRun.step_cases hstep with ⟨hpc, hpc', hpass, hping⟩ | ⟨hpass, sb, rb, t1, hping⟩
    · have hq := hw.query (by simp only at hpc; simp [hpc, inLoop])
      refine ⟨rs ++ [passOf g w], List.prefix_append .., ?_, ?_, ?_⟩
      · rw [show w'.ping = _ from hping]
        exact hw.accounted.evaluate rfl rfl rfl
      · rw [show w'.pc = _ from hpc']
        simp [inLoop]
      · simp only [List.length_append, List.length_singleton]
        omega
    · refine ⟨rs, List.prefix_refl rs, ?_, fun hl => ?_, hw.bound⟩
      · obtain ⟨h1, h2, h3, h4, h5, h6, h7⟩ := hw.accounted
        rw [show w'.ping = _ from hping]
        exact ⟨h1, h2, h3, h4, h5, h6, h7⟩
      · obtain ⟨heq, hle⟩ := run_inLoop h hl
        rw [heq]
        exact hle.elim hw.query id

end Ping

open Ping (Pass Shot Within Between Published Passed tally tally_mono)

variable {env : Env} {k : TestCase} {s s' : Sys} {a : Action} {sh sh' : Shared} {t t' : Timer}
variable {objects : List Worker}

/-- What a later section says of the same pings. -/
structure RttUdpInfo.Extends (later earlier : RttUdpInfo) : Prop where
  rtts : earlier.rtts <+: later.rtts
  numSent : earlier.numSent ≤ later.numSent
  numReceived : earlier.numReceived ≤ later.numReceived
  numError : earlier.numError ≤ later.numError
  numMissing : earlier.numMissing ≤ later.numMissing

/-- Passes that were read after the earlier section was published. -/
theorem Ping.Published.extends {rs bs es rs' bs' es' : List Pass} {r r' : RttUdpInfo}
    (h : Published rs bs es r) (h' : Published rs' bs' es' r') (hrs : rs <+: rs')
    (hes : es <+: bs') : r'.Extends r := by
  obtain ⟨h1, h2, h3⟩ := tally_mono hes
  obtain ⟨n, hn, hs, hr, hm, he⟩ := h.counters
  obtain ⟨n', hn', hs', hr', hm', he'⟩ := h'.counters
  obtain ⟨u1, u2, u3⟩ := hn.upper
  obtain ⟨l1, l2, l3⟩ := hn'.lower
  have hsum := hn.sum
  have hsent := hn'.sent
  obtain ⟨m, t, hshot, hrtts⟩ := h.rtts
  obtain ⟨m', t', hshot', hrtts'⟩ := h'.rtts
  refine ⟨?_, ?_, ?_, ?_, ?_⟩
  · rw [hrtts, hrtts']
    exact hshot.rtts_prefix hshot' hrs
  all_goals omega

/-- What one section says. The pings sent are counted before the replies, the missing replies and
the errors are, and there may be more of these by then. -/
structure RttUdpInfo.Sound (env : Env) (r : RttUdpInfo) : Prop where
  numSent : r.numSent ≤ r.numReceived + r.numMissing + r.numError
  nonneg : 0 ≤ r.numReceived ∧ 0 ≤ r.numMissing ∧ 0 ≤ r.numError
  target : r.numReceived + r.numMissing + r.numError ≤ max 0 (Ping.nPingTarget env)
  rtts : (r.rtts.length : Int) ≤ r.numReceived ∧ (r.rtts.length : Int) ≤ r.numSent

theorem Ping.Published.sound {rs bs es : List Pass} {r : RttUdpInfo} (h : Published rs bs es r)
    (hle : (es.length : Int) ≤ max 0 (Ping.mPingQuery env)) : r.Sound env := by
  obtain ⟨n, hn, hs, hr, hm, he⟩ := h.counters
  obtain ⟨u1, u2, u3⟩ := hn.upper
  obtain ⟨l1, l2, l3⟩ := hn.lower
  have hsum := hn.sum
  have hsent := hn.sent
  have hall := tally_requests es
  have hlen := length_counted es
  have htarget : (tally es).requests ≤ max 0 (Ping.nPingTarget env) := by
    simp only [tally, hlen]
    by_cases hQ : 0 < Ping.mPingQuery env
    · have hquery := mPingQuery_of_pos hQ
      omega
    · omega
  have hnonneg : 0 ≤ (tally bs).replies ∧ 0 ≤ (tally bs).missing ∧ 0 ≤ (tally bs).errors :=
    ⟨Int.natCast_nonneg _, Int.natCast_nonneg _, Int.natCast_nonneg _⟩
  obtain ⟨results, timestamps, hshot, hrtts⟩ := h.rtts
  have hpre : (r.rtts.length : Int) ≤ (tally bs).replies := by
    rw [hrtts]
    simp only [IasClient.rtts, OrdMap.values, List.length_map, List.length_zipIdx, hshot.results]
    exact Int.ofNat_le.mpr (replies_grow h.order).length_le
  exact ⟨by omega, ⟨by omega, by omega, by omega⟩, by omega, by omega, by omega⟩

/-- A section is followed by one that extends it. -/
def Later (a b : Option RttUdpInfo) : Prop :=
  ∀ r, a = some r → ∃ r', b = some r' ∧ r'.Extends r

instance : IsPreorder (Option RttUdpInfo) Later where
  refl a r h := ⟨r, h, List.prefix_refl _, le_refl _, le_refl _, le_refl _, le_refl _⟩
  trans a b c hab hbc r h := by
    obtain ⟨r', hb, h'⟩ := hab r h
    obtain ⟨r'', hc, h''⟩ := hbc r' hb
    exact ⟨r'', hc, h'.rtts.trans h''.rtts, h'.numSent.trans h''.numSent,
      h'.numReceived.trans h''.numReceived, h'.numError.trans h''.numError,
      h'.numMissing.trans h''.numMissing⟩

/-- The `rtt_udp_info` of the messages to the platform. -/
def rttInfos (log : List Event) : List (Option RttUdpInfo) :=
  log.filterMap fun e => match e with
    | .startTestCase _ => none
    | .platform _ m => some m.rttUdpInfo

/-- The read of a counter that the timer is about to make. -/
def TimerPc.counterRead : TimerPc → Option CounterRead
  | .callback _ (.rttCounters r) => some r
  | _ => none

/-- What a step of the timer of the test case `k` does to the section, to the copies of the maps and
to the counters read. -/
inductive Timer.RttEffect (env : Env) (k : TestCase) (objects : List Worker) (t t' : Timer)
    (info info' : Option RttUdpInfo) : Prop
  | keep (hinfo : info' = info) (hread : t'.pc.counterRead = none)
      (hwalk : k ≠ .rttUdp ∨ t'.walk.pingResults = t.walk.pingResults ∧
        t'.walk.pingTimestamps = t.walk.pingTimestamps)
  | copy (hinfo : info' = info) (hread : t'.pc.counterRead = some .requestsReplies)
      (hwalk : t'.walk = t.walk ∨ ∃ w, objects[0]? = some w ∧
        t'.walk.pingResults = w.ping.results ∧ t'.walk.pingTimestamps = w.ping.resultsTimestamp)
  | read {r r' : CounterRead} {w : Worker} (hinfo : info' = info) (hw : objects[0]? = some w)
      (hr : t.pc.counterRead = some r) (hnext : r.next = some r')
      (hread : t'.pc.counterRead = some r')
      (hwalk : t'.walk = { t.walk with counters := r.read w.ping t.walk.counters })
  | publish {w : Worker} (hk : k = .rttUdp) (hw : objects[0]? = some w)
      (hr : t.pc.counterRead = some .errors) (hread : t'.pc.counterRead = none)
      (hwalk : t'.walk = t.walk)
      (hinfo : info' = some (rttUdpInfo env (CounterRead.errors.read w.ping t.walk.counters)
        t.walk.pingResults t.walk.pingTimestamps))

theorem CounterRead.eq_errors_of_next {r : CounterRead} (h : r.next = none) : r = .errors := by
  cases r <;> first | rfl | contradiction

theorem CTimer.run_rtt (hw : t.Wf k) (h : CTimer.run env k objects sh t = some (sh', t')) :
    t.RttEffect env k objects t' sh.cb.jMeasurementResultsRttUdp
      sh'.cb.jMeasurementResultsRttUdp := by
  cases hp : t.pc <;> simp only [CTimer.run, hp, Timer.goto] at h
  case callback c p =>
    have hin := (hw.called c p hp).2
    have hstored : (TimerPc.callback c c.stored).counterRead = none := by cases c <;> rfl
    cases p <;> simp only [CCallback.callback, Timer.goto] at h
    case rttResults =>
      split at h <;> obtain ⟨rfl, rfl⟩ := Prod.mk.inj (Option.some.inj h)
      · exact .copy rfl rfl (.inl rfl)
      · exact .copy rfl rfl (.inr ⟨_, ‹_›, rfl, rfl⟩)
    case rttCounters r =>
      have hr : t.pc.counterRead = some r := by rw [hp]; rfl
      split at h
      · obtain ⟨rfl, rfl⟩ := Prod.mk.inj (Option.some.inj h)
        exact .keep rfl hstored (.inr ⟨rfl, rfl⟩)
      · split at h <;> obtain ⟨rfl, rfl⟩ := Prod.mk.inj (Option.some.inj h)
        · exact .read rfl ‹_› hr ‹_› rfl rfl
        · obtain rfl := CounterRead.eq_errors_of_next ‹_›
          exact .publish (by simp_all [CallbackPc.within]) ‹_› hr hstored rfl rfl
    case steps =>
      obtain ⟨rfl, rfl⟩ := Prod.mk.inj (Option.some.inj h)
      refine .keep rfl rfl (.inl ?_)
      rintro rfl
      simp [CallbackPc.within] at hin
    all_goals repeat' (split at h)
    all_goals obtain ⟨rfl, rfl⟩ := Prod.mk.inj (Option.some.inj h)
    all_goals try with_reducible exact .keep rfl rfl (.inr ⟨rfl, rfl⟩)
    all_goals try with_reducible exact .keep rfl hstored (.inr ⟨rfl, rfl⟩)
    case h_2 => exact .keep rfl (congrArg TimerPc.counterRead hp) (.inr ⟨rfl, rfl⟩)
    -- the end of a call, and `publish`
    all_goals first
      | exact .keep rfl (by cases c <;> rfl) (.inr (by cases c <;> exact ⟨rfl, rfl⟩))
      | exact .keep (by simp only [publishResults]; split <;> rfl) hstored (.inr ⟨rfl, rfl⟩)
  all_goals repeat' (split at h)
  all_goals try contradiction
  all_goals
    obtain ⟨rfl, rfl⟩ := Prod.mk.inj (Option.some.inj h)
    exact .keep rfl rfl (.inr ⟨rfl, rfl⟩)

/-- Only the timer of the rtt test writes the section. -/
theorem Timer.RttEffect.info_eq {info info' : Option RttUdpInfo}
    (h : t.RttEffect env k objects t' info info') (hk : k ≠ .rttUdp) : info' = info := by
  cases h with
  | keep hinfo | copy hinfo | read hinfo => exact hinfo
  | publish hk' => exact absurd hk' hk

theorem CTimer.run_infos (h : CTimer.run env k objects sh t = some (sh', t')) :
    rttInfos sh'.log = rttInfos sh.log ∨
      rttInfos sh'.log = rttInfos sh.log ++ [sh.cb.jMeasurementResultsRttUdp] ∧
        sh'.cb = sh.cb := by
  cases CTimer.run_effect h
  case emitted => exact .inr ⟨by simp [rttInfos, callbackToPlatform, message], rfl⟩
  case completed => exact .inr ⟨by simp [rttInfos, callbackToPlatform, message], rfl⟩
  all_goals exact .inl rfl

/-- The rtt test after the passes `current` of its thread; the timer copied the maps after the
passes `shot`, and began to read the counters after the passes `begun`. -/
structure Pinging (env : Env) (shot begun current : List Pass) (s : Sys) : Prop where
  order : shot <+: begun
  reading : begun <+: current
  workers : ∀ w ∈ s.phase.workers, Passed env current w
  idle : s.phase.workers = [] → current = []
  walk : Shot shot s.phase.timer.walk.pingResults s.phase.timer.walk.pingTimestamps
  reads : ∀ r, s.phase.timer.pc.counterRead = some r →
    Within (tally begun) (tally current) s.phase.timer.walk.counters r
  published : ∀ r, s.sh.cb.jMeasurementResultsRttUdp = some r → ∃ rs bs es,
    Published rs bs es r ∧ rs <+: shot ∧ es <+: current ∧
      (s.phase.timer.pc.counterRead ≠ none → es <+: begun)

/-- The section of the rtt test over a whole measurement. -/
structure RttKept (env : Env) (s : Sys) : Prop where
  started : s.sh.cb.jMeasurementResultsRttUdp ≠ none ∨ s.phase.testCase = .rttUdp →
    .rttUdp ∈ starts s.sh.log
  pinging : s.phase.testCase = .rttUdp → ∃ shot begun current, Pinging env shot begun current s
  sound : ∀ r, s.sh.cb.jMeasurementResultsRttUdp = some r → r.Sound env
  told : ∀ r, some r ∈ rttInfos s.sh.log → r.Sound env
  climbs : Climbs Later (rttInfos s.sh.log) s.sh.cb.jMeasurementResultsRttUdp

theorem Pinging.bound {shot begun current : List Pass} (hp : Pinging env shot begun current s) :
    (current.length : Int) ≤ max 0 (Ping.mPingQuery env) := by
  cases hw : s.phase.workers with
  | nil =>
    rw [hp.idle hw]
    exact Int.le_max_left ..
  | cons w ws => exact (hp.workers w (hw ▸ List.mem_cons_self)).bound

/-- A step that neither the timer nor a thread of the rtt test takes. -/
theorem Pinging.congr {shot begun current : List Pass} (hp : Pinging env shot begun current s)
    (hworkers : s'.phase.workers = s.phase.workers) (htimer : s'.phase.timer = s.phase.timer)
    (hinfo : s'.sh.cb.jMeasurementResultsRttUdp = s.sh.cb.jMeasurementResultsRttUdp) :
    Pinging env shot begun current s' where
  order := hp.order
  reading := hp.reading
  workers := hworkers ▸ hp.workers
  idle := hworkers ▸ hp.idle
  walk := htimer ▸ hp.walk
  reads := htimer ▸ hp.reads
  published := htimer ▸ hinfo ▸ hp.published

/-- A step of the timer in the rtt test. -/
theorem Pinging.step_timer {shot begun current : List Pass} (hp : Pinging env shot begun current s)
    (hcalc : ∀ m, env.interimValues m = m.values) (hw : s.phase.timer.Wf .rttUdp)
    (h : CTimer.run env .rttUdp s.phase.objects s.sh s.phase.timer = some (sh, t)) :
    (∃ shot' begun', Pinging env shot' begun' current
        { s with sh := sh, phase := { s.phase with timer := t } }) ∧
      Later s.sh.cb.jMeasurementResultsRttUdp sh.cb.jMeasurementResultsRttUdp := by
  have hpassed {w : Worker} (h0 : s.phase.objects[0]? = some w) :
      Ping.Accounted current w.ping := by
    have hmem := List.mem_of_getElem? h0
    unfold Phase.objects at hmem
    split at hmem
    · exact (hp.workers w hmem).accounted
    · contradiction
  have hbegun := tally_mono hp.reading
  cases CTimer.run_rtt hw h with
  | keep hinfo hread hwalk =>
    obtain ⟨hr, ht⟩ := hwalk.resolve_left fun hk => hk rfl
    refine ⟨⟨shot, begun, hp.order, hp.reading, hp.workers, hp.idle, ?_, ?_, ?_⟩, ?_⟩
    · rw [hr, ht]
      exact hp.walk
    · simp [hread]
    · rw [hinfo]
      intro r hr
      obtain ⟨rs, bs, es, hpub, h1, h2, -⟩ := hp.published r hr
      exact ⟨rs, bs, es, hpub, h1, h2, fun hne => absurd hread hne⟩
    · rw [hinfo]
      exact Std.Refl.refl _
  | copy hinfo hread hwalk =>
    have hpublished {shot' : List Pass} (hle : shot <+: shot') (r : RttUdpInfo)
        (hr : sh.cb.jMeasurementResultsRttUdp = some r) : ∃ rs bs es, Published rs bs es r ∧
          rs <+: shot' ∧ es <+: current ∧ (t.pc.counterRead ≠ none → es <+: current) := by
      rw [hinfo] at hr
      obtain ⟨rs, bs, es, hpub, h1, h2, -⟩ := hp.published r hr
      exact ⟨rs, bs, es, hpub, h1.trans hle, h2, fun _ => h2⟩
    have hreads (r : CounterRead) (hr : t.pc.counterRead = some r) :
        Within (tally current) (tally current) t.walk.counters r := by
      obtain rfl := Option.some.inj (hread.symm.trans hr)
      trivial
    refine ⟨?_, by rw [hinfo]; exact Std.Refl.refl _⟩
    rcases hwalk with hwalk | ⟨w, h0, hr, ht⟩
    · refine ⟨shot, current, hp.order.trans hp.reading, List.prefix_refl _, hp.workers, hp.idle, ?_,
        hreads, hpublished (List.prefix_refl _)⟩
      rw [hwalk]
      exact hp.walk
    · refine ⟨current, current, List.prefix_refl _, List.prefix_refl _, hp.workers, hp.idle, ?_,
        hreads, hpublished (hp.order.trans hp.reading)⟩
      rw [hr, ht]
      exact (hpassed h0).shot
  | @read r r' w hinfo h0 hr hnext hread hwalk =>
    have hcount := (hpassed h0).counters
    refine ⟨⟨shot, begun, hp.order, hp.reading, hp.workers, hp.idle, ?_, ?_, ?_⟩, ?_⟩
    · rw [hwalk]
      exact hp.walk
    · intro q hq
      obtain rfl := Option.some.inj (hread.symm.trans hq)
      rw [hwalk, ← hcount]
      exact (hcount ▸ hp.reads r hr).read (hcount ▸ hbegun) hnext
    · rw [hinfo]
      intro r hr'
      obtain ⟨rs, bs, es, hpub, h1, h2, h3⟩ := hp.published r hr'
      exact ⟨rs, bs, es, hpub, h1, h2, fun _ => h3 (by simp [hr])⟩
    · rw [hinfo]
      exact Std.Refl.refl _
  | @publish w _ h0 hr hread hwalk hinfo =>
    have hcount := (hpassed h0).counters
    have hbetween : Between (tally begun) (tally current)
        (CounterRead.errors.read w.ping s.phase.timer.walk.counters) := by
      rw [← hcount]
      exact (hcount ▸ hp.reads _ hr).readLast (hcount ▸ hbegun)
    have hpub : Published shot begun current (rttUdpInfo env
        (CounterRead.errors.read w.ping s.phase.timer.walk.counters)
        s.phase.timer.walk.pingResults s.phase.timer.walk.pingTimestamps) :=
      { order := hp.order
        rtts := ⟨_, _, hp.walk, by rw [rttUdpInfo, hcalc]⟩
        counters := ⟨_, hbetween, rfl, rfl, rfl, rfl⟩ }
    refine ⟨⟨shot, begun, hp.order, hp.reading, hp.workers, hp.idle, ?_, ?_, ?_⟩, ?_⟩
    · rw [hwalk]
      exact hp.walk
    · simp [hread]
    · rw [hinfo]
      rintro _ ⟨⟩
      exact ⟨shot, begun, current, hpub, List.prefix_refl _, List.prefix_refl _,
        fun hne => absurd hread hne⟩
    · rw [hinfo]
      intro r hold
      obtain ⟨rs, bs, es, hrep, h1, -, h3⟩ := hp.published r hold
      exact ⟨_, rfl, hrep.extends hpub h1 (h3 (by simp [hr]))⟩

theorem RttKept.step_timer (hk : RttKept env s) (ht : Threads env s)
    (hcalc : ∀ m, env.interimValues m = m.values)
    (h : CTimer.run env s.phase.testCase s.phase.objects s.sh s.phase.timer = some (sh, t)) :
    RttKept env { s with sh := sh, phase := { s.phase with timer := t } } := by
  have hstarts := CTimer.run_starts h
  have hinfos := CTimer.run_infos h
  obtain ⟨hping, hlater, hsound⟩ : (s.phase.testCase = .rttUdp → ∃ shot begun current,
        Pinging env shot begun current
          { s with sh := sh, phase := { s.phase with timer := t } }) ∧
      Later s.sh.cb.jMeasurementResultsRttUdp sh.cb.jMeasurementResultsRttUdp ∧
      (sh.cb.jMeasurementResultsRttUdp = s.sh.cb.jMeasurementResultsRttUdp ∨
        s.phase.testCase = .rttUdp ∧
          ∀ r, sh.cb.jMeasurementResultsRttUdp = some r → r.Sound env) := by
    by_cases htc : s.phase.testCase = .rttUdp
    · obtain ⟨shot, begun, current, hp⟩ := hk.pinging htc
      rw [htc] at h
      obtain ⟨⟨shot', begun', hp'⟩, hlater⟩ := hp.step_timer hcalc (htc ▸ ht.timer) h
      refine ⟨fun _ => ⟨shot', begun', current, hp'⟩, hlater, .inr ⟨htc, fun r hr => ?_⟩⟩
      obtain ⟨rs, bs, es, hpub, -, h2, -⟩ := hp'.published r hr
      refine hpub.sound ?_
      have hle := h2.length_le
      have hb := hp'.bound
      omega
    · have hinfo := (CTimer.run_rtt ht.timer h).info_eq htc
      exact ⟨fun h => absurd h htc, hinfo ▸ Std.Refl.refl _, .inl hinfo⟩
  refine ⟨fun hstart => ?_, hping, fun r hr => ?_, fun r hr => ?_, ?_⟩
  · change _ ∈ starts sh.log
    rw [hstarts]
    rcases hsound with hinfo | ⟨htc, -⟩
    · exact hk.started (hstart.imp_left fun hne => hinfo ▸ hne)
    · exact hk.started (.inr htc)
  · rcases hsound with hinfo | ⟨-, hall⟩
    · exact hk.sound r (hinfo.symm.trans hr)
    · exact hall r hr
  · rcases hinfos with hlog | ⟨hlog, -⟩
    · exact hk.told r (hlog ▸ hr)
    · rw [show rttInfos sh.log = _ from hlog, List.mem_append, List.mem_singleton] at hr
      rcases hr with hr | hr
      · exact hk.told r hr
      · exact hk.sound r hr.symm
  · rcases hinfos with hlog | ⟨hlog, hcb⟩
    · change Climbs Later (rttInfos sh.log) _
      rw [hlog]
      exact hk.climbs.move hlater
    · change Climbs Later (rttInfos sh.log) sh.cb.jMeasurementResultsRttUdp
      rw [hlog, hcb]
      exact hk.climbs.read

/-- A step of the thread of the rtt test, the only one. -/
theorem Pinging.step_worker {shot begun current : List Pass} (hp : Pinging env shot begun current s)
    (hone : s.phase.workers.length ≤ 1) {j : Nat} {o : Outcome} {w w' : Worker} {g : Globals}
    (hj : s.phase.workers[j]? = some w)
    (h : Worker.run env .rttUdp o s.sh.g w = some (g, w')) :
    ∃ current', Pinging env shot begun current'
      { s with
        sh := { s.sh with g := g }
        phase := { s.phase with workers := s.phase.workers.set j w' } } := by
  obtain ⟨current', hpre, hw'⟩ := (hp.workers w (List.mem_of_getElem? hj)).step h
  refine ⟨current', hp.order, hp.reading.trans hpre, fun v hv => ?_, fun hnil => ?_, hp.walk,
    fun r hr => (hp.reads r hr).mono (tally_mono hpre), fun r hr => ?_⟩
  · have hmem := mem_set_self w' hj
    rw [eq_of_mem_of_length_le_one (by simpa using hone) hv hmem]
    exact hw'
  · have hmem := mem_set_self w' hj
    rw [show s.phase.workers.set j w' = [] from hnil] at hmem
    contradiction
  · obtain ⟨rs, bs, es, hpub, h1, h2, h3⟩ := hp.published r hr
    exact ⟨rs, bs, es, hpub, h1, h2.trans hpre, h3⟩

theorem RttKept.step_worker (hk : RttKept env s) (ht : Threads env s) {j : Nat} {o : Outcome}
    {w w' : Worker} {g : Globals} (hj : s.phase.workers[j]? = some w)
    (h : Worker.run env s.phase.testCase o s.sh.g w = some (g, w')) :
    RttKept env
      { s with
        sh := { s.sh with g := g }
        phase := { s.phase with workers := s.phase.workers.set j w' } } := by
  refine ⟨hk.started, fun htc => ?_, hk.sound, hk.told, hk.climbs⟩
  change s.phase.testCase = .rttUdp at htc
  obtain ⟨k, hi, hc⟩ :=
    ht.worker_inside (List.mem_of_getElem? hj) (Worker.run_kept h).moves
  have hkr : k = .rttUdp := (ht.testCase k hi).1.symm.trans htc
  obtain ⟨shot, begun, current, hp⟩ := hk.pinging htc
  rw [htc] at h
  obtain ⟨current', hp'⟩ := hp.step_worker (ht.single hi hc (.inr hkr)) hj h
  exact ⟨shot, begun, current', hp'⟩

theorem passed_newWorker (env : Env) (j : Nat) (cb : CCallback) :
    Passed env [] (newWorker env .rttUdp j cb) :=
  ⟨⟨rfl, rfl, rfl, rfl, rfl, rfl, rfl⟩, by simp [newWorker, startPc, Ping.inLoop], by simp⟩

/-- The main thread inside a test case. -/
theorem Pinging.step_main {shot begun current : List Pass} (hp : Pinging env shot begun current s)
    (ht : Threads env s) (htc : s.phase.testCase = .rttUdp)
    (hs : ∀ k, s.main ≠ .startTestCase k) (h : mainStep env true s = some s') :
    ∃ shot' begun', Pinging env shot' begun' current s' := by
  cases hm : s.main <;> simp only [mainStep, hm] at h
  case startTestCase k => exact absurd hm (hs k)
  case construct k =>
    have hj := ht.joined
    simp only [Joined, hm] at hj
    have hnil := hp.idle hj.2.1
    obtain rfl := List.prefix_nil.mp (hnil ▸ hp.reading)
    obtain rfl := List.prefix_nil.mp hp.order
    obtain rfl := Option.some.inj h
    refine ⟨[], [], hp.order, hp.reading, hp.workers, hp.idle, ⟨rfl, rfl⟩,
      by simp [TimerPc.counterRead], fun r hr => ?_⟩
    obtain ⟨rs, bs, es, hpub, h1, h2, -⟩ := hp.published r hr
    exact ⟨rs, bs, es, hpub, h1, h2, by simp [TimerPc.counterRead]⟩
  case create k =>
    have hin : s.main.inside = some k := by simp [hm, MainPc.inside]
    obtain rfl : k = .rttUdp := (ht.testCase k hin).1.symm.trans htc
    have hone : s.sh.g.instances = 1 := (ht.instances _ hin (by simp [hm])).1
    split at h
    · rename_i hlt
      -- the only worker is the first
      have hnil : s.phase.workers = [] := List.length_eq_zero_iff.mp (by omega)
      obtain rfl := hp.idle hnil
      obtain rfl := Option.some.inj h
      refine ⟨shot, begun, hp.order, hp.reading, fun w hw => ?_, fun hnil => ?_, hp.walk, hp.reads,
        hp.published⟩
      · change w ∈ s.phase.workers ++ _ at hw
        rw [hnil, List.nil_append, List.mem_singleton] at hw
        exact hw ▸ passed_newWorker env _ _
      · exact absurd hnil (List.append_ne_nil_of_right_ne_nil _ (List.cons_ne_nil _ _))
    · obtain rfl := Option.some.inj h
      exact ⟨shot, begun, hp.congr rfl rfl rfl⟩
  case destroy k i =>
    split at h <;> obtain rfl := Option.some.inj h
    · exact ⟨shot, begun, hp.congr rfl rfl rfl⟩
    · rename_i w hw
      refine ⟨shot, begun, hp.order, hp.reading, fun v hv => ?_, fun hnil => ?_, hp.walk, hp.reads,
        hp.published⟩
      · rcases List.mem_or_eq_of_mem_set hv with hv | rfl
        · exact hp.workers v hv
        · have hw' := hp.workers w (List.mem_of_getElem? hw)
          exact ⟨hw'.accounted, hw'.query, hw'.bound⟩
      · exact hp.idle (by simpa using hnil)
  all_goals repeat' (split at h)
  all_goals try contradiction
  all_goals
    obtain rfl := Option.some.inj h
    exact ⟨shot, begun, hp.congr rfl rfl rfl⟩

theorem mainStep_info {created : Bool} (h : mainStep env created s = some s') :
    s'.sh.cb.jMeasurementResultsRttUdp = s.sh.cb.jMeasurementResultsRttUdp ∧
      (rttInfos s'.sh.log = rttInfos s.sh.log ∨
        rttInfos s'.sh.log = rttInfos s.sh.log ++ [s.sh.cb.jMeasurementResultsRttUdp]) := by
  cases hm : s.main <;> simp only [mainStep, hm] at h
  case startTestCase k =>
    obtain rfl := Option.some.inj h
    cases env.mobile
    · exact ⟨rfl, .inl (by simp [rttInfos])⟩
    · exact ⟨rfl, .inr (by simp [rttInfos, callbackToPlatform, message])⟩
  all_goals repeat' (split at h)
  all_goals try contradiction
  all_goals
    obtain rfl := Option.some.inj h
    exact ⟨rfl, .inl rfl⟩

theorem RttKept.step_main (hk : RttKept env s) (ht : Threads env s) (hx : InOrder s)
    (h : mainStep env true s = some s') : RttKept env s' := by
  obtain ⟨hinfo, hinfos⟩ := mainStep_info h
  have hsound : ∀ r, s'.sh.cb.jMeasurementResultsRttUdp = some r → r.Sound env := hinfo ▸ hk.sound
  have htold : ∀ r, some r ∈ rttInfos s'.sh.log → r.Sound env := by
    intro r hr
    rcases hinfos with hlog | hlog <;> rw [hlog] at hr
    · exact hk.told r hr
    · rcases List.mem_append.mp hr with hr | hr
      · exact hk.told r hr
      · exact hk.sound r (List.mem_singleton.mp hr).symm
  have hclimbs : Climbs Later (rttInfos s'.sh.log) s'.sh.cb.jMeasurementResultsRttUdp := by
    rw [hinfo]
    rcases hinfos with hlog | hlog <;> rw [hlog]
    · exact hk.climbs
    · exact hk.climbs.read
  by_cases hs : ∃ k, s.main = .startTestCase k
  · obtain ⟨k, hm⟩ := hs
    -- the rtt test is started once, before anything is published
    have hnone : k = .rttUdp → s.sh.cb.jMeasurementResultsRttUdp = none := by
      rintro rfl
      by_contra hne
      have hlt := (hx.started _ (hk.started (.inl hne))).1
      simp [hm, MainPc.bound] at hlt
    have hstarts : starts s'.sh.log = starts s.sh.log ++ [k] := by
      rcases mainStep_log h with ⟨hl, -⟩ | ⟨l, es, hl, hlog, hes⟩
      · exact absurd hm (hl k)
      · rw [hm, MainPc.startTestCase.injEq] at hl
        rw [hlog, starts_append, starts_startTestCase hes, hl]
    simp only [mainStep, hm] at h
    obtain rfl := Option.some.inj h
    refine ⟨fun hst => ?_, fun hk' => ?_, hsound, htold, hclimbs⟩
    · rw [hstarts, List.mem_append, List.mem_singleton]
      rcases hst with hne | hk'
      · exact .inl (hk.started (.inl (hinfo ▸ hne)))
      · exact .inr hk'.symm
    · refine ⟨[], [], [], List.prefix_refl _, List.prefix_refl _, by simp, fun _ => rfl,
        ⟨rfl, rfl⟩, by simp [TimerPc.counterRead], fun r hr => ?_⟩
      rw [hinfo, hnone hk'] at hr
      contradiction
  · have hs' : ∀ k, s.main ≠ .startTestCase k := by simpa using hs
    have hlog : s'.sh.log = s.sh.log := by
      rcases mainStep_log h with ⟨-, hlog⟩ | ⟨k, es, hm, -⟩
      · exact hlog
      · exact absurd hm (hs' k)
    have htc : s'.phase.testCase = s.phase.testCase := by
      by_cases hcon : ∃ k, s.main = .construct k
      · obtain ⟨k, hm⟩ := hcon
        simp only [mainStep, hm] at h
        exact (Option.some.inj h) ▸ rfl
      · exact (mainStep_grows h (by simpa using hcon) hs').2.2.2
    refine ⟨?_, fun hk' => ?_, hsound, htold, hclimbs⟩
    · rw [hinfo, hlog, htc]
      exact hk.started
    · obtain ⟨shot, begun, current, hp⟩ := hk.pinging (htc ▸ hk')
      obtain ⟨shot', begun', hp'⟩ := hp.step_main ht (htc ▸ hk') hs' h
      exact ⟨shot', begun', current, hp'⟩

theorem RttKept.step (hk : RttKept env s) (ht : Threads env s) (hx : InOrder s)
    (hcalc : ∀ m, env.interimValues m = m.values) (ha : Created a)
    (h : IasClient.step env a s = some s') : RttKept env s' := by
  cases step_moved ht.past h with
  | main hm =>
    subst ha
    exact hk.step_main ht hx hm
  | timer hstep => exact hk.step_timer ht hcalc hstep
  | worker hj hstep => exact hk.step_worker ht hj hstep
  | stop | clock =>
    refine ⟨hk.started, fun htc => ?_, hk.sound, hk.told, hk.climbs⟩
    obtain ⟨shot, begun, current, hp⟩ := hk.pinging htc
    exact ⟨shot, begun, current, hp.congr rfl rfl rfl⟩

theorem RttKept.run {rtt download upload : Bool} {old : Globals}
    (hcalc : ∀ m, env.interimValues m = m.values)
    (h : Run (IasClient.step env) (fun _ a => Created a)
      (measurementStart rtt download upload old) s) : RttKept env s := by
  refine Run.invariant_of (J := fun t => Threads env t ∧ InOrder t)
    (fun t hr => ⟨Threads.run (fun _ _ h => h) hr, (Performing.run hr).1⟩) ?_ ?_ h
  · exact fun t a u ⟨ht, hx⟩ _ hk ha hs => hk.step ht hx hcalc ha hs
  · refine ⟨?_, ?_, ?_, ?_, Climbs.nil _⟩ <;> simp [measurementStart, rttInfos]

end IasClient
