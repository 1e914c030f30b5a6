import IasClient.Framework.Grouped
import IasClient.Model.BandwidthResult
import IasClient.Accounting.Aggregation
import IasClient.Control.Series

namespace IasClient

open Framework

/-- A sum over the entries of the streams in a step, in `n` bits. -/
def sumMod (ps : List PerStream) (f : PerStream → UInt64) (n : Nat) : Nat :=
  (ps.map fun p => (f p).toNat).sum % 2 ^ n

/-- The value of the last stream. -/
def lastOf (ps : List PerStream) (f : PerStream → UInt64) : UInt64 := ((ps.getLast?).map f).getD 0

/-- An entry of the raw data in the step `step` of its stream. -/
structure PerStream.Sound (step : Nat) (p : PerStream) : Prop where
  bytesTotal : p.bytesTotal = p.bytesSlowStart + p.bytes
  bytesDistinct : p.bytesDistinct.toNat < 2 ^ 61
  relativeTimeNs : p.relativeTimeNs = UInt64.ofInt (step * 500000000)
  fits : p.Fits

/-- The entries of one step, of at most `n` streams. -/
structure Row (n step : Nat) (ps : List PerStream) : Prop where
  streams : ps.map (·.streamId) = List.range ps.length
  length : ps.length ≤ n
  sound : ∀ p ∈ ps, p.Sound (step + 1)

/-- The sums of a step while its streams are visited. -/
structure StepSums.Of (a : StepSums) (ps : List PerStream) : Prop where
  bytes : a.bytes.toNat = sumMod ps (·.bytes) 64
  bytesDistinct : a.bytesDistinct.toNat = sumMod ps (·.bytesDistinct) 64
  bytesSlowStart : a.bytesSlowStart.toNat = sumMod ps (·.bytesSlowStart) 64
  bytesTotal : a.bytesTotal.toNat = sumMod ps (·.bytesTotal) 64
  durationNsTotal : a.durationNsTotal = lastOf ps (·.relativeTimeNsTotal)
  relativeTimeNsMeasurementStart :
    a.relativeTimeNsMeasurementStart = lastOf ps (·.relativeTimeNsMeasurementStart)

/-- A published entry against the entries of the streams in its step. The sizes that have been bits
in between lose the three highest of their 64 bits. -/
structure Aggregate.Of (n step : Nat) (a : Aggregate) (ps : List PerStream) : Prop
    extends Row n step ps where
  bytes : a.bytes.toNat = sumMod ps (·.bytes) 61
  bytesDistinct : a.bytesDistinct.toNat = sumMod ps (·.bytesDistinct) 64
  bytesSlowStart : a.bytesSlowStart.toNat = sumMod ps (·.bytesSlowStart) 61
  bytesTotal : a.bytesTotal.toNat = sumMod ps (·.bytesTotal) 61
  durationNsTotal : a.durationNsTotal = lastOf ps (·.relativeTimeNsTotal)
  relativeTimeNsMeasurementStart :
    a.relativeTimeNsMeasurementStart = lastOf ps (·.relativeTimeNsMeasurementStart)

theorem sumMod_snoc {ps : List PerStream} {p : PerStream} {f : PerStream → UInt64} {x : UInt64}
    (h : x.toNat = sumMod ps f 64) : (x + f p).toNat = sumMod (ps ++ [p]) f 64 := by
  rw [UInt64.toNat_add, h, sumMod, sumMod, List.map_append, List.sum_append, List.map_singleton,
    List.sum_singleton, Nat.mod_add_mod]

/-- A size in bytes that has been one in bits. -/
theorem sumMod_mul_div {ps : List PerStream} {f : PerStream → UInt64} {x : UInt64}
    (h : x.toNat = sumMod ps f 64) : (x * 8 / 8).toNat = sumMod ps f 61 := by
  have h8 : (8 : UInt64).toNat = 8 := rfl
  rw [UInt64.toNat_div, UInt64.toNat_mul, h8, h, sumMod, sumMod]
  omega

theorem walkBins_bytesDistinct_lt {skip : Int → Bool} {step steps : Int}
    (l : List (Int × UInt64)) (i : Int) {b : BinSums} (hb : b.bytesDistinct.toNat < 2 ^ 61) :
    (walkBins skip step steps l i b).bytesDistinct.toNat < 2 ^ 61 := by
  induction l generalizing i b with
  | nil => exact hb
  | cons e l ih =>
    have hdiv : (e.2 / 8).toNat < 2 ^ 61 := by
      have := e.2.toNat_lt
      have h8 : (8 : UInt64).toNat = 8 := rfl
      rw [UInt64.toNat_div, h8]
      omega
    simp only [walkBins]
    split_ifs <;> first | exact hb | exact hdiv | exact ih _ hb | exact ih _ hdiv

variable {v : WalkInput} {n i j : Nat} {steps : Int} {s : Stream} {a a' : StepSums}
  {p : PerStream} {ps : List PerStream}

theorem Row.nil (n i : Nat) : Row n i [] :=
  ⟨rfl, Nat.zero_le n, fun _ hp => absurd hp List.not_mem_nil⟩

theorem StepSums.of_nil (now : UInt64) : StepSums.Of { currentTimestamp := now } [] :=
  ⟨rfl, rfl, rfl, rfl, rfl, rfl⟩

theorem lastOf_snoc (f : PerStream → UInt64) : lastOf (ps ++ [p]) f = f p := by
  simp [lastOf]

/-- What the visit of a stream brings. -/
structure Visited (j i : Nat) (a a' : StepSums) (p : PerStream) : Prop where
  grown : a.Grown a' p
  sound : p.Sound (i + 1)
  streamId : p.streamId = j
  durationNsTotal : a'.durationNsTotal = p.relativeTimeNsTotal
  relativeTimeNsMeasurementStart :
    a'.relativeTimeNsMeasurementStart = p.relativeTimeNsMeasurementStart

theorem visitStream_visited (h : visitStream v (i + 1) steps j s a = some (a', p)) :
    Visited j i a a' p := by
  have hdistinct : (walkBins (skipped v) (i + 1) steps s.data.results.entries 1
      { bins := a.bins }).bytesDistinct.toNat < 2 ^ 61 :=
    walkBins_bytesDistinct_lt _ _ (Nat.two_pow_pos 61)
  simp only [IasClient.visitStream, Option.bind_eq_bind, Option.bind_eq_some_iff, Option.some.injEq,
    Prod.mk.injEq, Option.pure_def] at h
  obtain ⟨_, hb, _, hd, _, hs, _, ht, _, htotal, _, hstart, rfl, hp⟩ := h
  have hfits : p.Fits := by
    subst hp
    exact ⟨lt_of_stoll hb, lt_of_stoll hd, lt_of_stoll hs, lt_of_stoll ht, lt_of_stoll htotal,
      lt_of_stoll hstart⟩
  rw [eq_of_stoll hb, eq_of_stoll hd, eq_of_stoll hs, eq_of_stoll ht, eq_of_stoll htotal,
    eq_of_stoll hstart]
  subst hp
  exact ⟨⟨rfl, rfl, rfl, rfl, rfl⟩, ⟨rfl, hdistinct, rfl, hfits⟩, rfl, rfl, rfl⟩

/-- A stream adds its entry to the row and to the sums. -/
theorem Row.snoc (hr : Row n i ps) (hn : ps.length < n) (h : Visited ps.length i a a' p) :
    Row n i (ps ++ [p]) := by
  refine ⟨?_, ?_, fun q hq => ?_⟩
  · rw [List.map_append, hr.streams, List.length_append, List.length_singleton, List.range_succ,
      List.map_singleton, h.streamId]
  · rw [List.length_append, List.length_singleton]
    exact hn
  · rcases List.mem_append.mp hq with hq | hq
    · exact hr.sound q hq
    · exact List.mem_singleton.mp hq ▸ h.sound

theorem StepSums.Of.snoc (ha : a.Of ps) (h : Visited j i a a' p) : a'.Of (ps ++ [p]) where
  bytes := h.grown.bytes ▸ sumMod_snoc ha.bytes
  bytesDistinct := h.grown.bytesDistinct ▸ sumMod_snoc ha.bytesDistinct
  bytesSlowStart := h.grown.bytesSlowStart ▸ sumMod_snoc ha.bytesSlowStart
  bytesTotal := h.grown.bytesTotal ▸ sumMod_snoc ha.bytesTotal
  durationNsTotal := h.durationNsTotal.trans (lastOf_snoc _).symm
  relativeTimeNsMeasurementStart := h.relativeTimeNsMeasurementStart.trans (lastOf_snoc _).symm

theorem StepSums.Of.stepResult (hr : Row n i ps) (ha : a.Of ps) :
    (stepResult v a).Of n i ps :=
  ⟨hr, sumMod_mul_div ha.bytes, ha.bytesDistinct, sumMod_mul_div ha.bytesSlowStart,
    sumMod_mul_div ha.bytesTotal, ha.durationNsTotal, ha.relativeTimeNsMeasurementStart⟩

/-- The entries of a message and the raw data beside them, for the download and for the upload. -/
structure Message.Tabled (n : Nat) (m : Message) : Prop where
  download : Grouped (Aggregate.Of n) m.downloadInfo m.downloadRawData
  upload : Grouped (Aggregate.Of n) m.uploadInfo m.uploadRawData

/-- What the next message says, and what has been said. -/
structure Shared.Tabled (n : Nat) (sh : Shared) : Prop where
  download : Grouped (Aggregate.Of n) sh.cb.jMeasurementResultsDownload
    sh.cb.jMeasurementResultsDownloadStreams
  upload : Grouped (Aggregate.Of n) sh.cb.jMeasurementResultsUpload
    sh.cb.jMeasurementResultsUploadStreams
  told : ∀ k m, .platform k m ∈ sh.log → m.Tabled n

/-- The walk of a callback between two steps, inside a step and behind the last one. -/
def Timer.Tabled (n : Nat) (t : Timer) : Prop :=
  match t.pc with
  | .callback _ .stepHead => (t.walk.results.length : Int) + 1 = t.walk.currentStep ∧
      Grouped (Aggregate.Of n) t.walk.results t.walk.perStream
  | .callback _ .visit | .callback _ .dropError | .callback _ .dropFlag | .callback _ .stepEnd =>
    (t.walk.results.length : Int) + 1 = t.walk.currentStep ∧ ∃ before ps,
      t.walk.perStream = before ++ ps ∧ ps.length = t.walk.streamId ∧
      Grouped (Aggregate.Of n) t.walk.results before ∧ Row n t.walk.results.length ps ∧
      t.walk.sums.Of ps
  | .callback _ .publish => Grouped (Aggregate.Of n) t.walk.results t.walk.perStream
  | _ => True

variable {env : Env} {sender : TestCase} {objects : List Worker} {sh sh' : Shared} {t t' : Timer}
  {c : Call} {pc : CallbackPc}

namespace Shared.Tabled

theorem callbackToPlatform {cmd : Cmd} {msg description : String} {code : Int}
    (h : sh.Tabled n) : (callbackToPlatform sender cmd msg code description sh).Tabled n := by
  refine ⟨h.download, h.upload, fun k m hm => ?_⟩
  rcases List.mem_append.mp hm with hm | hm
  · exact h.told k m hm
  · obtain ⟨-, rfl⟩ := Event.platform.inj (List.mem_singleton.mp hm)
    exact ⟨h.download, h.upload⟩

theorem publishResults {w : Walk} (h : sh.Tabled n)
    (hw : Grouped (Aggregate.Of n) w.results w.perStream) (k : TestCase) :
    Shared.Tabled n { sh with cb := publishResults k w sh.cb } := by
  cases k with
  | ip | rttUdp => exact h
  | download => exact ⟨hw, h.upload, h.told⟩
  | upload => exact ⟨h.download, hw, h.told⟩

end Shared.Tabled

theorem Timer.tabled_of_stored (n : Nat) (c d : Call) (h : t.pc = .callback d c.stored) :
    t.Tabled n := by
  cases c <;> simp [Timer.Tabled, h, Call.stored]

theorem Timer.tabled_resume (n : Nat) (t : Timer) (c : Call) : (t.resume c).Tabled n := by
  cases c <;> trivial

/-- A step of a walk, and of the callback around it. -/
theorem CCallback.callback_tabled (ho : objects.length ≤ n) (hsh : sh.Tabled n) (ht : t.Tabled n)
    (hp : t.pc = .callback c pc)
    (h : CCallback.callback env sender objects c pc sh t = some (sh', t')) :
    sh'.Tabled n ∧ t'.Tabled n := by
  cases pc <;> simp only [CCallback.callback, Timer.goto] at h <;>
    simp only [Timer.Tabled, hp] at ht
  case steps =>
    obtain ⟨rfl, rfl⟩ := Prod.mk.inj (Option.some.inj h)
    exact ⟨hsh, rfl, .nil⟩
  case stepHead =>
    split at h <;> obtain ⟨rfl, rfl⟩ := Prod.mk.inj (Option.some.inj h)
    · exact ⟨hsh, ht.1, _, [], (List.append_nil _).symm, rfl, ht.2, Row.nil _ _,
        StepSums.of_nil _⟩
    · exact ⟨hsh, ht.2⟩
  case visit =>
    obtain ⟨hstep, before, ps, hraw, hid, hbefore, hrow, hsums⟩ := ht
    split at h
    · split at h <;> obtain ⟨rfl, rfl⟩ := Prod.mk.inj (Option.some.inj h) <;>
        exact ⟨hsh, hstep, before, ps, hraw, hid, hbefore, hrow, hsums⟩
    · rename_i w hw
      split at h
      · obtain ⟨rfl, rfl⟩ := Prod.mk.inj (Option.some.inj h)
        exact ⟨hsh, trivial⟩
      · rename_i sums p hvisit
        obtain ⟨rfl, rfl⟩ := Prod.mk.inj (Option.some.inj h)
        rw [← hstep, ← hid] at hvisit
        have hlt : ps.length < n := by
          have := (List.getElem?_eq_some_iff.mp hw).1
          omega
        have hv := visitStream_visited hvisit
        refine ⟨hsh, ?_⟩
        simp only [Timer.Tabled, hp]
        exact ⟨hstep, before, ps ++ [p], by rw [hraw, List.append_assoc],
          by rw [← hid, List.length_append, List.length_singleton], hbefore, hrow.snoc hlt hv,
          hsums.snoc hv⟩
  case dropError | dropFlag =>
    obtain ⟨rfl, rfl⟩ := Prod.mk.inj (Option.some.inj h)
    exact ⟨⟨hsh.download, hsh.upload, hsh.told⟩, ht⟩
  case stepEnd =>
    obtain ⟨hstep, before, ps, hraw, hid, hbefore, hrow, hsums⟩ := ht
    obtain ⟨rfl, rfl⟩ := Prod.mk.inj (Option.some.inj h)
    refine ⟨hsh, ?_, hraw ▸ hbefore.snoc (hsums.stepResult hrow)⟩
    simp only [List.length_append, List.length_singleton]
    omega
  case publish =>
    split at h <;> obtain ⟨rfl, rfl⟩ := Prod.mk.inj (Option.some.inj h)
    · exact ⟨hsh, trivial⟩
    · exact ⟨hsh.publishResults ht _, Timer.tabled_of_stored n c c rfl⟩
  case toPlatform =>
    split at h <;> obtain ⟨rfl, rfl⟩ := Prod.mk.inj (Option.some.inj h)
    · exact ⟨hsh.callbackToPlatform, trivial⟩
    · exact ⟨hsh.callbackToPlatform, Timer.tabled_resume n t c⟩
  case completed =>
    obtain ⟨rfl, rfl⟩ := Prod.mk.inj (Option.some.inj h)
    refine ⟨?_, Timer.tabled_resume n t c⟩
    exact Shared.Tabled.callbackToPlatform ⟨hsh.download, hsh.upload, hsh.told⟩
  all_goals repeat' (split at h)
  all_goals
    obtain ⟨rfl, rfl⟩ := Prod.mk.inj (Option.some.inj h)
    refine ⟨⟨hsh.download, hsh.upload, hsh.told⟩, ?_⟩
    first
      | exact Timer.tabled_of_stored n c c rfl
      | exact Timer.tabled_resume n t c
      | trivial

theorem CTimer.run_tabled (ho : objects.length ≤ n) (hsh : sh.Tabled n) (ht : t.Tabled n)
    (h : CTimer.run env sender objects sh t = some (sh', t')) : sh'.Tabled n ∧ t'.Tabled n := by
  cases hp : t.pc <;> simp only [CTimer.run, hp, Timer.goto] at h
  case callback c pc => exact CCallback.callback_tabled ho hsh ht hp h
  all_goals repeat' (split at h)
  all_goals try contradiction
  all_goals
    obtain ⟨rfl, rfl⟩ := Prod.mk.inj (Option.some.inj h)
    refine ⟨⟨hsh.download, hsh.upload, hsh.told⟩, ?_⟩
    simp only [Timer.Tabled]
  all_goals trivial

/-- What is published, and what the timer is about to publish. -/
structure Sys.Tabled (n : Nat) (s : Sys) : Prop where
  shared : s.sh.Tabled n
  timer : s.phase.timer.Tabled n

variable {x x' : Sys} {act : Action}

namespace Sys.Tabled

theorem start (n : Nat) (rtt download upload : Bool) (old : Globals) :
    (measurementStart rtt download upload old).Tabled n :=
  ⟨⟨.nil, .nil, fun _ _ hm => absurd hm List.not_mem_nil⟩, trivial⟩

theorem mainStep {created : Bool} (h : x.Tabled n) (hs : mainStep env created x = some x') :
    x'.Tabled n := by
  have keep (g : Globals) (pc : MainPc) (p : Phase) (hp : p.timer.Tabled n) :
      Sys.Tabled n { x with sh := { x.sh with g := g }, main := pc, phase := p } :=
    ⟨⟨h.shared.download, h.shared.upload, h.shared.told⟩, hp⟩
  cases hm : x.main <;> simp only [IasClient.mainStep, hm] at hs
  case startTestCase k =>
    obtain rfl := Option.some.inj hs
    refine ⟨?_, trivial⟩
    have hstarted : Shared.Tabled n
        { g := { x.sh.g with nTestCase := k, currentTestPhase := k.phase, syncingThreads := .empty }
          cb := { x.sh.cb with mTestCase := k }
          log := x.sh.log ++ [.startTestCase k] } := by
      refine ⟨h.shared.download, h.shared.upload, fun l m hl => ?_⟩
      rcases List.mem_append.mp hl with hl | hl
      · exact h.shared.told l m hl
      · simp at hl
    split
    · exact hstarted.callbackToPlatform
    · exact hstarted
  case construct k =>
    obtain rfl := Option.some.inj hs
    exact keep _ _ _ trivial
  case startMeasurement k =>
    split at hs <;> obtain rfl := Option.some.inj hs
    · exact keep _ _ _ h.timer
    · exact ⟨⟨h.shared.download, h.shared.upload, h.shared.told⟩, h.timer⟩
  all_goals repeat' (split at hs)
  all_goals try contradiction
  all_goals
    obtain rfl := Option.some.inj hs
    exact keep _ _ _ h.timer

theorem step (hn : ∀ k, instances env k ≤ n) (h : x.Tabled n) (ht : Threads env x)
    (ha : Created act) (hs : IasClient.step env act x = some x') : x'.Tabled n := by
  cases step_moved ht.past hs with
  | main hm => exact h.mainStep hm
  | timer hstep =>
    obtain ⟨k, hin, hcon⟩ := ht.timer_inside (CTimer.run_moves hstep)
    have hle := ht.workers_le hin hcon
    have ho : x.phase.objects.length ≤ n := by
      have hk := hn k
      rw [(ht.instances k hin hcon).2] at hle
      rw [Phase.objects]
      split
      · omega
      · exact Nat.zero_le n
    obtain ⟨hsh, htimer⟩ := CTimer.run_tabled ho h.shared h.timer hstep
    exact ⟨hsh, htimer⟩
  | worker hw hstep =>
    exact ⟨⟨h.shared.download, h.shared.upload, h.shared.told⟩, h.timer⟩
  | stop => exact ⟨⟨h.shared.download, h.shared.upload, h.shared.told⟩, h.timer⟩
  | clock now => exact ⟨⟨h.shared.download, h.shared.upload, h.shared.told⟩, h.timer⟩

theorem run {rtt download upload : Bool} {old : Globals} (hn : ∀ k, instances env k ≤ n)
    (h : Run (IasClient.step env) (fun _ a => Created a)
      (measurementStart rtt download upload old) x) : x.Tabled n :=
  h.invariant_of (fun _ hr => Threads.run (fun _ _ h => h) hr)
    (fun _ _ _ ht _ hx ha hs => hx.step hn ht ha hs) (start n rtt download upload old)

end Sys.Tabled

/-- The two arrays of every message describe the same walk: each entry of `download_info` is the sum
of the entries that its streams have in `download_raw_data`, one of each stream, in their order, and
so for the upload. -/
theorem raw_data_consistent (env : Env) (rtt download upload : Bool) (old : Globals)
    (hn : ∀ k, instances env k ≤ n)
    (h : Run (IasClient.step env) (fun _ a => Created a)
      (measurementStart rtt download upload old) x) :
    ∀ k m, .platform k m ∈ x.sh.log →
      Grouped (Aggregate.Of n) m.downloadInfo m.downloadRawData ∧
      Grouped (Aggregate.Of n) m.uploadInfo m.uploadRawData := by
  intro k m hm
  have htold := (Sys.Tabled.run hn h).shared.told k m hm
  exact ⟨htold.download, htold.upload⟩

theorem instances_oneStreamEnv_le (k : TestCase) : instances oneStreamEnv k ≤ 1 := by
  cases k <;> decide

set_option maxRecDepth 4000 in
theorem raw_data_consistent_oneReport : ∃ (x : Sys) (m : Message),
    .platform .download m ∈ x.sh.log ∧ m.downloadInfo.length = 2 ∧
      Grouped (Aggregate.Of 1) m.downloadInfo m.downloadRawData := by
  obtain ⟨x, m, hrun, hm, hlen⟩ : ∃ (x : Sys) (m : Message),
      Run (step oneStreamEnv) (fun _ a => Created a)
        (measurementStart false true false Globals.default) x ∧
      x.sh.log[9]? = some (.platform .download m) ∧ m.downloadInfo.length = 2 :=
    ⟨_, _, run_of_exec oneReport rfl, by rfl, by decide⟩
  have hmem := List.mem_of_getElem? hm
  exact ⟨x, m, hmem, hlen, (raw_data_consistent oneStreamEnv false true false Globals.default
    instances_oneStreamEnv_le hrun .download m hmem).1⟩

theorem lastOf_lt {f : PerStream → UInt64} (h : ∀ p ∈ ps, (f p).toNat < 2 ^ 63) :
    (lastOf ps f).toNat < 2 ^ 63 := by
  rw [lastOf]
  cases hl : ps.getLast? with
  | none => exact Nat.two_pow_pos 63
  | some p => exact h p (List.mem_of_getLast? hl)

theorem stoll_eq {y : UInt64} (h : y.toNat < 2 ^ 63) : stoll y = some y := if_pos h

/-- An entry over at most four streams converts to itself. -/
theorem AndroidConnector.setBandwidthResult_isSome {a : Aggregate} (h : a.Of 4 i ps) :
    (setBandwidthResult a).isSome = true := by
  have hmod (f : PerStream → UInt64) : sumMod ps f 61 < 2 ^ 63 :=
    (Nat.mod_lt _ (Nat.two_pow_pos 61)).trans (Nat.pow_lt_pow_right (by decide) (by decide))
  have hsum : (ps.map fun p => p.bytesDistinct.toNat).sum ≤ ps.length * (2 ^ 61 - 1) := by
    refine (List.sum_le_card_nsmul _ (2 ^ 61 - 1) fun y hy => ?_).trans (by simp)
    obtain ⟨p, hp, rfl⟩ := List.mem_map.mp hy
    exact Nat.le_sub_one_of_lt (h.sound p hp).bytesDistinct
  have hlen := h.length
  have hdistinct : a.bytesDistinct.toNat < 2 ^ 63 := by
    rw [h.bytesDistinct, sumMod]
    omega
  have htotal : a.durationNsTotal.toNat < 2 ^ 63 :=
    h.durationNsTotal ▸ lastOf_lt fun p hp => (h.sound p hp).fits.relativeTimeNsTotal
  have hstart : a.relativeTimeNsMeasurementStart.toNat < 2 ^ 63 :=
    h.relativeTimeNsMeasurementStart ▸
      lastOf_lt fun p hp => (h.sound p hp).fits.relativeTimeNsMeasurementStart
  simp only [setBandwidthResult, stoll_eq (h.bytes ▸ hmod _), stoll_eq hdistinct,
    stoll_eq (h.bytesTotal ▸ hmod _), stoll_eq (h.bytesSlowStart ▸ hmod _), stoll_eq htotal,
    stoll_eq hstart]
  rfl

theorem isSome_mapM {α β : Type} {f : α → Option β} {l : List α}
    (h : ∀ a ∈ l, (f a).isSome = true) : (l.mapM f).isSome = true := by
  induction l with
  | nil => rfl
  | cons a l ih =>
    obtain ⟨b, hb⟩ := Option.isSome_iff_exists.mp (h a List.mem_cons_self)
    obtain ⟨bs, hbs⟩ := Option.isSome_iff_exists.mp
      (ih fun a ha => h a (List.mem_cons_of_mem _ ha))
    simp [List.mapM_cons, hb, hbs]

/-- With at most four streams in each direction, the Java results of every message are built without
an exception. -/
theorem AndroidConnector.results_convert (env : Env) (rtt download upload : Bool) (old : Globals)
    (hn : ∀ k, instances env k ≤ 4)
    (h : Run (IasClient.step env) (fun _ a => Created a)
      (measurementStart rtt download upload old) x) :
    ∀ k m, .platform k m ∈ x.sh.log → (bandwidthResults m).isSome = true := by
  intro k m hm
  have htold := (Sys.Tabled.run (n := 4) hn h).shared.told k m hm
  have hconvert {as : List Aggregate} {ps : List PerStream} (hg : Grouped (Aggregate.Of 4) as ps) :
      (as.mapM setBandwidthResult).isSome = true :=
    isSome_mapM fun a ha =>
      let ⟨_, _, hof⟩ := hg.exists_of_mem ha
      setBandwidthResult_isSome hof
  obtain ⟨ds, hd⟩ := Option.isSome_iff_exists.mp (hconvert htold.download)
  obtain ⟨us, hu⟩ := Option.isSome_iff_exists.mp (hconvert htold.upload)
  simp [bandwidthResults, hd, hu]

set_option maxRecDepth 4000 in
theorem AndroidConnector.results_convert_oneReport : ∃ (x : Sys) (m : Message),
    .platform .download m ∈ x.sh.log ∧ m.cmd = .finish ∧ (bandwidthResults m).isSome = true := by
  obtain ⟨x, m, hrun, hm, hcmd⟩ : ∃ (x : Sys) (m : Message),
      Run (step oneStreamEnv) (fun _ a => Created a)
        (measurementStart false true false Globals.default) x ∧
      x.sh.log[9]? = some (.platform .download m) ∧ m.cmd = .finish :=
    ⟨_, _, run_of_exec oneReport rfl, by rfl, by decide⟩
  have hmem := List.mem_of_getElem? hm
  exact ⟨x, m, hmem, hcmd, results_convert oneStreamEnv false true false Globals.default
    (fun k => (instances_oneStreamEnv_le k).trans (by decide)) hrun .download m hmem⟩

end IasClient
