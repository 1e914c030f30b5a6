import IasClient.Control.Protocol
import IasClient.Control.TlsParameters

namespace IasClient

open Framework

/-- The sections of the results that belong to one test case. -/
inductive Results
  | ip (info : IpInfo)
  | rttUdp (info : Option RttUdpInfo)
  | speed (info : List Aggregate) (rawData : List PerStream)

def Results.empty : TestCase → Results
  | .ip => .ip {}
  | .rttUdp => .rttUdp none
  | .download | .upload => .speed [] []

def CCallback.results (cb : CCallback) : TestCase → Results
  | .ip => .ip cb.jMeasurementResultsIp
  | .rttUdp => .rttUdp cb.jMeasurementResultsRttUdp
  | .download => .speed cb.jMeasurementResultsDownload cb.jMeasurementResultsDownloadStreams
  | .upload => .speed cb.jMeasurementResultsUpload cb.jMeasurementResultsUploadStreams

def Message.results (m : Message) : TestCase → Results
  | .ip => .ip m.ipInfo
  | .rttUdp => .rttUdp m.rttUdpInfo
  | .download => .speed m.downloadInfo m.downloadRawData
  | .upload => .speed m.uploadInfo m.uploadRawData

/-- What becomes of the results of a finished test case up to the test case numbered `n`: they stay
as they are, but from the download on the key `tls_overhead` may be there without a value. -/
inductive Results.Kept (n : Nat) : Results → Results → Prop
  | same (r : Results) : Kept n r r
  | touched (info : IpInfo) (hn : TestCase.download.number ≤ n) :
      Kept n (.ip info) (.ip info.touchTlsOverhead)

/-- What `e` reports of a test case it finishes, `e'` reports as well. -/
def Event.Final (e e' : Event) : Prop :=
  ∀ k m l m', e = .platform k m → m.cmd = .finish → e' = .platform l m' →
    (m.results k).Kept l.number (m'.results k)

/-- Of the test cases after its own a message reports nothing. -/
def Event.Silent (e : Event) : Prop :=
  ∀ k m j, e = .platform k m → k.number < j.number → m.results j = .empty j

variable {env : Env} {k : TestCase} {s s' : Sys} {a : Action} {sh sh' : Shared} {t t' : Timer}
variable {objects : List Worker}

theorem Results.Kept.mono {n n' : Nat} {r r' : Results} (h : Kept n r r') (hn : n ≤ n') :
    Kept n' r r' := by
  cases h with
  | same => exact .same r
  | touched info h => exact .touched info (h.trans hn)

theorem IpInfo.touchTlsOverhead_idem (j : IpInfo) :
    j.touchTlsOverhead.touchTlsOverhead = j.touchTlsOverhead := by
  simp only [touchTlsOverhead]
  split <;> simp_all

theorem message_results (g : Globals) (cb : CCallback) (cmd : Cmd) (msg : String) (code : Int)
    (description : String) : (message g cb cmd msg code description).results = cb.results := by
  funext k
  cases k <;> rfl

/-- The timer writes the results of its own test case alone, and those only in front of the
messages of a call. -/
theorem CTimer.run_results (hw : t.Wf k) (hk : sh.g.nTestCase = k)
    (h : CTimer.run env k objects sh t = some (sh', t')) :
    sh'.cb.results = sh.cb.results ∨ (∀ j, j ≠ k → sh'.cb.results j = sh.cb.results j) ∧
      ∃ c p, t.pc = .callback c p ∧ p.sent = false := by
  cases hp : t.pc <;> simp only [CTimer.run, hp, Timer.goto] at h
  case callback c p =>
    have hin := (hw.called c p hp).2
    cases p <;> simp only [CCallback.callback, Timer.goto] at h
    all_goals repeat' (split at h)
    all_goals obtain ⟨rfl, rfl⟩ := Prod.mk.inj (Option.some.inj h)
    all_goals try with_reducible exact .inl rfl
    -- `ipResults`, `rttCounters` and `publish`
    all_goals
      refine .inr ⟨fun j hj => ?_, _, _, rfl, rfl⟩
      simp only [CallbackPc.within, Bool.and_eq_true, Bool.or_eq_true, beq_iff_eq] at hin
      cases k <;> cases j <;> simp_all [CCallback.results, publishResults]
  all_goals repeat' (split at h)
  all_goals try contradiction
  all_goals
    obtain ⟨rfl, rfl⟩ := Prod.mk.inj (Option.some.inj h)
    exact .inl rfl

/-- `startMeasurement` touches the results of the ip test, in the download. -/
theorem readTlsOverhead_results (env : Env) (k : TestCase) (cb : CCallback) :
    (readTlsOverhead env k cb).results = cb.results ∨ k = .download ∧
      (readTlsOverhead env k cb).results = Function.update cb.results .ip
        (.ip cb.jMeasurementResultsIp.touchTlsOverhead) := by
  simp only [readTlsOverhead]
  split
  · rename_i h
    refine .inr ⟨h.1, ?_⟩
    funext j
    cases j <;> rfl
  · exact .inl rfl

/-- The messages so far against the results as they stand in the test case numbered `n`. -/
structure Filed (n : Nat) (log : List Event) (results : TestCase → Results) : Prop where
  started : ∀ j, j ≠ .ip → results j ≠ .empty j → j ∈ starts log
  final : ∀ k m, .platform k m ∈ log → m.cmd = .finish → (m.results k).Kept n (results k)
  silent : ∀ e ∈ log, e.Silent
  sorted : log.Pairwise Event.Final

namespace Filed

variable {n n' : Nat} {log : List Event} {results results' : TestCase → Results}

theorem mono (h : Filed n log results) (hn : n ≤ n') : Filed n' log results :=
  ⟨h.started, fun k m hm hcmd => (h.final k m hm hcmd).mono hn, h.silent, h.sorted⟩

/-- The results go out in a message. -/
theorem read (h : Filed n log results) {m : Message} (hm : m.results = results)
    (hn : n ≤ k.number) (hk : ∀ j, k.number < j.number → results j = .empty j) :
    Filed k.number (log ++ [.platform k m]) results where
  started j hip hj := by
    rw [starts_append]
    exact List.mem_append_left _ (h.started j hip hj)
  final l m' hl hcmd := by
    rcases List.mem_append.mp hl with hl | hl
    · exact (h.final l m' hl hcmd).mono hn
    · obtain ⟨-, rfl⟩ := Event.platform.inj (List.mem_singleton.mp hl)
      rw [hm]
      exact .same _
  silent e he := by
    rcases List.mem_append.mp he with he | he
    · exact h.silent e he
    · intro l m' j hl hj
      obtain ⟨rfl, rfl⟩ := Event.platform.inj ((List.mem_singleton.mp he).symm.trans hl)
      rw [hm]
      exact hk j hj
  sorted := by
    refine List.pairwise_append.mpr ⟨h.sorted, List.pairwise_singleton .., ?_⟩
    rintro e he e' he' l m' l' m'' rfl hcmd hl'
    obtain ⟨rfl, rfl⟩ := Event.platform.inj ((List.mem_singleton.mp he').symm.trans hl')
    rw [hm]
    exact (h.final l m' he hcmd).mono hn

theorem start (h : Filed n log results) (k : TestCase) :
    Filed n (log ++ [.startTestCase k]) results where
  started j hip hj := by
    rw [starts_append]
    exact List.mem_append_left _ (h.started j hip hj)
  final l m hl hcmd := h.final l m (by simpa using hl) hcmd
  silent e he := by
    rcases List.mem_append.mp he with he | he
    · exact h.silent e he
    · obtain rfl := List.mem_singleton.mp he
      intro l m j hl
      contradiction
  sorted := by
    refine List.pairwise_append.mpr ⟨h.sorted, List.pairwise_singleton .., ?_⟩
    intro e he e' he' l m l' m' hl hcmd hl'
    obtain rfl := List.mem_singleton.mp he'
    contradiction

/-- The results of a test case that is not finished change. -/
theorem write (h : Filed n log results) (hne : ∀ j, j ≠ k → results' j = results j)
    (hk : k ∈ starts log) (hfin : ¬ SentFinish k log) : Filed n log results' where
  started j hip hj := by
    by_cases hjk : j = k
    · exact hjk ▸ hk
    · exact h.started j hip (hne j hjk ▸ hj)
  final l m hl hcmd := by
    have hlk : l ≠ k := by
      rintro rfl
      exact hfin ⟨m, hl, hcmd⟩
    rw [hne l hlk]
    exact h.final l m hl hcmd
  silent := h.silent
  sorted := h.sorted

/-- The download begins. -/
theorem touch (h : Filed n log results) (hn : TestCase.download.number ≤ n) {info : IpInfo}
    (hip : results .ip = .ip info) :
    Filed n log (Function.update results .ip (.ip info.touchTlsOverhead)) where
  started j hj hne := by
    rw [Function.update_of_ne hj] at hne
    exact h.started j hj hne
  final k m hm hcmd := by
    by_cases hk : k = .ip
    · subst hk
      rw [Function.update_self]
      have hfinal := h.final .ip m hm hcmd
      rw [hip] at hfinal
      generalize hr : m.results .ip = r at hfinal ⊢
      cases hfinal with
      | same => exact .touched info hn
      | touched info h => exact info.touchTlsOverhead_idem.symm ▸ .touched info h
    · rw [Function.update_of_ne hk]
      exact h.final k m hm hcmd
  silent := h.silent
  sorted := h.sorted

end Filed

/-- The invariant over the whole measurement. -/
abbrev Sys.Filed (s : Sys) : Prop :=
  IasClient.Filed (s.main.bound - 1) s.sh.log s.sh.cb.results

/-- Nothing is there of the test cases behind the current one. -/
theorem Sys.Filed.empty_above (h : s.Filed) (hx : InOrder s)
    (hb : s.main.bound ≤ k.number + 1) {j : TestCase} (hj : k.number < j.number) :
    s.sh.cb.results j = .empty j := by
  by_contra hne
  have hip : j ≠ .ip := by
    rintro rfl
    cases k <;> contradiction
  have := (hx.started j (h.started j hip hne)).1
  omega

theorem mainStep_bound_le {created : Bool} (h : mainStep env created s = some s') :
    s.main.bound ≤ s'.main.bound := by
  have hafter (k : TestCase) : k.number + 1 ≤ (afterTestCase k).bound :=
    (bound_afterTestCase k).ge
  cases hm : s.main <;> simp only [mainStep, hm] at h
  case shutdown | endPhase =>
    obtain rfl := Option.some.inj h
    exact le_refl _
  all_goals repeat' (split at h)
  all_goals try contradiction
  all_goals
    obtain rfl := Option.some.inj h
    first
      | exact le_refl _
      | exact Nat.le_succ _
      | exact hafter _
      | exact (Nat.le_succ _).trans (hafter _)

theorem bound_inside {m : MainPc} (h : m.inside = some k) : m.bound = k.number + 1 := by
  cases m <;> simp_all [MainPc.inside, MainPc.bound]

variable {enabled : TestCase → Bool} {q : Option (TestCase × TestStage)}

/-- The stage of the test case whose timer is running. -/
theorem Told.telling_of (hT : Told enabled s q) (hp : s.phase.timer.pc ≠ .returned)
    (hk : s.phase.testCase = k) : ∃ st, Telling s k st := by
  cases q with
  | none => exact absurd (hT.silent rfl).2 hp
  | some q =>
    have htell := hT.telling q.1 q.2 rfl
    exact ⟨q.2, hk ▸ htell.testCase ▸ htell⟩

theorem Sys.Filed.step_timer (hf : s.Filed) (ht : Threads env s)
    (hx : InOrder s) (hT : Told enabled s q)
    (h : CTimer.run env s.phase.testCase s.phase.objects s.sh s.phase.timer = some (sh, t)) :
    Sys.Filed { s with sh := sh, phase := { s.phase with timer := t } } := by
  obtain ⟨k, hin, hcon⟩ := ht.timer_inside (CTimer.run_moves h)
  obtain ⟨hk, hn, -⟩ := ht.testCase k hin
  rw [hk] at h
  have hbound : s.main.bound - 1 = k.number := by rw [bound_inside hin, Nat.add_sub_cancel]
  have habove (j : TestCase) (hj : k.number < j.number) : s.sh.cb.results j = .empty j :=
    hf.empty_above hx (bound_inside hin).le hj
  have hread (m : Message) (hm : m.results = s.sh.cb.results) :
      IasClient.Filed (s.main.bound - 1) (s.sh.log ++ [.platform k m]) s.sh.cb.results :=
    (hf.read hm hbound.le habove).mono hbound.ge
  cases CTimer.run_effect h
  case emitted => exact hread _ (message_results ..)
  case completed => exact hread _ (message_results ..)
  case copied =>
    rcases CTimer.run_results (hk ▸ ht.timer) hn h with hsame | ⟨hne, c, p, hp, hsent⟩
    · rwa [Sys.Filed, hsame]
    · obtain ⟨st, htell⟩ := hT.telling_of (by simp [hp]) hk
      refine hf.write hne htell.started fun hfin => ?_
      rcases htell.sent k hfin with hlt | ⟨-, hst⟩
      · exact absurd hlt (lt_irrefl _)
      · have hfits := htell.fits
        rw [hp] at hfits
        cases st <;> simp_all [TestStage.isFinished, TestStage.fits]
  all_goals exact hf

theorem Sys.Filed.step_main (hf : s.Filed) (hx : InOrder s)
    (h : mainStep env true s = some s') : s'.Filed := by
  have hbound := mainStep_bound_le h
  cases hm : s.main <;> simp only [mainStep, hm] at h
  case startTestCase k =>
    obtain rfl := Option.some.inj h
    have hstart := (hf.start k).mono (Nat.sub_le_sub_right hbound 1)
    cases env.mobile
    · exact hstart
    · refine hstart.read (message_results ..) (le_refl _) fun j hj => ?_
      exact hf.empty_above hx (by simp [hm, MainPc.bound]) hj
  case startMeasurement k =>
    split at h <;> obtain rfl := Option.some.inj h
    · exact hf.mono (Nat.sub_le_sub_right hbound 1)
    · have hkept := hf.mono (Nat.sub_le_sub_right hbound 1)
      rcases readTlsOverhead_results env k s.sh.cb with hsame | ⟨rfl, htouch⟩
      · rwa [Sys.Filed, hsame]
      · rw [Sys.Filed, htouch]
        exact hkept.touch (le_refl _) rfl
  all_goals repeat' (split at h)
  all_goals try contradiction
  all_goals
    obtain rfl := Option.some.inj h
    exact hf.mono (Nat.sub_le_sub_right hbound 1)

theorem Sys.Filed.step (hf : s.Filed) (ht : Threads env s) (hx : InOrder s)
    (hT : Told enabled s q) (ha : Created a) (h : IasClient.step env a s = some s') :
    s'.Filed := by
  cases step_moved ht.past h with
  | main hm =>
    subst ha
    exact hf.step_main hx hm
  | timer hstep => exact hf.step_timer ht hx hT hstep
  | worker | stop | clock => exact hf

theorem Sys.Filed.run {rtt download upload : Bool} {old : Globals}
    (h : Run (IasClient.step env) (fun _ a => Created a)
      (measurementStart rtt download upload old) s) : s.Filed := by
  refine Run.invariant_of (I := Sys.Filed)
    (J := fun t => Threads env t ∧ InOrder t ∧
      ∃ q, Told (measurementStart rtt download upload old).sh.g.enabled t q) ?_ ?_ ?_ h
  · intro t hr
    obtain ⟨q, -, hT⟩ := Told.run hr
    exact ⟨Threads.run (fun _ _ h => h) hr, (Performing.run hr).1, q, hT⟩
  · exact fun t a u ⟨ht, hx, _, hT⟩ _ hf ha hs => hf.step ht hx hT ha hs
  · refine ⟨fun j _ hj => absurd ?_ hj, ?_, ?_, .nil⟩
    · cases j <;> rfl
    all_goals simp [measurementStart]

/-- Each message of a measurement reports of every test case finished before it what the finish of
that test case did, and nothing of the test cases to come. -/
theorem results_final (env : Env) (rtt download upload : Bool) (old : Globals)
    (h : Run (step env) (fun _ a => Created a) (measurementStart rtt download upload old) s) :
    s.sh.log.Pairwise Event.Final ∧ ∀ e ∈ s.sh.log, e.Silent :=
  ⟨(Sys.Filed.run h).sorted, (Sys.Filed.run h).silent⟩

/-- The download that follows an ip test without results finds no peer. -/
def closedIpUnreachable : List Action :=
  closedIp ++ [.worker 0 { ok := false }] ++ List.replicate 2 (Action.worker 0 {}) ++
    List.replicate 5 Action.timer

set_option maxRecDepth 4000 in
/-- The finish of the ip test reports nothing of it, the error of the download an empty overhead. -/
theorem results_final_closedIpUnreachable : ∃ s : Sys,
    (s.sh.log.filterMap fun
      | .platform _ m => some (m.cmd, m.ipInfo.nonempty, m.ipInfo.tlsOverheadNull)
      | .startTestCase _ => none) =
        [(.info, false, false), (.info, false, false), (.finish, false, false),
          (.error, true, true)] ∧
      s.sh.log.Pairwise Event.Final ∧ ∀ e ∈ s.sh.log, e.Silent :=
  ⟨_, by decide, results_final tlsEnv false true false Globals.default
    (run_of_exec closedIpUnreachable rfl)⟩

end IasClient
