import IasClient.Framework.Run
import IasClient.Model.Libtool
import IasClient.Model.Measurement

namespace IasClient

open Framework

namespace Ip

/-- `run` while no other thread moves, with the chunks that `receive` has still to hand over. -/
structure Receiving where
  g : Globals
  w : Worker
  chunks : List (List Char)

/-- What `receive` brings: the next chunk, and -1 or 0 after the last one. -/
def Receiving.outcome (silence : Int) (s : Receiving) : Outcome :=
  match s.chunks with
  | [] => { code := silence }
  | c :: _ => { code := c.length, text := c }

def receiving (env : Env) (silence : Int) (_ : Unit) (s : Receiving) : Option Receiving :=
  (Worker.run env .ip (s.outcome silence) s.g s.w).map fun r =>
    { g := r.1, w := r.2, chunks := if s.w.pc = .receive then s.chunks.tail else s.chunks }

abbrev Receives (env : Env) (silence : Int) : Receiving → Receiving → Prop :=
  Run (receiving env silence) fun _ _ => True

/-- The receive loop has come from the chunks to the end of `run`. -/
def Ends (env : Env) (silence : Int) (g : Globals) (w : Worker) (chunks : List (List Char))
    (s : Receiving) : Prop :=
  Receives env silence ⟨g, w, chunks⟩ s ∧ s.w.pc = .returned

/-- What the test leaves behind: `jMeasurementResultsIp` and the two flags. -/
def Receiving.result (s : Receiving) : IpInfo × Bool × Bool :=
  (s.w.jMeasurementResultsIp, s.g.tlsParametersMissing, s.g.hasError)

/-- The loop is entered. -/
def Open (g : Globals) : Prop :=
  g.running = true ∧ g.timerActive = true ∧ g.timerStopped = false

/-- `cmd` of the text is `ip_report`. -/
def isReport (env : Env) (c : List Char) : Bool := env.parse c "cmd" == "ip_report"

/-- `Json::parse` takes the text for a report, and the two parts of every cut for a null value. -/
structure Document (env : Env) (J : List Char) : Prop where
  nonempty : J ≠ []
  report : isReport env J = true
  cut : ∀ a b, a ++ b = J → a ≠ [] → b ≠ [] → (∀ key, env.parse a key = "") ∧
    ∀ key, env.parse b key = ""

/-- What the loop reads of the two reports is the same. -/
structure Agree (env : Env) (j j' : Json) : Prop where
  client : j "client" = j' "client"
  tls : env.readLong "TLS" 1 = 1 → tlsParameters env j = tlsParameters env j'
  parameters : env.readLong "TLS" 1 = 1 → tlsParameters env j = true →
    ∀ key ∈ ["tls_version", "tls_cipher_suite", "tls_overhead"], j key = j' key

/-- The results of a report that holds no TLS parameters. -/
def plainInfo (ipv6 : Bool) (j : Json) : IpInfo where
  client := some (j "client")
  clientIpVersion := some (if ipv6 then "v6" else "v4")

/-- The results of a report with its TLS parameters. -/
def fullInfo (ipv6 : Bool) (j : Json) : IpInfo :=
  { plainInfo ipv6 j with
    tlsVersion := some (j "tls_version")
    tlsCipherSuite := some (j "tls_cipher_suite")
    tlsOverhead := some (j "tls_overhead") }

/-- What a report makes of fresh results and of the two flags. -/
def report (env : Env) (ipv6 : Bool) (g : Globals) (j : Json) : IpInfo × Bool × Bool :=
  if env.readLong "TLS" 1 = 1 then
    if tlsParameters env j then (fullInfo ipv6 j, g.tlsParametersMissing, g.hasError)
    else (plainInfo ipv6 j, true, true)
  else (plainInfo ipv6 j, g.tlsParametersMissing, g.hasError)

variable {env : Env} {silence : Int} {g g' : Globals} {w w' : Worker} {c J : List Char}
variable {chunks cs : List (List Char)} {s t : Receiving}

section Report

variable {ipv6 : Bool} {j j' : Json}

theorem report_plain (ht : ¬ env.readLong "TLS" 1 = 1) :
    report env ipv6 g j = (plainInfo ipv6 j, g.tlsParametersMissing, g.hasError) :=
  if_neg ht

theorem report_full (ht : env.readLong "TLS" 1 = 1) (hp : tlsParameters env j = true) :
    report env ipv6 g j = (fullInfo ipv6 j, g.tlsParametersMissing, g.hasError) :=
  (if_pos ht).trans (if_pos hp)

theorem report_missing (ht : env.readLong "TLS" 1 = 1) (hp : ¬ tlsParameters env j = true) :
    report env ipv6 g j = (plainInfo ipv6 j, true, true) :=
  (if_pos ht).trans (if_neg hp)

/-- Two reports leave the same behind exactly if they agree. -/
theorem report_eq_iff :
    report env ipv6 g j = report env ipv6 g j' ↔ Agree env j j' := by
  by_cases ht : env.readLong "TLS" 1 = 1
  · have hfull {j : Json} (hp : tlsParameters env j = true) :
        report env ipv6 g j = (fullInfo ipv6 j, g.tlsParametersMissing, g.hasError) :=
      report_full ht hp
    have hmissing {j : Json} (hp : ¬ tlsParameters env j = true) :
        report env ipv6 g j = (plainInfo ipv6 j, true, true) :=
      report_missing ht hp
    by_cases hp : tlsParameters env j = true <;> by_cases hp' : tlsParameters env j' = true
    · rw [hfull hp, hfull hp', Prod.mk.injEq, IpInfo.mk.injEq]
      constructor
      · rintro ⟨⟨hclient, -, hversion, hsuite, hoverhead, -⟩, -⟩
        refine ⟨Option.some.inj hclient, fun _ => hp.trans hp'.symm, fun _ _ key hkey => ?_⟩
        simp only [List.mem_cons, List.not_mem_nil, or_false] at hkey
        rcases hkey with rfl | rfl | rfl
        · exact Option.some.inj hversion
        · exact Option.some.inj hsuite
        · exact Option.some.inj hoverhead
      · intro h
        have hsame := h.parameters ht hp
        simp only [fullInfo, plainInfo, h.client, hsame "tls_version" (by simp),
          hsame "tls_cipher_suite" (by simp), hsame "tls_overhead" (by simp), and_self]
    · rw [hfull hp, hmissing hp']
      refine iff_of_false (fun h => ?_) fun h => hp' ((h.tls ht).symm.trans hp)
      exact absurd (congrArg (·.1.tlsVersion) h) (by simp [fullInfo, plainInfo])
    · rw [hmissing hp, hfull hp']
      refine iff_of_false (fun h => ?_) fun h => hp ((h.tls ht).trans hp')
      exact absurd (congrArg (·.1.tlsVersion) h) (by simp [fullInfo, plainInfo])
    · rw [hmissing hp, hmissing hp']
      constructor
      · intro h
        refine ⟨Option.some.inj (congrArg (·.1.client) h), fun _ => ?_, fun _ h => absurd h hp⟩
        rw [(Bool.not_eq_true _).mp hp, (Bool.not_eq_true _).mp hp']
      · intro h
        simp only [plainInfo, h.client]
  · rw [report_plain ht, report_plain ht]
    constructor
    · intro h
      exact ⟨Option.some.inj (congrArg (·.1.client) h), fun h => absurd h ht, fun h => absurd h ht⟩
    · intro h
      simp only [plainInfo, h.client]

theorem report_ne {a b : Bool} : report env ipv6 g j ≠ ({}, a, b) := by
  intro h
  have hclient := congrArg (·.1.client) h
  simp only [report] at hclient
  split at hclient
  · split at hclient <;> contradiction
  · contradiction

end Report

theorem Receives.one (h : receiving env silence () s = some t) : Receives env silence s t :=
  .tail (a := ()) .refl trivial h

/-- No report has been taken so far. -/
structure Receiving.Waits (g : Globals) (w : Worker) (s : Receiving) : Prop where
  info : s.w.jMeasurementResultsIp = w.jMeasurementResultsIp
  ipv6 : s.w.ipv6 = w.ipv6
  missing : s.g.tlsParametersMissing = g.tlsParametersMissing
  hasError : s.g.hasError = g.hasError
  isOpen : Open s.g

theorem Receiving.Waits.report (h : s.Waits g w) (j : Json) :
    Ip.report env s.w.ipv6 s.g j = Ip.report env w.ipv6 g j := by
  simp only [Ip.report, h.ipv6, h.missing, h.hasError]

theorem Receiving.Waits.result (h : s.Waits g w) :
    s.result = (w.jMeasurementResultsIp, g.tlsParametersMissing, g.hasError) := by
  rw [Receiving.result, h.info, h.missing, h.hasError]

@[simp]
theorem Receiving.outcome_throws : (s.outcome silence).throws = false := by
  rw [Receiving.outcome]
  split <;> rfl

theorem receiving_run (h1 : s.w.pc ≠ .catchHasError) (h2 : s.w.pc ≠ .catchRunning)
    (h : run env (s.outcome silence) s.g s.w = some (g', w')) :
    receiving env silence () s =
      some ⟨g', w', if s.w.pc = .receive then s.chunks.tail else s.chunks⟩ := by
  have hworker : Worker.run env .ip (s.outcome silence) s.g s.w = some (g', w') := by
    rw [← h]
    cases hp : s.w.pc <;> simp_all [Worker.run, Worker.tryBlock]
  rw [receiving, hworker, Option.map_some]

/-- A step that hands nothing over. -/
theorem Receives.step {w : Worker} (hr : Receives env silence s ⟨g, w, cs⟩)
    (h1 : w.pc ≠ .catchHasError) (h2 : w.pc ≠ .catchRunning) (h3 : w.pc ≠ .receive)
    (h : run env (Receiving.outcome silence ⟨g, w, cs⟩) g w = some (g', w')) :
    Receives env silence s ⟨g', w', cs⟩ := by
  refine hr.tail (a := ()) trivial ?_
  rw [receiving_run (s := ⟨g, w, cs⟩) h1 h2 h, if_neg h3]

variable (env silence chunks) in
/-- The first test at the head of the loop. -/
theorem receives_head (hw : w.pc = .whileRunning) : Receives env silence ⟨g, w, chunks⟩
    ⟨g, { w with pc := if g.running then .whileActive else .returned }, chunks⟩ :=
  Receives.step .refl (by simp [hw]) (by simp [hw]) (by simp [hw])
    (by simp only [run, receiveLoop, hw, Worker.goto])

variable (env silence chunks) in
/-- A closed loop is left at its head. -/
theorem ends_of_not_open (hw : w.pc = .whileRunning) (ho : ¬ Open g) :
    ∃ s, Ends env silence g w chunks s ∧
      s.result = (w.jMeasurementResultsIp, g.tlsParametersMissing, g.hasError) := by
  have h1 := receives_head env silence chunks (g := g) hw
  by_cases hrunning : g.running = true
  · rw [if_pos hrunning] at h1
    have h2 := h1.step (by simp) (by simp) (by simp) rfl
    by_cases hactive : g.timerActive = true
    · simp only [if_pos hactive] at h2
      have h3 := h2.step (by simp) (by simp) (by simp) rfl
      have hstopped : g.timerStopped = true := by
        rw [← Bool.not_eq_false]
        exact fun hs => ho ⟨hrunning, hactive, hs⟩
      simp only [if_pos hstopped] at h3
      exact ⟨_, ⟨h3, rfl⟩, rfl⟩
    · simp only [if_neg hactive] at h2
      exact ⟨_, ⟨h2, rfl⟩, rfl⟩
  · rw [if_neg hrunning] at h1
    exact ⟨_, ⟨h1, rfl⟩, rfl⟩

variable (env silence chunks) in
/-- One `receive` of an open loop. -/
theorem receives_next (hw : w.pc = .whileRunning) (ho : Open g) :
    ∃ s, Receives env silence ⟨g, w, chunks⟩ s ∧ s.Waits g w ∧ s.w.pc = .received ∧
      s.w.mResponse = (Receiving.outcome silence ⟨g, w, chunks⟩).code ∧
      s.w.text = (Receiving.outcome silence ⟨g, w, chunks⟩).text ∧ s.chunks = chunks.tail := by
  have h1 := receives_head env silence chunks (g := g) hw
  rw [if_pos ho.1] at h1
  have h2 := h1.step (by simp) (by simp) (by simp) rfl
  simp only [if_pos ho.2.1] at h2
  have h3 := h2.step (by simp) (by simp) (by simp) rfl
  simp only [ho.2.2, Bool.false_eq_true, if_false] at h3
  have h4 := h3.tail (a := ()) trivial (receiving_run (by simp) (by simp) rfl)
  by_cases hd : w.dataReceived = true
  · simp only [if_pos hd, if_true] at h4
    exact ⟨_, h4, ⟨rfl, rfl, rfl, rfl, ho⟩, rfl, rfl, rfl, rfl⟩
  · simp only [if_neg hd, if_true] at h4
    have h5 := Receives.step h4 (by simp) (by simp) (by simp) rfl
    exact ⟨_, h5, ⟨rfl, rfl, rfl, rfl, ho⟩, rfl, rfl, rfl, rfl⟩

variable (env silence) in
/-- A chunk that was received and is no report takes the loop back to its head, and an error out of
it. -/
theorem receives_other (h : s.w.pc = .received)
    (ho : s.w.mResponse = -1 ∨ s.w.mResponse = 0 ∨ isReport env s.w.text = false) :
    Receives env silence s { s with w := { s.w with
      pc := if s.w.mResponse = -1 ∨ s.w.mResponse = 0 then .returned else .whileRunning } } := by
  refine Receives.step (g := s.g) (w := s.w) .refl (by simp [h]) (by simp [h]) (by simp [h]) ?_
  simp only [run, h, Worker.goto]
  by_cases hsilent : s.w.mResponse = -1 ∨ s.w.mResponse = 0
  · rw [if_pos hsilent, if_pos hsilent]
  · have hother : isReport env s.w.text = false := by tauto
    rw [if_neg hsilent, if_neg hsilent, if_neg]
    simpa [isReport] using hother

variable (env silence) in
/-- A report that was received ends the loop. -/
theorem ends_report (h : s.w.pc = .received) (h1 : s.w.mResponse ≠ -1) (h0 : s.w.mResponse ≠ 0)
    (hfresh : s.w.jMeasurementResultsIp = {}) (hr : isReport env s.w.text = true) :
    ∃ t, Receives env silence s t ∧ t.w.pc = .returned ∧
      t.result = report env s.w.ipv6 s.g (env.parse s.w.text) := by
  have hclient : Receives env silence s { s with w := { s.w with pc := .ipClient } } := by
    refine Receives.step (g := s.g) (w := s.w) .refl (by simp [h]) (by simp [h]) (by simp [h]) ?_
    have hreport : env.parse s.w.text "cmd" = "ip_report" := by simpa [isReport] using hr
    simp only [run, h, Worker.goto, h1, h0, hreport, or_self, if_false, if_true]
  have htls := hclient.step (by simp) (by simp) (by simp) rfl
  simp only [hfresh] at htls
  by_cases ht : env.readLong "TLS" 1 = 1
  · simp only [if_pos ht] at htls
    by_cases hp : tlsParameters env (env.parse s.w.text) = true
    · have hversion := htls.step (by simp) (by simp) (by simp)
        (by simp only [run]; rw [if_pos hp])
      have hend := hversion.step (by simp) (by simp) (by simp) rfl
      exact ⟨_, hend, rfl, (report_full ht hp).symm⟩
    · have hmissing := htls.step (by simp) (by simp) (by simp)
        (by simp only [run]; rw [if_neg hp]; rfl)
      have hflag := hmissing.step (by simp) (by simp) (by simp) rfl
      have hversion := hflag.step (by simp) (by simp) (by simp) rfl
      have hend := hversion.step (by simp) (by simp) (by simp) rfl
      exact ⟨_, hend, rfl, (report_missing ht hp).symm⟩
  · simp only [if_neg ht] at htls
    have hend := htls.step (by simp) (by simp) (by simp) rfl
    exact ⟨_, hend, rfl, (report_plain ht).symm⟩

variable (env) in
/-- The loop ends with the first chunk that is a report, and without one when there is none. -/
theorem ends_loop (hsilence : silence = -1 ∨ silence = 0) (hne : ∀ c ∈ chunks, c ≠ [])
    (hw : w.pc = .whileRunning) (ho : Open g) (hfresh : w.jMeasurementResultsIp = {}) :
    ∃ s, Ends env silence g w chunks s ∧
      s.result = (chunks.find? (isReport env)).elim ({}, g.tlsParametersMissing, g.hasError)
        fun c => report env w.ipv6 g (env.parse c) := by
  induction chunks generalizing g w with
  | nil =>
    obtain ⟨s, hrun, hwaits, hpc, hcode, -, -⟩ :=
      receives_next env silence [] hw ho
    have hsilent : s.w.mResponse = -1 ∨ s.w.mResponse = 0 := hcode ▸ hsilence
    have hlast := receives_other env silence hpc
      (hsilent.imp id .inl)
    rw [if_pos hsilent] at hlast
    refine ⟨_, ⟨hrun.trans hlast, rfl⟩, ?_⟩
    rw [List.find?_nil, Option.elim_none, ← hfresh]
    exact hwaits.result
  | cons c cs ih =>
    obtain ⟨s, hrun, hwaits, hpc, hcode, htext, hrest⟩ :=
      receives_next env silence (c :: cs) hw ho
    have hlength : c.length ≠ 0 := fun h => hne c (by simp) (List.eq_nil_of_length_eq_zero h)
    have hcode' : s.w.mResponse = c.length := hcode
    have h1 : s.w.mResponse ≠ -1 := by omega
    have h0 : s.w.mResponse ≠ 0 := by omega
    have htext' : s.w.text = c := htext
    by_cases hr : isReport env c = true
    · rw [List.find?_cons_of_pos hr, Option.elim_some]
      obtain ⟨t, hend, hreturned, hresult⟩ := ends_report env silence hpc
        h1 h0 (hwaits.info.trans hfresh) (htext'.symm ▸ hr)
      refine ⟨t, ⟨hrun.trans hend, hreturned⟩, ?_⟩
      rw [hresult, htext', hwaits.report]
    · rw [List.find?_cons_of_neg hr]
      have hother := receives_other env silence hpc
        (.inr (.inr (htext'.symm ▸ (Bool.not_eq_true _).mp hr)))
      rw [if_neg (not_or.mpr ⟨h1, h0⟩), hrest] at hother
      obtain ⟨t, ⟨hend, hreturned⟩, hresult⟩ := ih (fun d hd => hne d (by simp [hd]))
        (w := { s.w with pc := .whileRunning }) rfl hwaits.isOpen (hwaits.info.trans hfresh)
      refine ⟨t, ⟨(hrun.trans hother).trans hend, hreturned⟩, ?_⟩
      rw [hresult]
      simp only [hwaits.report, hwaits.missing, hwaits.hasError]

theorem Ends.unique (hs : Ends env silence g w chunks s) (ht : Ends env silence g w chunks t) :
    s = t := by
  have hstuck (u : Receiving) (hu : u.w.pc = .returned) : receiving env silence () u = none := by
    simp [receiving, Worker.run, Worker.tryBlock, run, connect, hu]
  exact Run.unique hs.1 ht.1 (hstuck s hs.2) (hstuck t ht.2)

theorem not_isReport {c : List Char} (h : ∀ key, env.parse c key = "") : isReport env c = false := by
  rw [isReport, h "cmd"]
  rfl

/-- Of a document in two or more chunks, the first and the last are no reports. -/
theorem Document.find? (hJ : Document env J) (hne : ∀ c ∈ chunks, c ≠ [])
    (hchunks : chunks.flatten = J) (h : chunks ≠ [J]) :
    chunks.find? (isReport env) = chunks.tail.dropLast.find? (isReport env) := by
  cases chunks with
  | nil => exact absurd hchunks.symm hJ.nonempty
  | cons a rest =>
    rcases rest.eq_nil_or_concat' with rfl | ⟨inner, b, rfl⟩
    · rw [List.flatten_cons, List.flatten_nil, List.append_nil] at hchunks
      exact absurd (congrArg (fun c => [c]) hchunks) h
    · have ha : a ≠ [] := hne a (by simp)
      have hb : b ≠ [] := hne b (by simp)
      have hfirst := (hJ.cut a (inner.flatten ++ b) (by rw [← hchunks]; simp) ha
        (by simp [hb])).1
      have hlast := (hJ.cut (a ++ inner.flatten) b (by rw [← hchunks]; simp) (by simp [ha]) hb).2
      rw [List.find?_cons_of_neg (by simp [not_isReport hfirst]), List.tail_cons,
        List.dropLast_concat, List.find?_append]
      simp [not_isReport hlast]

/-- The loop ends with the results of the document in one chunk exactly if it is not entered, the
document does come in one chunk, or the first of the inner chunks that is itself taken for a report
agrees with the document. -/
theorem ip_segmentation_iff (env : Env) (silence : Int) (hsilence : silence = -1 ∨ silence = 0)
    (g : Globals) (w : Worker) (hw : w.pc = .whileRunning) (hfresh : w.jMeasurementResultsIp = {})
    (J : List Char) (hJ : Document env J) (chunks : List (List Char)) (hne : ∀ c ∈ chunks, c ≠ [])
    (hchunks : chunks.flatten = J) :
    (∃ s, Ends env silence g w chunks s) ∧ (∃ t, Ends env silence g w [J] t) ∧
      ∀ s t, Ends env silence g w chunks s → Ends env silence g w [J] t →
        (s.result = t.result ↔ ¬ Open g ∨ chunks = [J] ∨
          ∃ c, chunks.tail.dropLast.find? (isReport env) = some c ∧
            Agree env (env.parse c) (env.parse J)) := by
  have hone : ∀ c ∈ [J], c ≠ [] := fun c hc => List.mem_singleton.mp hc ▸ hJ.nonempty
  by_cases ho : Open g
  · obtain ⟨s, hs, hsr⟩ :=
      ends_loop env hsilence hne hw ho hfresh
    obtain ⟨t, ht, htr⟩ := ends_loop env hsilence hone hw ho hfresh
    rw [List.find?_cons_of_pos hJ.report, Option.elim_some] at htr
    refine ⟨⟨s, hs⟩, ⟨t, ht⟩, fun s' t' hs' ht' => ?_⟩
    rw [← hs.unique hs', ← ht.unique ht', hsr, htr]
    by_cases hwhole : chunks = [J]
    · refine iff_of_true ?_ (.inr (.inl hwhole))
      rw [hwhole, List.find?_cons_of_pos hJ.report, Option.elim_some]
    · rw [hJ.find? hne hchunks hwhole]
      cases hinner : chunks.tail.dropLast.find? (isReport env) with
      | none =>
        refine iff_of_false (fun h => report_ne h.symm) ?_
        rintro (h | h | ⟨c, hc, -⟩)
        · exact h ho
        · exact hwhole h
        · contradiction
      | some c =>
        rw [Option.elim_some, report_eq_iff]
        constructor
        · exact fun h => .inr (.inr ⟨c, rfl, h⟩)
        · rintro (h | h | ⟨d, hd, h⟩)
          · exact absurd ho h
          · exact absurd h hwhole
          · exact Option.some.inj hd ▸ h
  · obtain ⟨s, hs, hsr⟩ :=
      ends_of_not_open env silence chunks hw ho
    obtain ⟨t, ht, htr⟩ := ends_of_not_open env silence [J] hw ho
    refine ⟨⟨s, hs⟩, ⟨t, ht⟩, fun s' t' hs' ht' => ?_⟩
    rw [← hs.unique hs', ← ht.unique ht', hsr, htr]
    exact iff_of_true rfl (.inl ho)

/-- A text that is no object of plain strings. -/
def noObject (c : List Char) : Bool :=
  match Libtool.quoted c with
  | ['\x7b'] :: rest => (Libtool.members rest).isNone
  | _ => true

theorem parse_noObject {c : List Char} (h : noObject c = true) (key : String) :
    Libtool.parse c key = "" := by
  rw [Libtool.parse]
  split
  · rename_i rest hc
    simp only [noObject, hc, Option.isNone_iff_eq_none] at h
    rw [h]
    rfl
  · rfl

/-- Without TLS. -/
def parsing : Env := { Env.default with parse := Libtool.parse }

def openIp : Globals := { Globals.default with timerActive := true }

def atLoop : Worker := { newWorker parsing .ip 0 { mTestCase := .ip } with pc := .whileRunning }

def addressReport : List Char :=
  "\x7b\"cmd\":\"ip_report\",\"client\":\"::1\"\x7d".toList

theorem addressReport_document : Document parsing addressReport := by
  refine ⟨by decide, by decide, ?_⟩
  have hcuts : ∀ n < addressReport.length, n ≠ 0 →
      noObject (addressReport.take n) = true ∧ noObject (addressReport.drop n) = true := by
    decide
  intro a b hab ha hb
  have hlength := congrArg List.length hab
  rw [List.length_append] at hlength
  have hn : a.length ≠ 0 := fun h => ha (List.eq_nil_of_length_eq_zero h)
  have hm : b.length ≠ 0 := fun h => hb (List.eq_nil_of_length_eq_zero h)
  obtain ⟨hleft, hright⟩ := hcuts a.length (by omega) hn
  rw [← hab, List.take_left'] at hleft
  rw [← hab, List.drop_left'] at hright
  · exact ⟨parse_noObject hleft, parse_noObject hright⟩
  all_goals rfl

/-- The report, cut after its ninth byte. -/
def cutReport : List (List Char) := [addressReport.take 9, addressReport.drop 9]

theorem ip_segmentation_iff_cutReport : ∃ s t, Ends parsing 0 openIp atLoop cutReport s ∧
    Ends parsing 0 openIp atLoop [addressReport] t ∧ s.result ≠ t.result := by
  obtain ⟨⟨s, hs⟩, ⟨t, ht⟩, h⟩ := ip_segmentation_iff parsing 0 (.inr rfl) openIp atLoop rfl rfl
    addressReport addressReport_document cutReport (by decide) (by decide)
  refine ⟨s, t, hs, ht, fun hresult => ?_⟩
  rcases (h s t hs ht).mp hresult with hclosed | hwhole | ⟨c, hc, -⟩
  · exact hclosed ⟨rfl, rfl, rfl⟩
  · exact absurd hwhole (by decide)
  · contradiction

/-- Cut after its ninth byte, the report is lost. -/
theorem cutReport_lost : ∃ s t, Ends parsing 0 openIp atLoop cutReport s ∧
    Ends parsing 0 openIp atLoop [addressReport] t ∧
      s.w.jMeasurementResultsIp.client = none ∧ t.w.jMeasurementResultsIp.client = some "::1" :=
  ⟨_, _, ⟨run_of_exec (List.replicate 16 ()) rfl, by rfl⟩,
    ⟨run_of_exec (List.replicate 8 ()) rfl, by rfl⟩, by rfl, by rfl⟩

end Ip

end IasClient
