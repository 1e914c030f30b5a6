import IasClient.Model.Upload
import IasClient.Framework.Run

namespace IasClient

open Framework

namespace Upload

/-- The lines 229 to 239: the first stream that comes here after TIMER_RUNNING makes its stamp the
origin. -/
def chooseFirst (stamp : UInt64) (g : Globals) : Globals :=
  if g.timerRunning = true ∧ g.timerIndexUploadFirst = 0 then
    { g with timerIndexUploadFirst := toInt stamp }
  else g

/-- The lines 241 to 247. -/
def clearGrid (g : Globals) (u : UploadData) : UploadData :=
  if g.timerIndexUploadFirst ≠ 0 ∧ UInt64.ofInt g.timerIndexUploadFirst = u.nTimeRecvExa then
    zeroGrid g.timerIndexUploadFirst g.measurementDuration u
  else u

/-- The lines 251 to 262. -/
def store (first : Int) (u : UploadData) : UploadData :=
  match u.mUpload.results.find? (toInt u.nTimeRecvExa) with
  | none => setResults (u.mUpload.results.insert (toInt u.nTimeRecvExa) u.nDataRecv) u
  | some _ => latch first
      (setResults (u.mUpload.results.add (toInt u.nTimeRecvExa) u.nDataRecv) u)

/-- What a token does after its decoding, when no other thread moves meanwhile. -/
def account (g : Globals) (u : UploadData) : Globals × UploadData :=
  let g := chooseFirst u.nTimeRecvExa g
  let u := clearGrid g u
  (g, if g.hasError then u else store g.timerIndexUploadFirst u)

/-- One pass of the loop over `vResponse`; `none` where `substr` throws or the fourth field is
missing. -/
def processToken (env : Env) (s : Globals × UploadData) (token : List Char) :
    Option (Globals × UploadData) :=
  match decode env token with
  | .short => some (account s.1 s.2)
  | .entry data stamp => some (account s.1 (setDecoded data stamp s.2))
  | .missingField | .outOfRange => none

/-- The loop over `vResponse`. -/
def processTokens (env : Env) (s : Globals × UploadData) (vResponse : List (List Char)) :
    Option (Globals × UploadData) :=
  vResponse.foldlM (processToken env) s

/-- `rbuffer` as the constructor of `sResponse` reads it: up to the first NUL. -/
def sResponse (chunk : List Char) : List Char := chunk.takeWhile (· ≠ '\x00')

/-- The receive loop over the chunks that `receive` hands over; it leaves at an empty one, and
`none` also stands for a chunk that fills `rbuffer`, which then has no NUL. -/
def receiveChunks (env : Env) (maxPacketSize : Nat) :
    List (List Char) → Globals × UploadData → Option (Globals × UploadData)
  | [], s => some s
  | chunk :: chunks, s =>
    if chunk = [] then some s
    else if chunk.length < maxPacketSize then
      (processTokens env s (env.tokenize (sResponse chunk) ';')).bind
        (receiveChunks env maxPacketSize chunks)
    else none

section Steps

variable {env : Env} {ok : Globals × Worker → Outcome → Prop} {g : Globals} {w : Worker}

/-- A step of an upload stream while no other thread moves. -/
def alone (env : Env) (o : Outcome) (s : Globals × Worker) : Option (Globals × Worker) :=
  run env o s.1 s.2

theorem alone_step {s t : Globals × Worker} {o : Outcome} (ho : ok s o)
    (h : alone env o s = some t) : Run (alone env) ok s t :=
  .tail .refl ho h

/-- The outcomes `ok` admits at every position but `receive`. -/
def Free (ok : Globals × Worker → Outcome → Prop) : Prop :=
  ∀ s, s.2.pc ≠ .receive → ok s {}

theorem run_chooseFirst (env : Env) (hok : Free ok) (hm : g.mutexTimerIndexUploadFirst = none)
    (hp : w.pc = .uploadRunning) : Run (alone env) ok (g, w)
      (chooseFirst w.upload.nTimeRecvExa g, { w with pc := .ifFirstSet }) := by
  by_cases hr : g.timerRunning = true
  · refine (alone_step (t := (g, { w with pc := .uploadFirst })) (hok _ (by simp [hp])) ?_).trans ?_
    · simp [alone, run, hp, Worker.goto, hr]
    by_cases hf : g.timerIndexUploadFirst = 0
    · let locked : Globals := { g with mutexTimerIndexUploadFirst := some w.pid }
      let chosen : Globals :=
        { locked with timerIndexUploadFirst := toInt w.upload.nTimeRecvExa }
      have h1 : Run (alone env) ok (g, { w with pc := .uploadFirst }) (g, { w with pc := .lock }) :=
        alone_step (hok _ (by simp)) (by simp [alone, run, Worker.goto, hf])
      have h2 : Run (alone env) ok (g, { w with pc := .lock })
          (locked, { w with pc := .uploadFirstAgain }) :=
        alone_step (hok _ (by simp)) (by simp [alone, run, Worker.goto, hm, locked])
      have h3 : Run (alone env) ok (locked, { w with pc := .uploadFirstAgain })
          (locked, { w with pc := .setFirst }) :=
        alone_step (hok _ (by simp)) (by simp [alone, run, Worker.goto, hf, locked])
      have h4 : Run (alone env) ok (locked, { w with pc := .setFirst })
          (chosen, { w with pc := .unlock }) :=
        alone_step (hok _ (by simp)) (by simp [alone, run, Worker.goto, chosen])
      have h5 : Run (alone env) ok (chosen, { w with pc := .unlock })
          (chooseFirst w.upload.nTimeRecvExa g, { w with pc := .ifFirstSet }) :=
        alone_step (hok _ (by simp))
          (by simp [alone, run, Worker.goto, chooseFirst, hr, hf, ← hm, chosen, locked])
      exact (((h1.trans h2).trans h3).trans h4).trans h5
    · have hno : chooseFirst w.upload.nTimeRecvExa g = g := by simp [chooseFirst, hf]
      rw [hno]
      exact alone_step (hok _ (by simp)) (by simp [alone, run, Worker.goto, hf])
  · have hno : chooseFirst w.upload.nTimeRecvExa g = g := by simp [chooseFirst, hr]
    rw [hno]
    exact alone_step (hok _ (by simp [hp])) (by simp [alone, run, hp, Worker.goto, hr])

theorem run_clearGrid (env : Env) (hok : Free ok) (hp : w.pc = .ifFirstSet) : Run (alone env) ok (g, w)
    (g, { w with upload := clearGrid g w.upload, pc := .uploadHasError }) := by
  by_cases hf : g.timerIndexUploadFirst = 0
  · have hno : clearGrid g w.upload = w.upload := by simp [clearGrid, hf]
    rw [hno]
    exact alone_step (hok _ (by simp [hp])) (by simp [alone, run, hp, Worker.goto, hf])
  refine (alone_step (t := (g, { w with pc := .ifFirstEqual })) (hok _ (by simp [hp])) ?_).trans ?_
  · simp [alone, run, hp, Worker.goto, hf]
  by_cases he : UInt64.ofInt g.timerIndexUploadFirst = w.upload.nTimeRecvExa
  · refine (alone_step (t := (g, { w with pc := .grid })) (hok _ (by simp)) ?_).trans ?_
    · simp [alone, run, Worker.goto, he]
    · exact alone_step (hok _ (by simp)) (by simp [alone, run, clearGrid, hf, he])
  · have hno : clearGrid g w.upload = w.upload := by simp [clearGrid, he]
    rw [hno]
    exact alone_step (hok _ (by simp)) (by simp [alone, run, Worker.goto, he])

theorem run_store (env : Env) (hok : Free ok) (he : g.hasError = false) (hp : w.pc = .uploadHasError) :
    Run (alone env) ok (g, w)
      (g, { w with upload := store g.timerIndexUploadFirst w.upload, pc := .nextToken }) := by
  refine (alone_step (t := (g, { w with pc := .store })) (hok _ (by simp [hp])) ?_).trans ?_
  · simp [alone, run, hp, Worker.goto, he]
  cases hf : w.upload.mUpload.results.find? (toInt w.upload.nTimeRecvExa) with
  | none => exact alone_step (hok _ (by simp)) (by simp [alone, run, store, hf])
  | some v =>
    refine (alone_step (hok _ (by simp)) (t := (g, { w with
      upload := setResults (w.upload.mUpload.results.add (toInt w.upload.nTimeRecvExa)
        w.upload.nDataRecv) w.upload
      pc := .latchFirst })) ?_).trans ?_
    · simp [alone, run, hf]
    · exact alone_step (hok _ (by simp)) (by simp [alone, run, store, hf])

theorem run_account (hok : Free ok) (hm : g.mutexTimerIndexUploadFirst = none)
    (hp : w.pc = .uploadRunning) : Run (alone env) ok (g, w)
      ((account g w.upload).1, { w with upload := (account g w.upload).2, pc := .nextToken }) := by
  have h1 := run_chooseFirst env hok hm hp
  have h2 := run_clearGrid env (g := chooseFirst w.upload.nTimeRecvExa g)
    (w := { w with pc := .ifFirstSet }) hok rfl
  refine (h1.trans h2).trans ?_
  by_cases he : (chooseFirst w.upload.nTimeRecvExa g).hasError = true
  · exact alone_step (hok _ (by simp)) (by simp [alone, run, Worker.goto, account, he])
  · have he : (chooseFirst w.upload.nTimeRecvExa g).hasError = false := by simpa using he
    have h3 := run_store env (w := { w with
      upload := clearGrid (chooseFirst w.upload.nTimeRecvExa g) w.upload
      pc := .uploadHasError }) hok he rfl
    simpa [account, he] using h3

theorem account_mutex (g : Globals) (u : UploadData) :
    (account g u).1.mutexTimerIndexUploadFirst = g.mutexTimerIndexUploadFirst := by
  simp only [account, chooseFirst]
  split <;> rfl

theorem processToken_mutex {s t : Globals × UploadData} {token : List Char}
    (h : processToken env s token = some t) :
    t.1.mutexTimerIndexUploadFirst = s.1.mutexTimerIndexUploadFirst := by
  unfold processToken at h
  split at h
  · simp only [Option.some.injEq] at h
    exact h ▸ account_mutex ..
  · simp only [Option.some.injEq] at h
    exact h ▸ account_mutex ..
  · contradiction
  · contradiction

theorem run_processToken (hok : Free ok) (hm : g.mutexTimerIndexUploadFirst = none)
    (hp : w.pc = .nextToken) {token : List Char} {rest : List (List Char)}
    (hv : w.vResponse = token :: rest) {t : Globals × UploadData}
    (h : processToken env (g, w.upload) token = some t) : Run (alone env) ok (g, w)
      (t.1, { w with vResponse := rest, upload := t.2, pc := .nextToken }) := by
  unfold processToken at h
  split at h
  · rename_i hd
    simp only [Option.some.injEq] at h
    subst h
    have h1 : Run (alone env) ok (g, w) (g, { w with vResponse := rest, pc := .uploadRunning }) :=
      alone_step (hok _ (by simp [hp])) (by simp [alone, run, hp, hv, hd])
    exact h1.trans (run_account (w := { w with vResponse := rest, pc := .uploadRunning }) hok hm rfl)
  · rename_i data stamp hd
    simp only [Option.some.injEq] at h
    subst h
    have h1 : Run (alone env) ok (g, w) (g, { w with
        vResponse := rest
        upload := setDecoded data stamp w.upload
        pc := .uploadRunning }) :=
      alone_step (hok _ (by simp [hp])) (by simp [alone, run, hp, hv, hd])
    exact h1.trans (run_account (w := { w with
      vResponse := rest
      upload := setDecoded data stamp w.upload
      pc := .uploadRunning }) hok hm rfl)
  · contradiction
  · contradiction

theorem run_processTokens (hok : Free ok) {vResponse : List (List Char)}
    (hm : g.mutexTimerIndexUploadFirst = none) (hp : w.pc = .nextToken)
    (hv : w.vResponse = vResponse) {t : Globals × UploadData}
    (h : processTokens env (g, w.upload) vResponse = some t) : Run (alone env) ok (g, w)
      (t.1, { w with vResponse := [], upload := t.2, pc := .whileRunning }) := by
  induction vResponse generalizing g w with
  | nil =>
    simp only [processTokens, List.foldlM_nil] at h
    cases h
    exact alone_step (hok _ (by simp [hp])) (by simp [alone, run, hp, hv, Worker.goto])
  | cons token rest ih =>
    simp only [processTokens, List.foldlM_cons, Option.bind_eq_bind, Option.bind_eq_some_iff] at h
    obtain ⟨r, hr, h⟩ := h
    have h1 := run_processToken hok hm hp hv hr
    have hm' := (processToken_mutex hr).trans hm
    exact h1.trans
      (ih (w := { w with vResponse := rest, upload := r.2, pc := .nextToken }) hm' rfl rfl h)

/-- What `receive` returns with a chunk. -/
def received (chunk : List Char) : Outcome := { code := chunk.length, text := sResponse chunk }

/-- The only `receive` on the way hands over the chunk. -/
def Delivers (chunk : List Char) (s : Globals × Worker) (o : Outcome) : Prop :=
  o = if s.2.pc = .receive then received chunk else {}

theorem free_delivers (chunk : List Char) : Free (Delivers chunk) :=
  fun _ h => by simp [Delivers, h]

/-- One pass of the receive loop of the fine steps does what `receiveChunks` does with a chunk. -/
theorem run_receive {chunk : List Char} (hc : chunk ≠ []) (hrun : g.running = true)
    (hact : g.timerActive = true) (hstop : g.timerStopped = false) (hd : w.dataReceived = true)
    (hm : g.mutexTimerIndexUploadFirst = none) (hp : w.pc = .whileRunning)
    {t : Globals × UploadData}
    (h : processTokens env (g, w.upload) (env.tokenize (sResponse chunk) ';') = some t) :
    Run (alone env) (Delivers chunk) (g, w)
      (t.1, { w with
        mResponse := chunk.length
        text := sResponse chunk
        tlsRecords := 0
        vResponse := []
        upload := t.2
        pc := .whileRunning }) := by
  have hok := free_delivers chunk
  have hlen : (chunk.length : Int) ≠ -1 := by omega
  have h1 : Run (alone env) (Delivers chunk) (g, w) (g, { w with pc := .whileActive }) :=
    alone_step (hok _ (by simp [hp])) (by simp [alone, run, hp, receiveLoop, Worker.goto, hrun])
  have h2 : Run (alone env) (Delivers chunk) (g, { w with pc := .whileActive })
      (g, { w with pc := .whileStopped }) :=
    alone_step (hok _ (by simp)) (by simp [alone, run, receiveLoop, Worker.goto, hact])
  have h3 : Run (alone env) (Delivers chunk) (g, { w with pc := .whileStopped })
      (g, { w with pc := .receive }) :=
    alone_step (hok _ (by simp)) (by simp [alone, run, receiveLoop, Worker.goto, hstop])
  let w₁ : Worker := { w with
    mResponse := chunk.length
    text := sResponse chunk
    tlsRecords := 0
    pc := .received }
  have h4 : Run (alone env) (Delivers chunk) (g, { w with pc := .receive }) (g, w₁) :=
    alone_step (o := received chunk) (by simp [Delivers])
      (by simp [alone, run, receiveLoop, hd, received, w₁])
  have h5 : Run (alone env) (Delivers chunk) (g, w₁)
      (g, { w₁ with vResponse := env.tokenize (sResponse chunk) ';', pc := .nextToken }) :=
    alone_step (hok _ (by simp [w₁])) (by simp [alone, run, hc, hlen, w₁])
  refine (((h1.trans h2).trans h3).trans h4).trans (h5.trans ?_)
  exact run_processTokens (w := { w₁ with
    vResponse := env.tokenize (sResponse chunk) ';', pc := .nextToken }) hok hm rfl rfl h

end Steps

end Upload

end IasClient
