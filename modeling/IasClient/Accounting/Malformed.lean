import IasClient.Accounting.Segmentation
import IasClient.Model.Measurement
import Mathlib.Data.UInt

namespace IasClient

open Framework

namespace Upload

/-- The fields that the decoding of a token reads are there: it reads none of two or fewer, and six
characters of the fourth otherwise. -/
def WithinFields (fields : List (List Char)) : Prop :=
  fields.length ≤ 2 ∨ ∃ stamp : List Char, fields[3]? = some stamp ∧ 6 ≤ stamp.length

theorem withinFields_iff {env : Env} {token : List Char} :
    WithinFields (env.tokenize token ',') ↔
      decode env token ≠ .missingField ∧ decode env token ≠ .outOfRange := by
  unfold decode
  rcases env.tokenize token ',' with _ | ⟨data, _ | ⟨x, _ | ⟨time, _ | ⟨stamp, rest⟩⟩⟩⟩
  · simp [WithinFields]
  · simp [WithinFields]
  · simp [WithinFields]
  · simp [WithinFields]
  · by_cases hsix : stamp.length < 6
    · simp [WithinFields, lastSix, hsix]
    · simp [WithinFields, lastSix, hsix, Nat.not_lt.mp hsix]

/-- A step of the stream, or a change of the globals by the other threads. -/
inductive EntryAction
  | own (o : Outcome)
  | others (g : Globals)

def entryStep (env : Env) (a : EntryAction) (s : Globals × Worker) : Option (Globals × Worker) :=
  match a with
  | .own o => Worker.run env .upload o s.1 s.2
  | .others g => some (g, s.2)

/-- The stream does not receive again, and what it calls does not throw. -/
def BeforeReceive (s : Globals × Worker) : EntryAction → Prop
  | .own o => o.throws = false ∧ s.2.pc ≠ .receive
  | .others _ => True

instance (s : Globals × Worker) : DecidablePred (BeforeReceive s)
  | .own o => inferInstanceAs (Decidable (o.throws = false ∧ s.2.pc ≠ .receive))
  | .others _ => .isTrue trivial

/-- Up to the next `receive`, whatever the other threads do, the stream reads no missing field, no
exception leaves a step, and it neither sets `hasError` nor clears RUNNING. -/
def Harmless (env : Env) (s : Globals × Worker) : Prop :=
  ∀ t, Run (entryStep env) BeforeReceive s t → ∀ o u, BeforeReceive t (.own o) →
    entryStep env (.own o) t = some u →
      u.2.pc ≠ .aborted ∧ u.2.pc ≠ .catchHasError ∧ u.1.hasError = t.1.hasError ∧
        u.1.running = t.1.running

/-- The tokens that the stream has still to decode are within their fields. -/
def Walking (env : Env) (w : Worker) : Prop :=
  match w.pc with
  | .received =>
    0 < w.mResponse ∧ ∀ token ∈ env.tokenize w.text ';', WithinFields (env.tokenize token ',')
  | .nextToken | .uploadRunning | .uploadFirst | .lock | .uploadFirstAgain | .setFirst | .unlock
  | .ifFirstSet | .ifFirstEqual | .grid | .uploadHasError | .store | .latchFirst =>
    ∀ token ∈ w.vResponse, WithinFields (env.tokenize token ',')
  | .whileRunning | .whileActive | .whileStopped | .receive | .stopSender | .returned => True
  | _ => False

theorem walking_step {env : Env} {o : Outcome} {g g' : Globals} {w w' : Worker}
    (h : Walking env w) (ho : o.throws = false) (hpc : w.pc ≠ .receive)
    (hs : Worker.run env .upload o g w = some (g', w')) :
    Walking env w' ∧ g'.hasError = g.hasError ∧ g'.running = g.running := by
  cases hp : w.pc <;> simp only [Walking, hp] at h <;> try contradiction
  all_goals simp only [Worker.run, ho, hp, Worker.tryBlock, run, receiveLoop, connect,
    Worker.goto, Bool.false_eq_true, if_false] at hs
  case received =>
    obtain ⟨hr, htokens⟩ := h
    rw [if_neg (by omega)] at hs
    simp only [Option.some.injEq, Prod.mk.injEq] at hs
    obtain ⟨rfl, rfl⟩ := hs
    exact ⟨htokens, rfl, rfl⟩
  case nextToken =>
    cases hv : w.vResponse with
    | nil =>
      simp only [hv, Option.some.injEq, Prod.mk.injEq] at hs
      obtain ⟨rfl, rfl⟩ := hs
      exact ⟨trivial, rfl, rfl⟩
    | cons token rest =>
      rw [hv] at h
      have hrest := fun token' ht => h token' (List.mem_cons_of_mem token ht)
      obtain ⟨hfield, hrange⟩ := withinFields_iff.mp (h token List.mem_cons_self)
      simp only [hv] at hs
      cases hd : decode env token with
      | short =>
        simp only [hd, Option.some.injEq, Prod.mk.injEq] at hs
        obtain ⟨rfl, rfl⟩ := hs
        exact ⟨hrest, rfl, rfl⟩
      | entry data stamp =>
        simp only [hd, Option.some.injEq, Prod.mk.injEq] at hs
        obtain ⟨rfl, rfl⟩ := hs
        exact ⟨hrest, rfl, rfl⟩
      | missingField => exact absurd hd hfield
      | outOfRange => exact absurd hd hrange
  all_goals repeat' (split at hs)
  all_goals try contradiction
  all_goals
    simp only [Option.some.injEq, Prod.mk.injEq] at hs
    obtain ⟨rfl, rfl⟩ := hs
    exact ⟨h, rfl, rfl⟩

theorem harmless_of_walking {env : Env} {s : Globals × Worker} (h : Walking env s.2) :
    Harmless env s := by
  intro t ht o u ho hs
  have hwalking : Walking env t.2 := by
    refine Run.invariant (I := fun t => Walking env t.2) ?_ h ht
    intro t a u hI ha hstep
    cases a with
    | own o => exact (walking_step hI ha.1 ha.2 hstep).1
    | others g =>
      simp only [entryStep, Option.some.injEq] at hstep
      subst hstep
      exact hI
  obtain ⟨hu, herror, hrunning⟩ := walking_step hwalking ho.1 ho.2 hs
  refine ⟨?_, ?_, herror, hrunning⟩
  · intro hpc
    simp only [Walking, hpc] at hu
  · intro hpc
    simp only [Walking, hpc] at hu

/-- A step of the stream while no other thread moves is one among the others. -/
theorem entryStep_of_alone {env : Env} {o : Outcome} {s t : Globals × Worker}
    (ho : o.throws = false) (h : alone env o s = some t) : entryStep env (.own o) s = some t := by
  have hcatch : s.2.pc ≠ .catchHasError ∧ s.2.pc ≠ .catchRunning := by
    constructor
    · intro hp
      simp only [alone, run, hp, connect] at h
      contradiction
    · intro hp
      simp only [alone, run, hp, connect] at h
      contradiction
  rw [entryStep, Worker.run, ho, if_neg Bool.false_ne_true]
  split
  · exact absurd (by assumption) hcatch.1
  · exact absurd (by assumption) hcatch.2
  · exact h

theorem run_of_alone {env : Env} {s t : Globals × Worker}
    (h : Run (alone env) (fun s o => BeforeReceive s (.own o)) s t) :
    Run (entryStep env) BeforeReceive s t := by
  induction h with
  | refl => exact .refl
  | tail _ ho hs ih => exact ih.tail ho (entryStep_of_alone ho.1 hs)

theorem processToken_eq_some {env : Env} {token : List Char}
    (h : WithinFields (env.tokenize token ',')) (s : Globals × UploadData) :
    ∃ t, processToken env s token = some t := by
  obtain ⟨hfield, hrange⟩ := withinFields_iff.mp h
  unfold processToken
  cases hd : decode env token with
  | short => exact ⟨_, rfl⟩
  | entry data stamp => exact ⟨_, rfl⟩
  | missingField => exact absurd hd hfield
  | outOfRange => exact absurd hd hrange

/-- The stream comes to the first token that is not within its fields, and fails there. -/
theorem not_harmless {env : Env} {g : Globals} {w : Worker}
    (hm : g.mutexTimerIndexUploadFirst = none) (hp : w.pc = .nextToken) {token : List Char}
    (hmem : token ∈ w.vResponse) (hbad : ¬ WithinFields (env.tokenize token ',')) :
    ¬ Harmless env (g, w) := by
  generalize hv : w.vResponse = vResponse at hmem
  induction vResponse generalizing g w with
  | nil => exact absurd hmem List.not_mem_nil
  | cons first rest ih =>
    by_cases hfirst : WithinFields (env.tokenize first ',')
    · have hrest : token ∈ rest := by
        cases hmem with
        | head => exact absurd hfirst hbad
        | tail _ hrest => exact hrest
      obtain ⟨t, ht⟩ := processToken_eq_some hfirst (g, w.upload)
      have hrun : Run (alone env) (fun s o => BeforeReceive s (.own o)) (g, w)
          (t.1, { w with vResponse := rest, upload := t.2, pc := .nextToken }) :=
        run_processToken (fun _ hpc => ⟨rfl, hpc⟩) hm hp hv ht
      have hbad' := ih (g := t.1) (w := { w with vResponse := rest, upload := t.2, pc := .nextToken })
        ((processToken_mutex ht).trans hm) rfl rfl hrest
      intro hharmless
      exact hbad' fun s hs => hharmless s ((run_of_alone hrun).trans hs)
    · intro hharmless
      rw [withinFields_iff] at hfirst
      cases hd : decode env first with
      | missingField =>
        have hstep : entryStep env (.own {}) (g, w) = some (g, { w with pc := .aborted }) :=
          entryStep_of_alone rfl (by simp only [alone, run, hp, hv, hd, Worker.goto])
        exact (hharmless _ .refl {} _ ⟨rfl, by simp [hp]⟩ hstep).1 rfl
      | outOfRange =>
        have hstep : entryStep env (.own {}) (g, w) = some (g, { w with pc := .catchHasError }) :=
          entryStep_of_alone rfl (by simp only [alone, run, hp, hv, hd, Worker.goto])
        exact (hharmless _ .refl {} _ ⟨rfl, by simp [hp]⟩ hstep).2.1 rfl
      | short => simp [hd] at hfirst
      | entry data stamp => simp [hd] at hfirst

/-- A text received does no harm exactly when each of its tokens has at most two fields, or a
fourth one of six characters or more. -/
theorem harmless_iff {env : Env} {g : Globals} {w : Worker}
    (hm : g.mutexTimerIndexUploadFirst = none) (hp : w.pc = .received) (hr : 0 < w.mResponse) :
    Harmless env (g, w) ↔
      ∀ token ∈ env.tokenize w.text ';', WithinFields (env.tokenize token ',') := by
  constructor
  · intro hharmless token hmem
    by_contra hbad
    have hstep : alone env {} (g, w) =
        some (g, { w with vResponse := env.tokenize w.text ';', pc := .nextToken }) := by
      simp only [alone, run, hp]
      rw [if_neg (by omega)]
    have hrun : Run (entryStep env) BeforeReceive (g, w)
        (g, { w with vResponse := env.tokenize w.text ';', pc := .nextToken }) :=
      .tail .refl (a := .own {}) ⟨rfl, by simp [hp]⟩ (entryStep_of_alone rfl hstep)
    have hbadRun := not_harmless (g := g)
      (w := { w with vResponse := env.tokenize w.text ';', pc := .nextToken }) hm rfl hmem hbad
    exact hbadRun fun t ht => hharmless t (hrun.trans ht)
  · intro htokens
    apply harmless_of_walking
    simp only [Walking, hp]
    exact ⟨hr, htokens⟩

/-- A stream that has just received a text. -/
def withText (text : String) : Globals × Worker :=
  (Globals.default, { pc := .received, pid := 0, mResponse := text.length, text := text.toList })

theorem harmless_iff_twoReports :
    Harmless Env.default (withText "100,1,7,123456;100,1,8,123461;x,y;") :=
  (harmless_iff rfl rfl (by decide)).mpr (by
    intro token htoken
    rw [withinFields_iff]
    revert token
    decide)

/-- A token of three fields lacks the one that is read; a stamp of four digits sets `hasError` and
clears RUNNING. -/
theorem malformedText_harms :
    (∃ t, Run (entryStep Env.default) BeforeReceive (withText "100,1,7;") t ∧
      t.2.pc = .aborted) ∧
    ∃ t, Run (entryStep Env.default) BeforeReceive (withText "100,1,7,1234;") t ∧
      t.1.hasError = true ∧ t.1.running = false :=
  ⟨⟨_, run_of_exec (List.replicate 2 (.own {})) rfl, by rfl⟩,
    ⟨_, run_of_exec (List.replicate 4 (.own {})) rfl, by rfl, by rfl⟩⟩

/-- The fields of the last entry decoded name the origin. -/
def AtOrigin (g : Globals) (u : UploadData) : Prop :=
  g.timerIndexUploadFirst ≠ 0 ∧ UInt64.ofInt g.timerIndexUploadFirst = u.nTimeRecvExa

instance (g : Globals) (u : UploadData) : Decidable (AtOrigin g u) :=
  inferInstanceAs (Decidable (_ ∧ _))

/-- Accounting the last entry decoded once more would change nothing: there is no origin to choose,
the grid that would be emptied is empty, the bin of the entry holds what it would hold again, and
the slow-start size is set or would be set to 0. -/
structure Quiet (g : Globals) (u : UploadData) : Prop where
  origin : g.timerRunning = true → g.timerIndexUploadFirst = 0 → toInt u.nTimeRecvExa = 0
  grid : AtOrigin g u → ∀ k ∈ gridKeys g.timerIndexUploadFirst g.measurementDuration,
    k = toInt u.nTimeRecvExa ∧ g.hasError = false ∨ u.mUpload.results.find? k = some 0
  bin : g.hasError = false →
    if AtOrigin g u ∧ toInt u.nTimeRecvExa ∈ gridKeys g.timerIndexUploadFirst g.measurementDuration
    then u.mUpload.results.find? (toInt u.nTimeRecvExa) = some u.nDataRecv
    else u.nDataRecv = 0 ∧ (u.mUpload.results.find? (toInt u.nTimeRecvExa)).isSome = true
  slow : g.hasError = false → u.mUpload.datasizeSlowStart = 0 →
    UInt64.ofInt g.timerIndexUploadFirst = u.nTimeRecvExa →
      u.mUpload.datasizeTotal = u.nDataRecv

theorem chooseFirst_eq_self_iff {stamp : UInt64} {g : Globals} : chooseFirst stamp g = g ↔
    (g.timerRunning = true → g.timerIndexUploadFirst = 0 → toInt stamp = 0) := by
  unfold chooseFirst
  split
  · rename_i h
    constructor
    · intro heq _ _
      exact (congrArg Globals.timerIndexUploadFirst heq).trans h.2
    · intro hzero
      rw [hzero h.1 h.2, ← h.2]
  · rename_i h
    simp only [true_iff]
    exact fun hr hf => absurd ⟨hr, hf⟩ h

theorem find?_clearGrid (g : Globals) (u : UploadData) (k : Int) :
    (clearGrid g u).mUpload.results.find? k =
      if AtOrigin g u ∧ k ∈ gridKeys g.timerIndexUploadFirst g.measurementDuration then some 0
      else u.mUpload.results.find? k := by
  unfold clearGrid
  split
  · rename_i h
    have hat : AtOrigin g u := h
    simp only [zeroGrid, OrdMap.find?_foldl_insert, hat, true_and]
  · rename_i h
    have hat : ¬ AtOrigin g u := h
    simp only [hat, false_and, if_false]

/-- Apart from the bins, clearing the grid changes nothing. -/
theorem clearGrid_eq (g : Globals) (u : UploadData) :
    clearGrid g u = setResults (clearGrid g u).mUpload.results u := by
  unfold clearGrid
  split <;> rfl

theorem setResults_eq_self_iff {m : OrdMap Int UInt64} {u : UploadData} :
    setResults m u = u ↔ ∀ k, m.find? k = u.mUpload.results.find? k := by
  constructor
  · intro h k
    exact congrArg (fun u : UploadData => u.mUpload.results.find? k) h
  · intro h
    rw [OrdMap.ext_find? h]
    rfl

theorem store_eq (f : Int) (u : UploadData) : store f u =
    { u with mUpload :=
      { u.mUpload with
        results := u.mUpload.results.add (toInt u.nTimeRecvExa) u.nDataRecv
        datasizeSlowStart :=
          if (u.mUpload.results.find? (toInt u.nTimeRecvExa)).isSome = true ∧
              u.mUpload.datasizeSlowStart = 0 ∧ UInt64.ofInt f = u.nTimeRecvExa then
            u.mUpload.datasizeTotal - u.nDataRecv
          else u.mUpload.datasizeSlowStart } } := by
  unfold store
  cases hf : u.mUpload.results.find? (toInt u.nTimeRecvExa) with
  | none =>
    simp only [Option.isSome_none, Bool.false_eq_true, false_and, if_false]
    rw [OrdMap.add_of_find?_none hf]
    rfl
  | some v =>
    simp only [Option.isSome_some, true_and]
    by_cases hlatch : u.mUpload.datasizeSlowStart = 0 ∧ UInt64.ofInt f = u.nTimeRecvExa
    · rw [if_pos hlatch]
      exact if_pos hlatch
    · rw [if_neg hlatch]
      exact if_neg hlatch

theorem store_clearGrid_eq (f : Int) (g : Globals) (u : UploadData) : store f (clearGrid g u) =
    { u with mUpload :=
      { u.mUpload with
        results := (clearGrid g u).mUpload.results.add (toInt u.nTimeRecvExa) u.nDataRecv
        datasizeSlowStart :=
          if ((clearGrid g u).mUpload.results.find? (toInt u.nTimeRecvExa)).isSome = true ∧
              u.mUpload.datasizeSlowStart = 0 ∧ UInt64.ofInt f = u.nTimeRecvExa then
            u.mUpload.datasizeTotal - u.nDataRecv
          else u.mUpload.datasizeSlowStart } } := by
  rw [store_eq]
  unfold clearGrid
  split <;> rfl

theorem update_eq_self_iff {u : UploadData} {m : OrdMap Int UInt64} {slow : UInt64} :
    { u with mUpload := { u.mUpload with results := m, datasizeSlowStart := slow } } = u ↔
      (∀ k, m.find? k = u.mUpload.results.find? k) ∧ slow = u.mUpload.datasizeSlowStart := by
  constructor
  · intro h
    exact ⟨fun k => congrArg (fun u : UploadData => u.mUpload.results.find? k) h,
      congrArg (fun u : UploadData => u.mUpload.datasizeSlowStart) h⟩
  · intro h
    rw [OrdMap.ext_find? h.1, h.2]

/-- The bins are as before exactly when the grid is empty and the bin of the entry is right. -/
theorem find?_accounted_iff {g : Globals} {u : UploadData} (he : g.hasError = false) :
    (∀ k, ((clearGrid g u).mUpload.results.add (toInt u.nTimeRecvExa) u.nDataRecv).find? k =
        u.mUpload.results.find? k) ↔
      (AtOrigin g u → ∀ k ∈ gridKeys g.timerIndexUploadFirst g.measurementDuration,
        k = toInt u.nTimeRecvExa ∧ g.hasError = false ∨ u.mUpload.results.find? k = some 0) ∧
      if AtOrigin g u ∧
          toInt u.nTimeRecvExa ∈ gridKeys g.timerIndexUploadFirst g.measurementDuration
      then u.mUpload.results.find? (toInt u.nTimeRecvExa) = some u.nDataRecv
      else u.nDataRecv = 0 ∧
        (u.mUpload.results.find? (toInt u.nTimeRecvExa)).isSome = true := by
  have hfind := find?_clearGrid g u
  have hown : some ((clearGrid g u).mUpload.results.get (toInt u.nTimeRecvExa) + u.nDataRecv) =
        u.mUpload.results.find? (toInt u.nTimeRecvExa) ↔
      if AtOrigin g u ∧
          toInt u.nTimeRecvExa ∈ gridKeys g.timerIndexUploadFirst g.measurementDuration
      then u.mUpload.results.find? (toInt u.nTimeRecvExa) = some u.nDataRecv
      else u.nDataRecv = 0 ∧
        (u.mUpload.results.find? (toInt u.nTimeRecvExa)).isSome = true := by
    rw [OrdMap.get, hfind]
    split_ifs
    · rw [Option.getD_some, zero_add]
      exact eq_comm
    · cases u.mUpload.results.find? (toInt u.nTimeRecvExa) with
      | none => simp
      | some v => simp
  rw [← hown]
  simp only [OrdMap.add, OrdMap.find?_insert]
  constructor
  · intro hall
    refine ⟨?_, ?_⟩
    · intro hat k hk
      by_cases hkey : k = toInt u.nTimeRecvExa
      · exact Or.inl ⟨hkey, he⟩
      · have hk' := hall k
        rw [if_neg hkey, hfind, if_pos ⟨hat, hk⟩] at hk'
        exact Or.inr hk'.symm
    · have hk' := hall (toInt u.nTimeRecvExa)
      rwa [if_pos rfl] at hk'
  · intro h k
    obtain ⟨hgrid, hbin⟩ := h
    by_cases hkey : k = toInt u.nTimeRecvExa
    · rw [if_pos hkey, hkey]
      exact hbin
    · rw [if_neg hkey, hfind]
      split_ifs with hcleared
      · exact ((hgrid hcleared.1 k hcleared.2).resolve_left fun h => hkey h.1).symm
      · rfl

theorem account_eq_self_iff {g : Globals} {u : UploadData} :
    account g u = (g, u) ↔ Quiet g u := by
  by_cases hc : chooseFirst u.nTimeRecvExa g = g
  · have horigin := chooseFirst_eq_self_iff.mp hc
    have hclear := clearGrid_eq g u
    cases he : g.hasError with
    | true =>
      have haccount : account g u = (g, clearGrid g u) := by
        simp only [account, hc, he, if_true]
      rw [haccount, Prod.mk.injEq, hclear, setResults_eq_self_iff]
      simp only [true_and, find?_clearGrid]
      constructor
      · intro hall
        refine ⟨horigin, ?_, ?_, ?_⟩
        · intro hat k hk
          have hk' := hall k
          rw [if_pos ⟨hat, hk⟩] at hk'
          exact Or.inr hk'.symm
        · intro hno
          rw [he] at hno
          contradiction
        · intro hno
          rw [he] at hno
          contradiction
      · intro hq k
        split_ifs with hcleared
        · have hk := hq.grid hcleared.1 k hcleared.2
          rw [he] at hk
          exact (hk.resolve_left (by simp)).symm
        · rfl
    | false =>
      have haccount : account g u = (g, store g.timerIndexUploadFirst (clearGrid g u)) := by
        simp only [account, hc, he, Bool.false_eq_true, if_false]
      have hbins := find?_accounted_iff (u := u) he
      have hsome (hbin : if AtOrigin g u ∧
            toInt u.nTimeRecvExa ∈ gridKeys g.timerIndexUploadFirst g.measurementDuration
          then u.mUpload.results.find? (toInt u.nTimeRecvExa) = some u.nDataRecv
          else u.nDataRecv = 0 ∧
            (u.mUpload.results.find? (toInt u.nTimeRecvExa)).isSome = true) :
          ((clearGrid g u).mUpload.results.find? (toInt u.nTimeRecvExa)).isSome = true := by
        rw [find?_clearGrid]
        split_ifs at hbin ⊢
        · rfl
        · exact hbin.2
      rw [haccount, Prod.mk.injEq, store_clearGrid_eq, update_eq_self_iff, hbins]
      simp only [true_and]
      constructor
      · intro h
        obtain ⟨⟨hgrid, hbin⟩, hslow⟩ := h
        refine ⟨horigin, hgrid, fun _ => hbin, ?_⟩
        intro _ hzero hat
        rw [if_pos ⟨hsome hbin, hzero, hat⟩, hzero] at hslow
        exact sub_eq_zero.mp hslow
      · intro hq
        refine ⟨⟨hq.grid, hq.bin he⟩, ?_⟩
        split_ifs with hlatch
        · rw [hq.slow he hlatch.2.1 hlatch.2.2, sub_self, hlatch.2.1]
        · rfl
  · constructor
    · intro h
      exact absurd (congrArg Prod.fst h) hc
    · intro hq
      exact absurd (chooseFirst_eq_self_iff.mpr hq.origin) hc

section Tokens

variable {env : Env}

/-- A token of four fields or more. -/
def long (env : Env) (token : List Char) : Bool := decide (4 ≤ (env.tokenize token ',').length)

/-- The sizes and bins of the stream, and the origin. -/
def observed (s : Globals × UploadData) : MeasurementData × Int :=
  (s.2.mUpload, s.1.timerIndexUploadFirst)

theorem account_eq_of_observed {s : Globals × UploadData}
    (h : observed (account s.1 s.2) = observed s) : account s.1 s.2 = s := by
  obtain ⟨g, u⟩ := s
  have hg : (account g u).1 =
      { g with timerIndexUploadFirst := (account g u).1.timerIndexUploadFirst } := by
    simp only [account, chooseFirst]
    split <;> rfl
  have hu : (account g u).2 = { u with mUpload := (account g u).2.mUpload } := by
    simp only [account]
    split
    · rw [clearGrid_eq]
      rfl
    · rw [store_clearGrid_eq]
  simp only [observed, Prod.mk.injEq] at h
  rw [h.2] at hg
  rw [h.1] at hu
  exact Prod.ext hg hu

theorem processTokens_singleton (s : Globals × UploadData) (token : List Char) :
    processTokens env s [token] = processToken env s token := by
  rw [processTokens, List.foldlM_cons]
  cases processToken env s token <;> rfl

theorem processTokens_concat {s t : Globals × UploadData} {p : List (List Char)}
    (h : processTokens env s p = some t) (token : List Char) :
    processTokens env s (p ++ [token]) = processToken env t token := by
  rw [processTokens_append, h, Option.bind_some, processTokens_singleton]

/-- A short token fails for the lack of its fourth field, or repeats the last entry. -/
theorem processToken_short {token : List Char} (h : long env token = false)
    (s : Globals × UploadData) : processToken env s token =
      if (env.tokenize token ',').length ≤ 2 then some (account s.1 s.2) else none := by
  simp only [long, decide_eq_false_iff_not] at h
  unfold processToken decode
  generalize env.tokenize token ',' = fields at h ⊢
  rcases fields with _ | ⟨data, _ | ⟨x, _ | ⟨time, _ | ⟨stamp, rest⟩⟩⟩⟩
  · rfl
  · rfl
  · rfl
  · rfl
  · simp only [List.length_cons] at h
    omega

theorem long_entry (htok : env.tokenize = Libtool.tokenize) (e : Entry) :
    long env e.token = true := by
  simp [long, htok, Libtool.tokenize, e.tokens_token]

theorem filter_concat_of_short {token : List Char} (h : long env token = false)
    (p : List (List Char)) : (p ++ [token]).filter (long env) = p.filter (long env) := by
  rw [List.filter_append, List.filter_singleton, h, cond_false, List.append_nil]

theorem filter_concat_of_long {token : List Char} (h : long env token = true)
    (p : List (List Char)) :
    (p ++ [token]).filter (long env) = p.filter (long env) ++ [token] := by
  rw [List.filter_append, List.filter_singleton, h, cond_true]

/-- A short token that leaves the observed state as it was repeats an entry quietly. -/
theorem quiet_of_observed {token : List Char} {s t : Globals × UploadData}
    {p : List (List Char)} (hshort : long env token = false)
    (hp : processTokens env s p = some t)
    (h : (processTokens env s (p ++ [token])).map observed = some (observed t)) :
    (env.tokenize token ',').length ≤ 2 ∧ account t.1 t.2 = t := by
  rw [processTokens_concat hp, processToken_short hshort] at h
  split at h
  · rename_i hlen
    simp only [Option.map_some, Option.some.injEq] at h
    exact ⟨hlen, account_eq_of_observed h⟩
  · contradiction

/-- The list without its short tokens is processed to its end. -/
theorem processTokens_filter (htok : env.tokenize = Libtool.tokenize) {p : List (List Char)}
    (hwf : ∀ token ∈ p, long env token = false ∨ ∃ e : Entry, token = e.token)
    (s : Globals × UploadData) : ∃ t, processTokens env s (p.filter (long env)) = some t := by
  have hentries : ∃ es : List Entry, p.filter (long env) = es.map Entry.token := by
    induction p with
    | nil => exact ⟨[], rfl⟩
    | cons token p ih =>
      obtain ⟨es, hes⟩ := ih fun token' ht => hwf token' (List.mem_cons_of_mem token ht)
      rcases hwf token List.mem_cons_self with hshort | ⟨e, rfl⟩
      · exact ⟨es, by rw [List.filter_cons, hshort, if_neg Bool.false_ne_true, hes]⟩
      · exact ⟨e :: es, by rw [List.filter_cons, if_pos (long_entry htok e), hes, List.map_cons]⟩
  obtain ⟨es, hes⟩ := hentries
  rw [hes]
  exact processTokens_entries htok es s

/-- Every beginning of a token list leaves what it leaves without its short tokens, if and only if
each short token has at most two fields and comes when the last entry can be repeated quietly. -/
theorem short_tokens_add_nothing_iff (htok : env.tokenize = Libtool.tokenize)
    (s : Globals × UploadData) (vResponse : List (List Char))
    (hwf : ∀ token ∈ vResponse, long env token = false ∨ ∃ e : Entry, token = e.token) :
    (∀ p, p <+: vResponse → (processTokens env s p).map observed =
        (processTokens env s (p.filter (long env))).map observed) ↔
      ∀ p token, p ++ [token] <+: vResponse → long env token = false →
        (env.tokenize token ',').length ≤ 2 ∧
          ∀ t, processTokens env s (p.filter (long env)) = some t → Quiet t.1 t.2 := by
  have hsome (p : List (List Char)) (hp : p <+: vResponse) :=
    processTokens_filter htok (fun token ht => hwf token (hp.mem ht)) s
  constructor
  · intro hall
    have hsame : ∀ p, p <+: vResponse →
        processTokens env s p = processTokens env s (p.filter (long env)) := by
      intro p
      induction p using List.reverseRecOn with
      | nil => exact fun _ => rfl
      | append_singleton p token ih =>
        intro hp
        have hp' := (List.prefix_append p [token]).trans hp
        obtain ⟨t, ht⟩ := hsome p hp'
        have heq := (ih hp').trans ht
        cases hshort : long env token with
        | true =>
          rw [filter_concat_of_long hshort, processTokens_append, processTokens_append, ih hp']
        | false =>
          have h := hall _ hp
          rw [filter_concat_of_short hshort, ht] at h
          obtain ⟨hlen, hquiet⟩ := quiet_of_observed hshort heq h
          rw [filter_concat_of_short hshort, ht, processTokens_concat heq,
            processToken_short hshort, if_pos hlen, hquiet]
    intro p token hp hshort
    have hp' := (List.prefix_append p [token]).trans hp
    obtain ⟨t, ht⟩ := hsome p hp'
    have h := hall _ hp
    rw [filter_concat_of_short hshort, ht] at h
    obtain ⟨hlen, hquiet⟩ := quiet_of_observed hshort ((hsame p hp').trans ht) h
    refine ⟨hlen, ?_⟩
    intro t' ht'
    obtain rfl := Option.some.inj (ht.symm.trans ht')
    exact account_eq_self_iff.mp hquiet
  · intro hquiet p hp
    have hsame : processTokens env s p = processTokens env s (p.filter (long env)) := by
      induction p using List.reverseRecOn with
      | nil => rfl
      | append_singleton p token ih =>
        have hp' := (List.prefix_append p [token]).trans hp
        have ih := ih hp'
        cases hshort : long env token with
        | true =>
          rw [filter_concat_of_long hshort, processTokens_append, processTokens_append, ih]
        | false =>
          obtain ⟨t, ht⟩ := hsome p hp'
          obtain ⟨hlen, hq⟩ := hquiet p token hp hshort
          rw [filter_concat_of_short hshort, ht, processTokens_concat (ih.trans ht),
            processToken_short hshort, if_pos hlen, account_eq_self_iff.mpr (hq t ht)]
    rw [hsame]

end Tokens

/-- The entry `0,1,7,123456;`. -/
def entry0 : Entry :=
  { entry100 with
    data := "0".toList
    nonempty := by decide
    digits := by decide }

theorem quiet_entry0 {t : Globals × UploadData}
    (ht : processTokens Env.default (Globals.default, {}) [entry0.token] = some t) :
    Quiet t.1 t.2 := by
  obtain rfl := Option.some.inj ht
  refine ⟨fun hr _ => ?_, fun hat => ?_, fun _ => ?_, fun _ _ => ?_⟩
  · exact absurd hr (by decide)
  · exact absurd hat.1 (by decide)
  · rw [if_neg (by decide)]
    decide
  · decide

/-- A token of two fields after an entry without bytes. -/
theorem short_tokens_add_nothing_iff_entry0 :
    (processTokens Env.default (Globals.default, {}) [entry0.token, "x,y".toList]).map observed =
      (processTokens Env.default (Globals.default, {}) [entry0.token]).map observed := by
  have htok : Env.default.tokenize = Libtool.tokenize := rfl
  have hiff := short_tokens_add_nothing_iff htok (Globals.default, {})
    [entry0.token, "x,y".toList] (by
      intro token htoken
      rcases List.mem_cons.mp htoken with rfl | htoken
      · exact Or.inr ⟨entry0, rfl⟩
      · rw [List.mem_singleton.mp htoken]
        exact Or.inl (by decide))
  refine hiff.mpr ?_ _ List.prefix_rfl
  intro p token hp hshort
  match p with
  | [] =>
    simp only [List.nil_append, List.cons_prefix_cons] at hp
    rw [hp.1] at hshort
    exact absurd hshort (by decide)
  | [first] =>
    simp only [List.cons_append, List.nil_append, List.cons_prefix_cons] at hp
    obtain ⟨rfl, rfl, -⟩ := hp
    exact ⟨by decide, fun t ht => quiet_entry0 ht⟩
  | _ :: _ :: p =>
    have hle := hp.length_le
    simp only [List.length_append, List.length_cons, List.length_nil] at hle
    omega

/-- The short token after an entry of 100 bytes accounts them a second time. -/
theorem shortToken_repeats :
    ((processTokens Env.default (Globals.default, {}) [entry100.token, "x,y".toList]).map
        fun t => t.2.mUpload.results.get 123456) = some 1600 ∧
      ((processTokens Env.default (Globals.default, {}) [entry100.token]).map
        fun t => t.2.mUpload.results.get 123456) = some 800 ∧
      processTokens Env.default (Globals.default, {}) [entry100.token, "1,2,3".toList] = none := by
  decide

end Upload

end IasClient
