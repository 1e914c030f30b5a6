import IasClient.Accounting.Segmentation
import IasClient.Framework.Totals
import Mathlib.Data.UInt
import Mathlib.Tactic.Abel
import Mathlib.Tactic.Ring

namespace IasClient

open Framework

/-- The decoded fields of a well-formed entry, its stamp not 0. -/
structure Report where
  data : UInt64
  stamp : UInt64
  pos : 0 < stamp
  six : stamp < 1000000

namespace Report

/-- What the entry adds to the sizes, in bits. -/
def bits (r : Report) : UInt64 := r.data * 8

/-- The bin of the entry. -/
def key (r : Report) : Int := toInt r.stamp

theorem key_eq (r : Report) : r.key = r.stamp.toNat := by
  have h : r.stamp.toNat < 1000000 := UInt64.lt_iff_toNat_lt.mp r.six
  exact toInt_of_lt (by omega)

theorem key_pos (r : Report) : 0 < r.key := by
  have h : 0 < r.stamp.toNat := UInt64.lt_iff_toNat_lt.mp r.pos
  rw [key_eq]
  omega

theorem key_lt (r : Report) : r.key < 1000000 := by
  have h : r.stamp.toNat < 1000000 := UInt64.lt_iff_toNat_lt.mp r.six
  rw [key_eq]
  omega

/-- The comparison of the origin with a stamp is one of bins. -/
theorem ofInt_eq_stamp (r : Report) {f : Int} (h0 : 0 ≤ f) (h1 : f < 1000000) :
    UInt64.ofInt f = r.stamp ↔ f = r.key := by
  obtain ⟨n, rfl⟩ := Int.eq_ofNat_of_zero_le h0
  have hn : (UInt64.ofInt n).toNat = n := by
    simp only [UInt64.ofInt, UInt64.toNat_ofNat']
    omega
  rw [r.key_eq, ← UInt64.toNat_inj, hn]
  omega

end Report

/-- The bits of a list of entries. -/
def sumBits (l : List Report) : UInt64 := (l.map Report.bits).sum

theorem sumBits_append (l m : List Report) : sumBits (l ++ m) = sumBits l + sumBits m := by
  simp [sumBits]

theorem sumBits_singleton (r : Report) : sumBits [r] = r.bits := by
  simp [sumBits]

/-- An upload stream with the entries it has accounted: early ones while no origin was chosen, and
late ones, of which the one that chose the origin is the first. -/
structure UploadStream where
  upload : UploadData := {}
  early : List Report := []
  late : List Report := []

namespace UploadStream

/-- All entries of a stream, in the order of their accounting. -/
def entries (x : UploadStream) : List Report := x.early ++ x.late

/-- The bits of the stream before each of its late entries at the origin. -/
def totals (f : Int) (x : UploadStream) : List UInt64 :=
  totalsAt (fun r => decide (r.key = f)) Report.bits (sumBits x.early) x.late

theorem totals_of_late_nil {x : UploadStream} (h : x.late = []) (f : Int) : x.totals f = [] := by
  simp [totals, h, totalsAt]

/-- A late entry at the origin has been accounted. -/
theorem exists_of_totals_ne_nil {f : Int} {x : UploadStream} (h : x.totals f ≠ []) :
    ∃ r ∈ x.entries, r.key = f := by
  obtain ⟨r, hr, hf⟩ := exists_of_totalsAt_ne_nil h
  exact ⟨r, by simp [entries, hr], by simpa using hf⟩

/-- The bits of the entries before the origin. -/
def below (f : Int) (x : UploadStream) : UInt64 :=
  sumBits (x.entries.filter fun r => decide (r.key < f))

/-- The entry is accounted, and remembered. -/
def step (g : Globals) (r : Report) (x : UploadStream) : Globals × UploadStream :=
  let s := Upload.account g (Upload.setDecoded r.data r.stamp x.upload)
  (s.1, if s.1.timerIndexUploadFirst = 0 then { x with upload := s.2, early := x.early ++ [r] }
    else { x with upload := s.2, late := x.late ++ [r] })

end UploadStream

namespace Upload

theorem store_results (f : Int) (u : UploadData) :
    (store f u).mUpload.results = u.mUpload.results.add (toInt u.nTimeRecvExa) u.nDataRecv := by
  unfold store
  split
  · rename_i h
    rw [OrdMap.add_of_find?_none h]
    rfl
  · unfold latch
    split <;> rfl

theorem store_total (f : Int) (u : UploadData) :
    (store f u).mUpload.datasizeTotal = u.mUpload.datasizeTotal := by
  unfold store
  split
  · rfl
  · unfold latch
    split <;> rfl

/-- Away from the origin the slow-start size is not touched. -/
theorem store_slow_of_ne {f : Int} {u : UploadData} (h : UInt64.ofInt f ≠ u.nTimeRecvExa) :
    (store f u).mUpload.datasizeSlowStart = u.mUpload.datasizeSlowStart := by
  unfold store
  split
  · rfl
  · simp [latch, setResults, h]

/-- At the origin, with its bin there, the slow-start size is set while it is 0. -/
theorem store_slow_of_eq {f : Int} {u : UploadData} (h : UInt64.ofInt f = u.nTimeRecvExa)
    {v : UInt64} (hv : u.mUpload.results.find? (toInt u.nTimeRecvExa) = some v) :
    (store f u).mUpload.datasizeSlowStart = if u.mUpload.datasizeSlowStart = 0 then
      u.mUpload.datasizeTotal - u.nDataRecv else u.mUpload.datasizeSlowStart := by
  rw [store, hv]
  simp only [latch, setResults, h]
  split <;> simp_all

end Upload

theorem Upload.mem_gridKeys_self (f : Int) (d : UInt64) : f ∈ Upload.gridKeys f d := by
  simp only [Upload.gridKeys, List.mem_map, List.mem_range]
  exact ⟨0, by omega, by simp⟩

theorem Upload.le_of_mem_gridKeys {f k : Int} {d : UInt64} (h : k ∈ Upload.gridKeys f d) : f ≤ k := by
  simp only [Upload.gridKeys, List.mem_map, List.mem_range] at h
  omega

/-- What an entry does to its stream once the origin is `f`, by whether it carries that stamp. -/
inductive UploadStream.Effect (f : Int) (d : UInt64) (r : Report) (x y : UploadStream) : Prop
  | away (hne : f ≠ r.key)
      (results : y.upload.mUpload.results = x.upload.mUpload.results.add r.key r.bits)
      (total : y.upload.mUpload.datasizeTotal = x.upload.mUpload.datasizeTotal + r.bits)
      (slow : y.upload.mUpload.datasizeSlowStart = x.upload.mUpload.datasizeSlowStart)
      (entries : y.entries = x.entries ++ [r]) (totals : y.totals f = x.totals f)
      (unset : f = 0 → y.late = [])
  /-- the bins from the origin on are emptied first -/
  | origin (hpos : 0 < f) (hf : f = r.key)
      (results : y.upload.mUpload.results = ((Upload.gridKeys f d).foldl (fun m i => m.insert i 0)
        x.upload.mUpload.results).add f r.bits)
      (total : y.upload.mUpload.datasizeTotal = x.upload.mUpload.datasizeTotal + r.bits)
      (slow : y.upload.mUpload.datasizeSlowStart =
        if x.upload.mUpload.datasizeSlowStart = 0 then x.upload.mUpload.datasizeTotal
        else x.upload.mUpload.datasizeSlowStart)
      (entries : y.entries = x.entries ++ [r])
      (totals : y.totals f = x.totals f ++ [sumBits x.entries])

variable {f : Int} {d : UInt64} {x y : UploadStream} {r : Report}

theorem UploadStream.effect_away (h0 : 0 ≤ f) (h1 : f < 1000000) (hne : f ≠ r.key)
    (hu : y.upload = Upload.store f (Upload.setDecoded r.data r.stamp x.upload))
    (entries : y.entries = x.entries ++ [r]) (totals : y.totals f = x.totals f)
    (unset : f = 0 → y.late = []) : x.Effect f d r y := by
  have hstamp : UInt64.ofInt f ≠ r.stamp := fun he => hne ((r.ofInt_eq_stamp h0 h1).mp he)
  refine .away hne ?_ ?_ ?_ entries totals unset
  · rw [hu, Upload.store_results]
    rfl
  · rw [hu, Upload.store_total]
    rfl
  · rw [hu, Upload.store_slow_of_ne hstamp]
    rfl

theorem UploadStream.effect_origin (hpos : 0 < f) (h1 : f < 1000000) (hf : f = r.key) :
    x.Effect f d r { x with
      upload := Upload.store f (Upload.zeroGrid f d (Upload.setDecoded r.data r.stamp x.upload))
      late := x.late ++ [r] } := by
  have hstamp : UInt64.ofInt f = r.stamp := (r.ofInt_eq_stamp (Int.le_of_lt hpos) h1).mpr hf
  let u := Upload.zeroGrid f d (Upload.setDecoded r.data r.stamp x.upload)
  have hfind : u.mUpload.results.find? (toInt u.nTimeRecvExa) = some 0 := by
    have hkey : toInt u.nTimeRecvExa = f := hf.symm
    rw [hkey]
    refine (OrdMap.find?_foldl_insert _ _ _ _).trans ?_
    rw [if_pos (Upload.mem_gridKeys_self f d)]
  refine .origin hpos hf ?_ ?_ ?_ ?_ ?_
  · rw [Upload.store_results, hf]
    rfl
  · rw [Upload.store_total]
    rfl
  · have hsub : x.upload.mUpload.datasizeTotal + r.bits - r.bits =
        x.upload.mUpload.datasizeTotal := add_sub_cancel_right _ _
    rw [Upload.store_slow_of_eq hstamp hfind]
    exact congrArg (fun v => if x.upload.mUpload.datasizeSlowStart = 0 then v else
      x.upload.mUpload.datasizeSlowStart) hsub
  · simp [UploadStream.entries]
  · rw [UploadStream.totals, totalsAt_append, if_pos (by simp [hf])]
    simp [UploadStream.totals, UploadStream.entries, sumBits]

theorem Upload.chooseFirst_cases (stamp : UInt64) (g : Globals) :
    Upload.chooseFirst stamp g = g ∨ g.timerIndexUploadFirst = 0 ∧
      Upload.chooseFirst stamp g = { g with timerIndexUploadFirst := toInt stamp } := by
  unfold Upload.chooseFirst
  split
  · rename_i h
    exact .inr ⟨h.2, rfl⟩
  · exact .inl rfl

/-- The effect of an entry, with the origin as the entry leaves it. -/
theorem UploadStream.step_effect {g : Globals} (he : g.hasError = false)
    (h0 : 0 ≤ (x.step g r).1.timerIndexUploadFirst)
    (h1 : (x.step g r).1.timerIndexUploadFirst < 1000000)
    (hlate : (x.step g r).1.timerIndexUploadFirst = 0 → x.late = []) :
    x.Effect (x.step g r).1.timerIndexUploadFirst g.measurementDuration r (x.step g r).2 := by
  let g' := Upload.chooseFirst r.stamp g
  let u := Upload.setDecoded r.data r.stamp x.upload
  have hg : (x.step g r).1 = g' := rfl
  have hsame : g'.hasError = false ∧ g'.measurementDuration = g.measurementDuration := by
    rcases Upload.chooseFirst_cases r.stamp g with hc | ⟨-, hc⟩ <;> simp [g', hc, he]
  have hstep : (x.step g r).2 = if g'.timerIndexUploadFirst = 0 then
      { x with
        upload := Upload.store g'.timerIndexUploadFirst (Upload.clearGrid g' u)
        early := x.early ++ [r] }
      else
      { x with
        upload := Upload.store g'.timerIndexUploadFirst (Upload.clearGrid g' u)
        late := x.late ++ [r] } := by
    have hacc : Upload.account g u =
        (g', Upload.store g'.timerIndexUploadFirst (Upload.clearGrid g' u)) := by
      have hdec : u.nTimeRecvExa = r.stamp := rfl
      simp only [Upload.account, hdec]
      rw [if_neg (by simp [← hsame.1, g'])]
    simp only [UploadStream.step]
    rw [hacc]
  rw [hg] at h0 h1 hlate ⊢
  rw [hstep]
  have hkey := r.key_pos
  have hstamp := r.ofInt_eq_stamp h0 h1
  split_ifs with hz
  · have hclear : Upload.clearGrid g' u = u := by simp [Upload.clearGrid, hz]
    rw [hclear]
    refine effect_away h0 h1 (by omega) rfl ?_ ?_ (fun _ => hlate hz)
    · simp [UploadStream.entries, hlate hz]
    · simp [UploadStream.totals, hlate hz, totalsAt]
  · by_cases hk : g'.timerIndexUploadFirst = r.key
    · have hclear : Upload.clearGrid g' u =
          Upload.zeroGrid g'.timerIndexUploadFirst g.measurementDuration u := by
        rw [Upload.clearGrid, if_pos ⟨hz, hstamp.mpr hk⟩, hsame.2]
      rw [hclear]
      exact effect_origin (by omega) h1 hk
    · have hclear : Upload.clearGrid g' u = u := by
        rw [Upload.clearGrid, if_neg]
        exact fun hc => hk (hstamp.mp hc.2)
      rw [hclear]
      refine effect_away h0 h1 hk rfl ?_ ?_ (fun hc => absurd hc hz)
      · simp [UploadStream.entries]
      · simp [UploadStream.totals, totalsAt_append, Ne.symm hk]

/-- The streams of an upload test, at the granularity of one entry a step. -/
structure Uploads where
  g : Globals
  streams : List UploadStream

inductive UploadAction
  | timerRunning
  | entry (j : Nat) (r : Report)

namespace Uploads

def step (a : UploadAction) (s : Uploads) : Option Uploads :=
  match a with
  | .timerRunning => some { s with g := { s.g with timerRunning := true } }
  | .entry j r => s.streams[j]?.map fun x =>
    { g := (x.step s.g r).1, streams := s.streams.set j (x.step s.g r).2 }

/-- The stamps of a stream do not decrease. -/
def NonDecreasing (s : Uploads) : UploadAction → Prop
  | .timerRunning => True
  | .entry j r => ∀ x ∈ s.streams[j]?, ∀ q ∈ x.entries, q.key ≤ r.key

instance (s : Uploads) : DecidablePred (NonDecreasing s)
  | .timerRunning => .isTrue trivial
  | .entry j r => inferInstanceAs (Decidable (∀ x ∈ s.streams[j]?, ∀ q ∈ x.entries, q.key ≤ r.key))

/-- `n` streams that have accounted nothing, after the constructor of the timer. -/
def start (old : Globals) (duration : UInt64) (n : Nat) : Uploads :=
  { g := { old with
      timerRunning := false
      timerIndexUploadFirst := 0
      measurementDuration := duration
      hasError := false }
    streams := List.replicate n {} }

/-- TIMER_INDEX_UPLOAD_FIRST -/
def first (s : Uploads) : Int := s.g.timerIndexUploadFirst

end Uploads

/-- A number of `n` digits is below `10 ^ n`. -/
theorem decimal_lt {l : List Char} (h : ∀ c ∈ l, c.isDigit = true) :
    Libtool.decimal l < 10 ^ l.length := by
  have hdigit (c : Char) (hc : c.isDigit = true) : c.toNat - '0'.toNat ≤ 9 := by
    simp only [Char.isDigit, Bool.and_eq_true, decide_eq_true_eq] at hc
    have : c.val.toNat ≤ 57 := UInt32.le_iff_toNat_le.mp hc.2
    exact Nat.sub_le_sub_right this 48
  have hfold (l : List Char) (n : Nat) (h : ∀ c ∈ l, c.isDigit = true) :
      l.foldl (fun n c => 10 * n + (c.toNat - '0'.toNat)) n < (n + 1) * 10 ^ l.length := by
    induction l generalizing n with
    | nil => simp
    | cons c l ih =>
      have hc := hdigit c (h c (by simp))
      have hl := ih (10 * n + (c.toNat - '0'.toNat)) fun d hd => h d (by simp [hd])
      have hle : (10 * n + (c.toNat - '0'.toNat) + 1) * 10 ^ l.length ≤
          (10 * (n + 1)) * 10 ^ l.length := Nat.mul_le_mul_right _ (by omega)
      rw [List.foldl_cons, List.length_cons]
      calc _ < _ := hl
        _ ≤ _ := hle
        _ = _ := by ring
  have htake : l.takeWhile Char.isDigit = l := List.takeWhile_eq_self_iff.mpr h
  simpa [Libtool.decimal, htake] using hfold l 0 h

/-- A step of a stream is what the receive loop does with a token of a well-formed entry. -/
theorem Entry.processToken_eq {env : Env} (htok : env.tokenize = Libtool.tokenize)
    (hull : env.toULL = Libtool.toULL) (e : Entry)
    (hpos : 0 < Libtool.decimal (e.stamp.drop (e.stamp.length - 6))) :
    ∃ r : Report, ∀ (g : Globals) (x : UploadStream), Upload.processToken env (g, x.upload) e.token =
      some ((x.step g r).1, (x.step g r).2.upload) := by
  have hsix := e.six
  have hlt : Libtool.decimal (e.stamp.drop (e.stamp.length - 6)) < 1000000 := by
    have hlen : (e.stamp.drop (e.stamp.length - 6)).length = 6 := by
      rw [List.length_drop]
      omega
    have hlt := decimal_lt (l := e.stamp.drop (e.stamp.length - 6)) fun c hc =>
      List.all_eq_true.mp e.digits c (by simp [List.mem_of_mem_drop hc])
    rwa [hlen] at hlt
  have hnat : (env.toULL (e.stamp.drop (e.stamp.length - 6))).toNat =
      Libtool.decimal (e.stamp.drop (e.stamp.length - 6)) := by
    rw [hull, Libtool.toULL, UInt64.toNat_ofNat']
    omega
  refine ⟨⟨env.toULL e.data, env.toULL (e.stamp.drop (e.stamp.length - 6)), ?_, ?_⟩, ?_⟩
  · rw [UInt64.lt_iff_toNat_lt, hnat]
    exact hpos
  · rw [UInt64.lt_iff_toNat_lt, hnat]
    exact hlt
  · intro g x
    rw [Upload.processToken, Upload.decode_entry htok]
    simp only [UploadStream.step]
    split_ifs <;> rfl

/-- What every step keeps, with a property `P` of the streams that depends on the origin. -/
structure Uploads.Keeps (duration : UInt64) (P : Int → UploadStream → Prop) (s : Uploads) : Prop where
  hasError : s.g.hasError = false
  duration : s.g.measurementDuration = duration
  nonneg : 0 ≤ s.first
  lt : s.first < 1000000
  unset : s.first = 0 → ∀ x ∈ s.streams, x.late = []
  streams : ∀ x ∈ s.streams, P s.first x

variable {P : Int → UploadStream → Prop} {s s' : Uploads} {a : UploadAction}

theorem Uploads.Keeps.step (h : s.Keeps d P) (hchoose : ∀ f x, x.late = [] → P 0 x → P f x)
    (heffect : ∀ f r x y, 0 ≤ f → (∀ q ∈ x.entries, q.key ≤ r.key) → x.Effect f d r y →
      P f x → P f y)
    (ha : s.NonDecreasing a) (hs : Uploads.step a s = some s') : s'.Keeps d P := by
  cases a with
  | timerRunning =>
    simp only [Uploads.step, Option.some.injEq] at hs
    subst hs
    exact ⟨h.hasError, h.duration, h.nonneg, h.lt, h.unset, h.streams⟩
  | entry j r =>
    simp only [Uploads.step, Option.map_eq_some_iff] at hs
    obtain ⟨x, hx, rfl⟩ := hs
    have hmem := List.mem_of_getElem? hx
    have hg : (x.step s.g r).1 = Upload.chooseFirst r.stamp s.g := rfl
    have hkeep : (x.step s.g r).1.hasError = false ∧ (x.step s.g r).1.measurementDuration = d ∧
        0 ≤ (x.step s.g r).1.timerIndexUploadFirst ∧
        (x.step s.g r).1.timerIndexUploadFirst < 1000000 ∧
        ((x.step s.g r).1.timerIndexUploadFirst = 0 → s.first = 0) ∧
        ∀ y ∈ s.streams, P (x.step s.g r).1.timerIndexUploadFirst y := by
      rcases Upload.chooseFirst_cases r.stamp s.g with hc | ⟨hz, hc⟩ <;> rw [hg, hc]
      · exact ⟨h.hasError, h.duration, h.nonneg, h.lt, id, h.streams⟩
      · refine ⟨h.hasError, h.duration, Int.le_of_lt r.key_pos, r.key_lt, fun _ => hz, ?_⟩
        intro y hy
        have := h.streams y hy
        rw [Uploads.first, hz] at this
        exact hchoose _ y (h.unset hz y hy) this
    obtain ⟨he, hd, h0, h1, hzero, hother⟩ := hkeep
    have hlate (hz : (x.step s.g r).1.timerIndexUploadFirst = 0) : x.late = [] :=
      h.unset (hzero hz) x hmem
    have heff := UploadStream.step_effect h.hasError h0 h1 hlate
    rw [h.duration] at heff
    refine ⟨he, hd, h0, h1, fun hz y hy => ?_, fun y hy => ?_⟩
    · rcases List.mem_or_eq_of_mem_set hy with hy | rfl
      · exact h.unset (hzero hz) y hy
      · cases heff with
        | away _ _ _ _ _ _ unset => exact unset hz
        | origin hpos => exact absurd hz (ne_of_gt hpos)
    · rcases List.mem_or_eq_of_mem_set hy with hy | rfl
      · exact hother y hy
      · exact heffect _ r x _ h0 (ha x hx) heff (hother x hmem)

/-- A property of the streams that the choice of the origin and every entry keep holds in every
run. -/
theorem Uploads.run_streams {old : Globals} {n : Nat} (h0 : P 0 {})
    (hchoose : ∀ f x, x.late = [] → P 0 x → P f x)
    (heffect : ∀ f r x y, 0 ≤ f → (∀ q ∈ x.entries, q.key ≤ r.key) → x.Effect f d r y →
      P f x → P f y)
    (h : Run Uploads.step Uploads.NonDecreasing (Uploads.start old d n) s) :
    ∀ x ∈ s.streams, P s.first x := by
  have hstart : (Uploads.start old d n).Keeps d P := by
    refine ⟨rfl, rfl, Int.le_refl 0, by simp [Uploads.start, Uploads.first], fun _ x hx => ?_,
      fun x hx => ?_⟩
    · rw [List.eq_of_mem_replicate hx]
    · rw [List.eq_of_mem_replicate hx]
      exact h0
  have hk : s.Keeps d P :=
    Run.invariant (fun t a u hk ha hs => hk.step hchoose heffect ha hs) hstart h
  exact hk.streams

end IasClient
