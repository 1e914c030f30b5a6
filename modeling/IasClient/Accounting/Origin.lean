import IasClient.Accounting.UploadStreams

namespace IasClient

open Framework

namespace UploadStream

/-- Slow-start bits and measured bits are all bits. -/
def Conserved (f : Int) (x : UploadStream) : Prop :=
  x.upload.mUpload.datasizeSlowStart +
    x.upload.mUpload.results.sumWhere (fun k => decide (f ≤ k)) = x.upload.mUpload.datasizeTotal

instance (f : Int) (x : UploadStream) : Decidable (x.Conserved f) := inferInstanceAs (Decidable (_ = _))

end UploadStream

/-- What holds of a stream while the origin is `f`. -/
structure Accounted (f : Int) (x : UploadStream) : Prop where
  total : x.upload.mUpload.datasizeTotal = sumBits x.entries
  slow : x.upload.mUpload.datasizeSlowStart = firstNonzero (x.totals f)
  ahead : ∀ k, (∀ r ∈ x.entries, r.key < k) → x.upload.mUpload.results.get k = 0
  whole : x.totals f = [] → ∀ p, x.upload.mUpload.results.sumWhere p =
    sumBits (x.entries.filter fun r => p r.key)
  measured : ∀ h : x.totals f ≠ [], x.upload.mUpload.results.sumWhere (fun k => decide (f ≤ k)) +
    (x.totals f).getLast h = sumBits x.entries

variable {f : Int} {d : UInt64} {x y : UploadStream} {r : Report}

theorem accounted_start (f : Int) : Accounted f {} := by
  constructor <;>
    simp [UploadStream.entries, UploadStream.totals, totalsAt, firstNonzero, sumBits,
      OrdMap.get_empty]

/-- A stream that has accounted nothing since the origin was chosen. -/
theorem Accounted.choose (h : Accounted 0 x) (hlate : x.late = []) (f : Int) : Accounted f x := by
  have htot := UploadStream.totals_of_late_nil hlate
  refine ⟨h.total, ?_, h.ahead, fun _ => h.whole (htot 0), ?_⟩
  · rw [htot, h.slow, htot]
  · intro hne
    exact absurd (htot f) hne

theorem Accounted.effect (h : Accounted f x) (hr : ∀ q ∈ x.entries, q.key ≤ r.key)
    (he : x.Effect f d r y) : Accounted f y := by
  cases he with
  | away hne hres htot hslow hentries htotals =>
    refine ⟨?_, ?_, ?_, ?_, ?_⟩
    · rw [htot, h.total, hentries, sumBits_append, sumBits_singleton]
    · rw [hslow, h.slow, htotals]
    · intro k hk
      rw [hentries] at hk
      have hrk := hk r (by simp)
      rw [hres, OrdMap.get_add, h.ahead k (fun q hq => hk q (by simp [hq])), if_neg (by omega)]
      rfl
    · intro hnil p
      rw [hres, OrdMap.sumWhere_add, h.whole (htotals ▸ hnil) p, hentries, List.filter_append,
        sumBits_append]
      cases hp : p r.key <;> simp [hp, sumBits]
    · intro hne'
      have hne' : x.totals f ≠ [] := htotals ▸ hne'
      have hm := h.measured hne'
      have hf : f ≤ r.key := by
        -- a late entry at the origin came before this one
        obtain ⟨q, hq, hqf⟩ := UploadStream.exists_of_totals_ne_nil hne'
        have := hr q hq
        omega
      rw [hres, OrdMap.sumWhere_add, hentries, sumBits_append, sumBits_singleton, ← hm]
      simp only [htotals, hf, decide_true, if_true]
      abel
  | origin hpos hf hres htot hslow hentries htotals =>
    have hahead (k : Int) (hk : f ≤ k) : ((Upload.gridKeys f d).foldl (fun m i => m.insert i 0)
        x.upload.mUpload.results).get k = 0 := by
      rw [OrdMap.get_foldl_insert_zero]
      split_ifs with hmem
      · rfl
      · have hne : k ≠ f := by
          rintro rfl
          exact hmem (Upload.mem_gridKeys_self k d)
        apply h.ahead
        intro q hq
        have := hr q hq
        omega
    refine ⟨?_, ?_, ?_, ?_, ?_⟩
    · rw [htot, h.total, hentries, sumBits_append, sumBits_singleton]
    · rw [hslow, htotals, firstNonzero_append, ← h.slow, h.total]
    · intro k hk
      have hrk := hk r (by simp [hentries])
      rw [hres, OrdMap.get_add, hahead k (by omega), if_neg (by omega)]
      rfl
    · intro hnil
      simp [htotals] at hnil
    · intro hne
      simp only [htotals, List.getLast_append_singleton]
      rw [hres, OrdMap.sumWhere_add,
        OrdMap.sumWhere_eq_zero (fun k hk => hahead k (by simpa using hk)), hentries,
        sumBits_append, sumBits_singleton]
      simp only [le_refl, decide_true, if_true]
      abel

theorem accounted_run {s : Uploads} {old : Globals} {n : Nat}
    (h : Run Uploads.step Uploads.NonDecreasing (Uploads.start old d n) s) :
    ∀ x ∈ s.streams, Accounted s.first x :=
  Uploads.run_streams (accounted_start 0) (fun f _ hlate hx => hx.choose hlate f)
    (fun _ _ _ _ _ hr he hx => hx.effect hr he) h

theorem sumBits_filter_not (p : Report → Bool) (l : List Report) :
    sumBits (l.filter p) + sumBits (l.filter fun r => !p r) = sumBits l := by
  induction l with
  | nil => simp [sumBits]
  | cons r l ih =>
    simp only [sumBits] at ih
    cases hp : p r
    · simp only [sumBits, List.filter_cons, hp, List.map_cons, List.sum_cons, Bool.not_false, if_true,
        Bool.false_eq_true, if_false, ← ih]
      abel
    · simp only [sumBits, List.filter_cons, hp, List.map_cons, List.sum_cons, Bool.not_true, if_true,
        Bool.false_eq_true, if_false, ← ih]
      abel

/-- In every run with non-decreasing stamps, once the origin is chosen, the slow-start bits and the
measured bits of a stream are all its bits exactly when either the stream has accounted no entry at
the origin since, and no bits before the origin; or it has, and the first bits it had before such an
entry are all that it had before the last one. -/
theorem upload_conserved_iff {s : Uploads} (old : Globals) (duration : UInt64) (n : Nat)
    (h : Run Uploads.step Uploads.NonDecreasing (Uploads.start old duration n) s)
    (j : Nat) (hx : s.streams[j]? = some x) :
    x.Conserved s.first ↔ (x.totals s.first = [] ∧ x.below s.first = 0) ∨
      ∃ hne : x.totals s.first ≠ [],
        firstNonzero (x.totals s.first) = (x.totals s.first).getLast hne := by
  have hacc := accounted_run h x (List.mem_of_getElem? hx)
  unfold UploadStream.Conserved
  rw [hacc.slow, hacc.total]
  by_cases hnil : x.totals s.first = []
  · have hsplit := sumBits_filter_not (fun r => decide (r.key < s.first)) x.entries
    have hwhole := hacc.whole hnil fun k => decide (s.first ≤ k)
    have hnot (r : Report) : (!decide (r.key < s.first)) = decide (s.first ≤ r.key) :=
      decide_not.symm.trans (decide_eq_decide.mpr not_lt)
    simp only [hnot, ← hwhole] at hsplit
    rw [hnil, ← hsplit]
    simp [firstNonzero, UploadStream.below, eq_comm]
  · rw [← hacc.measured hnil, add_comm]
    simp [hnil]

/-- Five bytes at the origin, and seven half a second or two tenths of a second later. -/
def report5 : Report := ⟨5, 100005, by decide, by decide⟩

def report7 : Report := ⟨7, 100010, by decide, by decide⟩

def report7Early : Report := ⟨7, 100007, by decide, by decide⟩

/-- One stream, with 100 bytes of slow start and one entry at the origin. -/
def atOriginOnce : List UploadAction :=
  [.entry 0 ⟨100, 100000, by decide, by decide⟩, .timerRunning,
    .entry 0 report5, .entry 0 report7]

theorem upload_conserved_iff_atOriginOnce : ∃ (s : Uploads) (x : UploadStream),
    s.streams[0]? = some x ∧ s.first = 100005 ∧ x.totals s.first = [800] ∧ x.Conserved s.first := by
  have h := upload_conserved_iff Globals.default 12 1 (run_of_exec atOriginOnce rfl) 0 rfl
  exact ⟨_, _, rfl, by decide, by decide, h.mpr (.inr ⟨by decide, by decide⟩)⟩

/-- The second stream has 100 bytes of slow start, but no entry with the stamp of the first. -/
def besideOrigin : List UploadAction :=
  [.entry 1 ⟨100, 100000, by decide, by decide⟩, .timerRunning,
    .entry 0 report5, .entry 1 report7Early]

theorem besideOrigin_not_conserved : ∃ s x,
    Run Uploads.step Uploads.NonDecreasing (Uploads.start Globals.default 12 2) s ∧
    s.streams[1]? = some x ∧ s.first ≠ 0 ∧ (∃ r ∈ x.entries, s.first ≤ r.key) ∧
    ¬ x.Conserved s.first :=
  ⟨_, _, run_of_exec besideOrigin rfl, rfl, by decide, by decide, by decide⟩

end IasClient
