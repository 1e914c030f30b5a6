import IasClient.Model.Ping
import IasClient.Framework.Run
import Mathlib.Data.List.GetD
import Mathlib.Data.List.Sort
import Mathlib.Data.Set.Function
import Mathlib.Order.Interval.Set.Basic

namespace IasClient

open Framework

namespace Ping

/-- Bytes of a ping. -/
def ECHO : Nat := 64

/-- `SO_RCVTIMEO` in microseconds. -/
def receiveTimeout : Nat := 1000000

/-- An echo and the time at which it reaches the socket. -/
structure Datagram where
  arrival : Nat
  payload : List UInt8
  deriving DecidableEq

/-- The receive queue of the socket together with what is still on its way, in order of arrival. -/
structure Socket where
  now : Nat
  pending : List Datagram

namespace Socket

def enqueue (d : Datagram) (ds : List Datagram) : List Datagram :=
  ds.orderedInsert (fun a b => a.arrival < b.arrival) d

/-- `sendto`, answered after `delay` or never. -/
def sendto (payload : List UInt8) (delay : Option Nat) (s : Socket) : Socket :=
  match delay with
  | none => s
  | some d => { s with pending := enqueue ⟨s.now + d, payload⟩ s.pending }

def wait (d : Nat) (s : Socket) : Socket := { s with now := s.now + d }

/-- `recvfrom`: the first datagram of the queue, or none before the timeout. -/
def recvfrom (s : Socket) : Option (List UInt8) × Socket :=
  match s.pending with
  | [] => (none, s.wait receiveTimeout)
  | d :: ds =>
    if d.arrival < s.now + receiveTimeout then
      (some d.payload, { now := max s.now d.arrival, pending := ds })
    else (none, s.wait receiveTimeout)

end Socket

/-- What the pings of one run meet: the echo of the `i`-th one comes after `delay i` or never,
and the thread takes `gap i` from `sendto` to `recvfrom` and `pause i` to the next ping. -/
structure Network where
  start : Nat
  timestampMeasurementStart : Int
  payload : Nat → List UInt8
  delay : Nat → Option Nat
  gap : Nat → Nat
  pause : Nat → Nat
  length_payload : ∀ i, (payload i).length = ECHO

/-- `mResponse` -/
def response : Option (List UInt8) → Int
  | none => -1
  | some payload => payload.length

/-- The `i`-th pass of the loop. -/
def iteration (net : Network) (i : Nat) (p : PingData) (s : Socket) : PingData × Socket :=
  let r := ((s.sendto (net.payload i) (net.delay i)).wait (net.gap i)).recvfrom
  let now := UInt64.ofNat r.2.now
  (evaluate now now net.timestampMeasurementStart (response r.1)
      { p with
        sbuffer := net.payload i
        time1 := UInt64.ofNat s.now
        rbuffer := r.1.getD [] },
    r.2.wait (net.pause i))

def pings (net : Network) : Nat → PingData × Socket
  | 0 => ({}, { now := net.start, pending := [] })
  | n + 1 => iteration net (n + 1) (pings net n).1 (pings net n).2

/-- The three steps of `run` from `sendto` to the end of the pass do what `iteration` does. -/
theorem run_iteration (env : Env) (net : Network) (i : Nat) (s : Socket) {g g' g'' : Globals}
    {w : Worker} {r : Option (List UInt8) × Socket} (hpc : w.pc = .sendto)
    (hr : ((s.sendto (net.payload i) (net.delay i)).wait (net.gap i)).recvfrom = r)
    (hg : g.now = UInt64.ofNat s.now) (hg'' : g''.now = UInt64.ofNat r.2.now)
    (hstart : g''.timestampMeasurementStart = net.timestampMeasurementStart) (o : Outcome) :
    ∃ w' w'' w₃, run env { bytes := net.payload i } g w = some (g, w') ∧
      run env { code := response r.1, bytes := r.1.getD [] } g' w' = some (g', w'') ∧
      run env o g'' w'' = some (g'', w₃) ∧
      w₃.pc = .pingRunning ∧ w₃.ping = (iteration net i w.ping s).1 := by
  refine ⟨_, _, _, by rw [run, hpc], rfl, rfl, rfl, ?_⟩
  simp only [iteration, hr, hg, hg'', hstart]

/-- The own echo of ping `i` is in the queue, or arrives, before the timeout of its pass. -/
def InTime (net : Network) (i : Nat) : Prop :=
  ∃ d, net.delay i = some d ∧ d < net.gap i + receiveTimeout

/-- No echo of an earlier ping is in the queue or arrives before the own echo of ping `i`. -/
def InFront (net : Network) (i : Nat) (s : Socket) : Prop :=
  ∀ d, net.delay i = some d → ∀ e ∈ s.pending, s.now + d < e.arrival

theorem mirroredPayloadVerified_iff {r s : List UInt8} (h : r.length = s.length) :
    mirroredPayloadVerified (r.length : Int) r s = true ↔ r = s := by
  rw [mirroredPayloadVerified, Int.toNat_natCast, List.all_eq_true]
  constructor
  · intro hall
    apply List.ext_getElem h
    intro k hr hs
    have hk := hall k (List.mem_range.mpr hr)
    rw [List.getD_eq_getElem _ _ hr, List.getD_eq_getElem _ _ hs, beq_iff_eq] at hk
    exact hk
  · intro hrs k _
    rw [hrs]
    exact beq_self_eq_true _

section Evaluate

variable {time2 time3 : UInt64} {start m : Int} {p : PingData}

@[simp] theorem evaluate_i : (evaluate time2 time3 start m p).i = p.i + 1 := by
  unfold evaluate
  split <;> (try split) <;> (try split) <;> rfl

@[simp] theorem evaluate_firstResponse :
    (evaluate time2 time3 start m p).firstResponse = false := by
  unfold evaluate
  split
  · rfl
  · rename_i hf
    have hf' : p.firstResponse = false := by simpa using hf
    split
    · exact hf'
    · split
      · exact hf'
      · exact hf'

theorem evaluate_find?_ne {k : Int} (hk : k ≠ p.i) :
    (evaluate time2 time3 start m p).results.find? k = p.results.find? k := by
  unfold evaluate
  split
  · rfl
  · split
    · rfl
    · split
      · simp only
        split
        · exact OrdMap.find?_insert_ne _ hk _
        · exact OrdMap.find?_insert_ne _ hk _
      · rfl

/-- A pass counts its ping when the answer is the payload sent, and changes no result otherwise. -/
theorem evaluate_counted (hf : p.firstResponse = false) (hm : m ≠ -1)
    (hv : mirroredPayloadVerified m p.rbuffer p.sbuffer = true) :
    ((evaluate time2 time3 start m p).results.find? p.i).isSome = true ∧
      (evaluate time2 time3 start m p).nReplies = p.nReplies + 1 := by
  simp only [evaluate, hf, hm, hv, if_true, if_false, Bool.false_eq_true, and_true]
  split
  · rw [OrdMap.find?_insert_self]
    rfl
  · rw [OrdMap.add, OrdMap.find?_insert_self]
    rfl

theorem evaluate_uncounted
    (h : m = -1 ∨ mirroredPayloadVerified m p.rbuffer p.sbuffer = false) :
    (evaluate time2 time3 start m p).results = p.results := by
  unfold evaluate
  split
  · rfl
  · split
    · rfl
    · rename_i hm
      rw [if_neg (by simp [h.resolve_left hm])]

end Evaluate

theorem response_eq_neg_one_iff {r : Option (List UInt8)} : response r = -1 ↔ r = none := by
  cases r with
  | none => simp [response]
  | some payload =>
    simp only [response, reduceCtorEq]

section Pings

variable (net : Network)

@[simp] theorem pings_i (n : Nat) : (pings net n).1.i = n + 1 := by
  induction n with
  | zero => rfl
  | succ n ih =>
    rw [pings, iteration, evaluate_i]
    simp only [ih]
    push_cast
    rfl

theorem pings_firstResponse {n : Nat} (hn : 0 < n) : (pings net n).1.firstResponse = false := by
  obtain ⟨k, rfl⟩ : ∃ k, n = k + 1 := ⟨n - 1, by omega⟩
  exact evaluate_firstResponse

/-- A pass leaves the results of the other pings as they are. -/
theorem pings_succ_find?_ne (n : Nat) {k : Int} (hk : k ≠ n + 1) :
    (pings net (n + 1)).1.results.find? k = (pings net n).1.results.find? k := by
  rw [pings, iteration]
  apply evaluate_find?_ne
  simpa using hk

theorem pings_find?_of_le {m n : Nat} (hmn : m ≤ n) {k : Int} (hk : k ≤ m) :
    (pings net n).1.results.find? k = (pings net m).1.results.find? k := by
  induction n, hmn using Nat.le_induction with
  | base => rfl
  | succ n hmn ih =>
    rw [pings_succ_find?_ne net n (by omega)]
    exact ih

theorem pings_find?_of_lt (n : Nat) {k : Int} (hk : (n : Int) < k) :
    (pings net n).1.results.find? k = none := by
  induction n with
  | zero => rfl
  | succ n ih =>
    rw [pings_succ_find?_ne net n (by omega)]
    exact ih (by omega)

end Pings

namespace Socket

theorem mem_enqueue {d e : Datagram} {ds : List Datagram} : e ∈ enqueue d ds ↔ e = d ∨ e ∈ ds := by
  rw [enqueue, List.mem_orderedInsert]

theorem enqueue_sorted {d : Datagram} {ds : List Datagram}
    (h : ds.Pairwise (fun a b => a.arrival ≤ b.arrival)) :
    (enqueue d ds).Pairwise (fun a b => a.arrival ≤ b.arrival) := by
  induction ds with
  | nil => exact List.pairwise_singleton _ _
  | cons a ds ih =>
    obtain ⟨ha, hds⟩ := List.pairwise_cons.mp h
    rw [enqueue, List.orderedInsert_cons]
    split
    · rename_i hlt
      refine List.pairwise_cons.mpr ⟨?_, h⟩
      intro b hb
      cases hb with
      | head => exact hlt.le
      | tail _ hb => exact hlt.le.trans (ha b hb)
    · rename_i hlt
      refine List.pairwise_cons.mpr ⟨?_, ih hds⟩
      intro b hb
      rcases mem_enqueue.mp hb with rfl | hb
      · exact not_lt.mp hlt
      · exact ha b hb

/-- A datagram is the first of the queue it is put into exactly when the others come later. -/
theorem head?_enqueue_eq_iff {d : Datagram} {ds : List Datagram}
    (h : ds.Pairwise (fun a b => a.arrival ≤ b.arrival)) (hd : d ∉ ds) :
    (enqueue d ds).head? = some d ↔ ∀ e ∈ ds, d.arrival < e.arrival := by
  cases ds with
  | nil => simp [enqueue]
  | cons a ds =>
    rw [enqueue, List.orderedInsert_cons]
    split
    · rename_i hlt
      simp only [List.head?_cons, true_iff]
      intro e he
      cases he with
      | head => exact hlt
      | tail _ he => exact hlt.trans_le ((List.pairwise_cons.mp h).1 e he)
    · rename_i hlt
      simp only [List.head?_cons, Option.some.injEq]
      constructor
      · intro heq
        exact absurd (heq ▸ List.mem_cons_self) hd
      · intro hall
        exact absurd (hall a List.mem_cons_self) hlt

theorem recvfrom_eq_some_iff {s : Socket} {payload : List UInt8} :
    s.recvfrom.1 = some payload ↔
      ∃ e, s.pending.head? = some e ∧ e.payload = payload ∧
        e.arrival < s.now + receiveTimeout := by
  unfold recvfrom
  cases hp : s.pending with
  | nil => simp
  | cons e es =>
    simp only [List.head?_cons, Option.some.injEq, exists_eq_left']
    split
    · rename_i hlt
      simp [hlt]
    · rename_i hlt
      simp [hlt]

theorem mem_recvfrom {s : Socket} {e : Datagram} (h : e ∈ s.recvfrom.2.pending) :
    e ∈ s.pending := by
  unfold recvfrom at h
  cases hp : s.pending with
  | nil =>
    simp only [hp, wait] at h
    contradiction
  | cons d ds =>
    simp only [hp] at h
    split at h
    · exact List.mem_cons_of_mem d h
    · simpa only [wait, hp] using h

theorem recvfrom_sorted {s : Socket}
    (h : s.pending.Pairwise (fun a b => a.arrival ≤ b.arrival)) :
    s.recvfrom.2.pending.Pairwise (fun a b => a.arrival ≤ b.arrival) := by
  unfold recvfrom
  cases hp : s.pending with
  | nil => simp [wait, hp]
  | cons d ds =>
    rw [hp] at h
    simp only
    split
    · exact (List.pairwise_cons.mp h).2
    · simpa only [wait, hp] using h

end Socket

/-- The socket between two passes: in order of arrival, the echoes of pings up to `n`. -/
structure Outstanding (net : Network) (n : Nat) (s : Socket) : Prop where
  sorted : s.pending.Pairwise (fun a b => a.arrival ≤ b.arrival)
  echo : ∀ e ∈ s.pending, ∃ j ∈ Set.Icc 1 n, e.payload = net.payload j

theorem Outstanding.sendto {net : Network} {n : Nat} {s : Socket} (h : Outstanding net n s) :
    Outstanding net (n + 1) (s.sendto (net.payload (n + 1)) (net.delay (n + 1))) := by
  have hecho : ∀ e ∈ s.pending, ∃ j ∈ Set.Icc 1 (n + 1), e.payload = net.payload j := by
    intro e he
    obtain ⟨j, hj, heq⟩ := h.echo e he
    exact ⟨j, ⟨hj.1, Nat.le_succ_of_le hj.2⟩, heq⟩
  unfold Socket.sendto
  cases net.delay (n + 1) with
  | none => exact ⟨h.sorted, hecho⟩
  | some d =>
    refine ⟨Socket.enqueue_sorted h.sorted, ?_⟩
    intro e he
    rcases Socket.mem_enqueue.mp he with rfl | he
    · exact ⟨n + 1, ⟨by omega, le_rfl⟩, rfl⟩
    · exact hecho e he

theorem Outstanding.recvfrom {net : Network} {n : Nat} {s : Socket} (h : Outstanding net n s) :
    Outstanding net n s.recvfrom.2 :=
  ⟨Socket.recvfrom_sorted h.sorted, fun e he => h.echo e (Socket.mem_recvfrom he)⟩

theorem pings_outstanding (net : Network) (n : Nat) : Outstanding net n (pings net n).2 := by
  induction n with
  | zero => exact ⟨List.Pairwise.nil, by simp [pings]⟩
  | succ n ih =>
    have hsent := ih.sendto
    have hwait : Outstanding net (n + 1)
        (((pings net n).2.sendto (net.payload (n + 1)) (net.delay (n + 1))).wait
          (net.gap (n + 1))) := ⟨hsent.sorted, hsent.echo⟩
    have hrecv := hwait.recvfrom
    exact ⟨hrecv.sorted, hrecv.echo⟩

/-- A pass receives its own echo exactly when that is in time and in front. -/
theorem receives_own_iff {net : Network} {n : Nat} {s : Socket} (h : Outstanding net n s)
    (hd : Set.InjOn net.payload (Set.Icc 1 (n + 1))) :
    ((s.sendto (net.payload (n + 1)) (net.delay (n + 1))).wait (net.gap (n + 1))).recvfrom.1 =
        some (net.payload (n + 1)) ↔
      InTime net (n + 1) ∧ InFront net (n + 1) s := by
  have hfresh : ∀ e ∈ s.pending, e.payload ≠ net.payload (n + 1) := by
    intro e he heq
    obtain ⟨j, hj, hpj⟩ := h.echo e he
    have hjn := hd ⟨hj.1, Nat.le_succ_of_le hj.2⟩ ⟨by omega, le_rfl⟩ (hpj.symm.trans heq)
    have := hj.2
    omega
  rw [Socket.recvfrom_eq_some_iff]
  unfold Socket.sendto InTime InFront
  cases net.delay (n + 1) with
  | none =>
    simp only [Socket.wait, reduceCtorEq, false_and, exists_false, iff_false, not_exists]
    intro e he
    exact hfresh e (List.mem_of_mem_head? he.1) he.2.1
  | some d =>
    have hnew : (⟨s.now + d, net.payload (n + 1)⟩ : Datagram) ∉ s.pending :=
      fun hmem => hfresh _ hmem rfl
    simp only [Socket.wait, Option.some.injEq, exists_eq_left', forall_eq']
    rw [← Socket.head?_enqueue_eq_iff h.sorted hnew]
    constructor
    · rintro ⟨e, hhead, hpay, hlt⟩
      have he : e = ⟨s.now + d, net.payload (n + 1)⟩ := by
        rcases Socket.mem_enqueue.mp (List.mem_of_mem_head? hhead) with he | he
        · exact he
        · exact absurd hpay (hfresh e he)
      subst he
      exact ⟨by simp only at hlt; omega, hhead⟩
    · rintro ⟨hlt, hhead⟩
      exact ⟨_, hhead, rfl, by simp only; omega⟩

/-- Ping `i` is counted in `nReplies` by its pass, and `n` passes end with a result for it. -/
def Counted (net : Network) (i n : Nat) : Prop :=
  (pings net i).1.nReplies = (pings net (i - 1)).1.nReplies + 1 ∧
    ((pings net n).1.results.find? i).isSome = true

theorem pings_succ_of_own (net : Network) {k : Nat} (hk : 1 ≤ k)
    (h : (((pings net k).2.sendto (net.payload (k + 1)) (net.delay (k + 1))).wait
      (net.gap (k + 1))).recvfrom.1 = some (net.payload (k + 1))) :
    ((pings net (k + 1)).1.results.find? (k + 1)).isSome = true ∧
      (pings net (k + 1)).1.nReplies = (pings net k).1.nReplies + 1 := by
  have hi := pings_i net k
  rw [pings, iteration, h, ← hi]
  apply evaluate_counted
  · exact pings_firstResponse net hk
  · simp [response_eq_neg_one_iff]
  · rw [response]
    exact (mirroredPayloadVerified_iff rfl).mpr rfl

theorem pings_succ_of_not_own (net : Network) {k : Nat}
    (h : (((pings net k).2.sendto (net.payload (k + 1)) (net.delay (k + 1))).wait
      (net.gap (k + 1))).recvfrom.1 ≠ some (net.payload (k + 1))) :
    (pings net (k + 1)).1.results = (pings net k).1.results := by
  rw [pings, iteration]
  apply evaluate_uncounted
  have hout := (pings_outstanding net k).sendto
  cases hr : (((pings net k).2.sendto (net.payload (k + 1)) (net.delay (k + 1))).wait
      (net.gap (k + 1))).recvfrom.1 with
  | none => exact Or.inl rfl
  | some payload =>
    right
    obtain ⟨e, hhead, hpay, -⟩ := Socket.recvfrom_eq_some_iff.mp hr
    obtain ⟨j, -, hj⟩ := hout.echo e (List.mem_of_mem_head? hhead)
    have hlen : payload.length = (net.payload (k + 1)).length := by
      rw [← hpay, hj, net.length_payload, net.length_payload]
    rw [response, ← Bool.not_eq_true]
    simp only [Option.getD_some]
    rw [mirroredPayloadVerified_iff hlen]
    intro heq
    exact h (hr.trans (congrArg some heq))

/-- A ping is counted exactly when its echo is in time and no echo of an earlier ping is in the
queue or arrives before it. -/
theorem counted_iff (net : Network) {i n : Nat} (hd : Set.InjOn net.payload (Set.Icc 1 n))
    (h2 : 2 ≤ i) (hn : i ≤ n) :
    Counted net i n ↔ InTime net i ∧ InFront net i (pings net (i - 1)).2 := by
  obtain ⟨k, rfl⟩ : ∃ k, i = k + 1 := ⟨i - 1, by omega⟩
  have hdk : Set.InjOn net.payload (Set.Icc 1 (k + 1)) :=
    hd.mono (Set.Icc_subset_Icc le_rfl hn)
  rw [Nat.add_sub_cancel, ← receives_own_iff (pings_outstanding net k) hdk, Counted,
    Nat.add_sub_cancel, pings_find?_of_le net hn le_rfl, Int.natCast_succ]
  constructor
  · rintro ⟨-, hsome⟩
    by_contra hown
    rw [pings_succ_of_not_own net hown, pings_find?_of_lt net k (by omega)] at hsome
    contradiction
  · intro hown
    obtain ⟨hsome, hcount⟩ := pings_succ_of_own net (by omega) hown
    exact ⟨hcount, hsome⟩

/-- A ping every half second and its echo after `delay`; the payload repeats the number. -/
def everyHalfSecond (delay : Nat → Option Nat) : Network where
  start := 0
  timestampMeasurementStart := 0
  payload i := List.replicate ECHO (UInt8.ofNat i)
  delay := delay
  gap _ := 0
  pause _ := 500000
  length_payload _ := List.length_replicate

theorem everyHalfSecond_injOn (delay : Nat → Option Nat) :
    Set.InjOn (everyHalfSecond delay).payload (Set.Icc 1 3) := by
  intro i hi j hj h
  have hij : UInt8.ofNat i = UInt8.ofNat j := (List.replicate_inj.mp h).2.resolve_left (by decide)
  have hmod := congrArg UInt8.toNat hij
  simp only [UInt8.toNat_ofNat'] at hmod
  have := hi.2
  have := hj.2
  omega

theorem counted_iff_promptEcho : Counted (everyHalfSecond fun _ => some 10) 2 3 := by
  refine (counted_iff _ (everyHalfSecond_injOn _) (by decide) (by decide)).mpr ⟨?_, ?_⟩
  · exact ⟨10, rfl, by decide⟩
  · intro d _ e he
    revert he
    have hnil : (pings (everyHalfSecond fun _ => some 10) (2 - 1)).2.pending = [] := by decide
    rw [hnil]
    exact fun he => absurd he List.not_mem_nil

/-- The echo of ping 2 comes after 1.2 s, the others after 10 µs: ping 3 receives it as its own. -/
theorem delayedEcho_costs_next :
    ∃ delay, Set.InjOn (everyHalfSecond delay).payload (Set.Icc 1 3) ∧
      InTime (everyHalfSecond delay) 3 ∧ ¬ Counted (everyHalfSecond delay) 3 3 := by
  refine ⟨fun i => some (if i = 2 then 1200000 else 10), everyHalfSecond_injOn _,
    ⟨10, rfl, by decide⟩, ?_⟩
  rintro ⟨-, hsome⟩
  revert hsome
  decide

end Ping

end IasClient
