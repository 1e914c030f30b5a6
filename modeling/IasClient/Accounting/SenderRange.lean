import IasClient.Framework.Run
import IasClient.Model.Libtool
import IasClient.Model.UploadSender
import Mathlib.Data.Nat.ModEq

namespace IasClient

open Framework

namespace CUploadSender

/-- The `k`-th range `[p, p + P)` lies in the data, behind its first byte, at the place that `k`
sends and `w` wrap-arounds lead to. -/
structure InRange (P : UInt64) (d : RandomData) (k : Nat) (p : UInt64) (w : Nat) : Prop where
  pos : 1 ≤ p.toNat
  le : p.toNat + P.toNat ≤ d.values.length
  offset : p.toNat ≡ 1 + (k + w) * P.toNat [MOD d.values.length]

/-- Before the `k`-th send, `k` packets and `w` wrap-arounds from the first byte. -/
structure Placed (P : UInt64) (d : RandomData) (s : Sender) : Prop where
  pos : 1 ≤ s.nPointer.toNat
  le : s.nPointer.toNat ≤ d.values.length
  atSend : s.pc = .send → s.nPointer.toNat + P.toNat ≤ d.values.length
  place : s.nPointer.toNat + s.wraps * d.values.length =
    1 + (s.sends.length + s.wraps) * P.toNat
  sends : ∀ k p w, s.sends[k]? = some (p, w) → InRange P d k p w

variable {P : UInt64} {d : RandomData} {i : SenderInput} {s s' : Sender}

/-- The sum of the test does not overflow. -/
theorem toNat_advance (hN : 2 * P.toNat ≤ d.values.length) (h : Placed P d s) :
    (s.nPointer + P).toNat = s.nPointer.toNat + P.toNat := by
  have hmax := d.max_size
  have hle := h.le
  rw [UInt64.toNat_add]
  omega

theorem Placed.inRange (h : Placed P d s) (hpc : s.pc = .send) :
    InRange P d s.sends.length s.nPointer s.wraps := by
  refine ⟨h.pos, h.atSend hpc, ?_⟩
  rw [← h.place]
  exact (Nat.add_mul_modulus_modEq_iff.mpr Nat.ModEq.rfl).symm

theorem Placed.step (hN : 2 * P.toNat ≤ d.values.length) (h : Placed P d s)
    (hs : run P d i s = some s') : Placed P d s' := by
  have hadvance := toNat_advance hN h
  cases hp : s.pc <;> simp only [run, hp] at hs
  case whileRunning =>
    obtain rfl := Option.some.inj hs
    refine ⟨h.pos, h.le, ?_, h.place, h.sends⟩
    simp only
    split <;> simp
  case whileError =>
    obtain rfl := Option.some.inj hs
    refine ⟨h.pos, h.le, ?_, h.place, h.sends⟩
    simp only
    split <;> simp
  case ifEnd =>
    by_cases hend : d.size < s.nPointer + P
    · rw [if_pos hend] at hs
      obtain rfl := Option.some.inj hs
      rw [UInt64.lt_iff_toNat_lt, d.toNat_size, hadvance] at hend
      have hsub : (s.nPointer + P - d.size).toNat =
          s.nPointer.toNat + P.toNat - d.values.length := by
        rw [UInt64.toNat_sub_of_le, hadvance, d.toNat_size]
        rw [UInt64.le_iff_toNat_le, hadvance, d.toNat_size]
        omega
      have hle := h.le
      have hplace := h.place
      refine ⟨?_, ?_, fun _ => ?_, ?_, h.sends⟩
      · simp only [hsub]
        omega
      · simp only [hsub]
        omega
      · simp only [hsub]
        omega
      · simp only [hsub]
        rw [Nat.add_mul s.wraps 1, ← Nat.add_assoc s.sends.length,
          Nat.add_mul (s.sends.length + s.wraps) 1]
        omega
    · rw [if_neg hend] at hs
      obtain rfl := Option.some.inj hs
      rw [UInt64.lt_iff_toNat_lt, d.toNat_size, hadvance] at hend
      exact ⟨h.pos, h.le, fun _ => Nat.not_lt.mp hend, h.place, h.sends⟩
  case send =>
    obtain rfl := Option.some.inj hs
    have hrange := h.inRange hp
    have hplace := h.place
    refine ⟨?_, ?_, fun hpc => by contradiction, ?_, ?_⟩
    · simp only [hadvance]
      have := h.pos
      omega
    · simp only [hadvance]
      exact h.atSend hp
    · simp only [hadvance, List.length_append, List.length_singleton]
      rw [Nat.add_right_comm s.sends.length 1, Nat.add_mul (s.sends.length + s.wraps) 1]
      omega
    · intro k p w hk
      by_cases hlast : k < s.sends.length
      · rw [List.getElem?_append_left hlast] at hk
        exact h.sends k p w hk
      · have hlen := (List.getElem?_eq_some_iff.mp hk).1
        rw [List.length_append, List.length_singleton] at hlen
        obtain rfl : k = s.sends.length := by omega
        rw [List.getElem?_concat_length] at hk
        obtain ⟨rfl, rfl⟩ := Prod.mk.inj (Option.some.inj hk)
        exact hrange
  case ifResponse =>
    obtain rfl := Option.some.inj hs
    refine ⟨h.pos, h.le, ?_, h.place, h.sends⟩
    simp only
    split <;> simp
  case ifStop =>
    obtain rfl := Option.some.inj hs
    refine ⟨h.pos, h.le, ?_, h.place, h.sends⟩
    simp only
    split <;> simp
  case returned => contradiction

theorem Placed.run (hP : 1 ≤ P.toNat) (hN : 2 * P.toNat ≤ d.values.length)
    (h : Run (CUploadSender.run P d) (fun _ _ => True) {} s) : Placed P d s := by
  refine Run.invariant (fun _ _ _ hi _ hs => hi.step hN hs) ?_ h
  refine ⟨le_rfl, ?_, fun hpc => by contradiction, by simp, by simp⟩
  show 1 ≤ d.values.length
  omega

/-- With data of at least two packets the sender stays inside it for ever: every range that it
passes to `send` is inside, and the pointer has its exact value, which no update has wrapped. -/
theorem sends_in_range (d : RandomData) {P : UInt64} (hP : 1 ≤ P.toNat)
    (hN : 2 * P.toNat ≤ d.values.length)
    (h : Run (CUploadSender.run P d) (fun _ _ => True) {} s) :
    (∀ k p w, s.sends[k]? = some (p, w) → InRange P d k p w) ∧
      s.nPointer.toNat + s.wraps * d.values.length =
        1 + (s.sends.length + s.wraps) * P.toNat ∧
      (s.nPointer + P).toNat = s.nPointer.toNat + P.toNat := by
  have hplaced := Placed.run hP hN h
  exact ⟨hplaced.sends, hplaced.place, toNat_advance hN hplaced⟩

/-- A step in which nothing ends the loop. -/
def goOn : SenderInput := { g := Globals.default, m_fStop := false, code := 2 }

/-- Four packets of two bytes from five. -/
theorem sends_in_range_fiveBytes : ∃ s : Sender,
    s.sends = [(1, 0), (3, 0), (2, 1), (1, 2)] ∧
      ∀ k p w, s.sends[k]? = some (p, w) → InRange 2 ⟨[1, 2, 3, 4, 5], by decide⟩ k p w :=
  ⟨_, rfl, (sends_in_range ⟨[1, 2, 3, 4, 5], by decide⟩ (P := 2) (by decide) (by decide)
    (run_of_exec (List.replicate 24 goOn) rfl)).1⟩

-- With data of less than two packets the second range ends behind the data.
example : ((exec (CUploadSender.run 2 ⟨[1, 2, 3], by decide⟩) (List.replicate 10 goOn) {}).map
    fun s => s.sends.map (·.1)) = some [1, 2] := by decide

end CUploadSender

end IasClient
