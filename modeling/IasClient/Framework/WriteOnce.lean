import Mathlib.Data.List.Basic

namespace Framework

namespace WriteOnce

/-- The part of a thread in the double-checked choice of a shared value: away from it, or in the
second test, the write or the release under the lock, or relying on a value that was chosen. -/
inductive Role
  | away
  | testing
  | writing
  | releasing
  | relying
  deriving DecidableEq

/-- The thread holds the lock. -/
def Role.holds : Role → Bool
  | testing | writing | releasing => true
  | _ => false

variable {α : Type} {unset : α}

/-- One step of a thread, on the shared value and the lock. -/
inductive Turn (unset : α) : α → Bool → Role → α → Bool → Role → Prop
  | lock (v : α) : Turn unset v false .away v true .testing
  | test (b : Bool) : Turn unset unset b .testing unset b .writing
  | skip (v : α) (b : Bool) : Turn unset v b .testing v b .releasing
  | write (v v' : α) (b : Bool) : Turn unset v b .writing v' b .releasing
  | unlock (v : α) (b : Bool) : Turn unset v b .releasing v false .away
  | rely {v : α} (h : v ≠ unset) (b : Bool) : Turn unset v b .away v b .relying
  | leave (v : α) (b : Bool) : Turn unset v b .relying v b .away
  | stay (v : α) (b : Bool) (r : Role) : Turn unset v b r v b r

/-- The threads, with the value that they share and its lock. -/
structure State (α : Type) where
  value : α
  locked : Bool
  roles : List Role

/-- The invariant: one thread at most holds the lock, and the value of a thread that is about to
write is unset, that of a thread that relies on it is not. -/
structure Safe (unset : α) (s : State α) : Prop where
  exclusive : ∀ (i j : Nat) (q r : Role), s.roles[i]? = some q → s.roles[j]? = some r →
    q.holds = true → r.holds = true → i = j
  locked : ∀ r ∈ s.roles, r.holds = true → s.locked = true
  writing : .writing ∈ s.roles → s.value = unset
  relying : .relying ∈ s.roles → s.value ≠ unset

variable {v v' : α} {b b' : Bool} {roles : List Role} {j : Nat} {r r' : Role}

theorem Safe.start (v : α) (b : Bool) : Safe unset ⟨v, b, []⟩ := by
  constructor <;> simp

/-- A thread that has not come to the choice is added. -/
theorem Safe.spawn (h : Safe unset ⟨v, b, roles⟩) : Safe unset ⟨v, b, roles ++ [.away]⟩ := by
  have hold {i : Nat} {q : Role} (hi : (roles ++ [.away])[i]? = some q) (hq : q.holds = true) :
      roles[i]? = some q := by
    by_cases hlt : i < roles.length
    · rwa [List.getElem?_append_left hlt] at hi
    · obtain rfl := List.mem_singleton.mp (List.mem_of_getElem?
        ((List.getElem?_append_right (Nat.le_of_not_lt hlt)).symm.trans hi))
      contradiction
  refine ⟨fun i j q r hi hj hq hr => ?_, fun r hr hq => ?_, fun hw => ?_, fun hr => ?_⟩
  · exact h.exclusive i j q r (hold hi hq) (hold hj hr) hq hr
  · rcases List.mem_append.mp hr with hr | hr
    · exact h.locked r hr hq
    · rw [List.mem_singleton.mp hr] at hq
      contradiction
  · exact h.writing (by simpa using hw)
  · exact h.relying (by simpa using hr)

/-- What a turn of one thread has to leave to the others, and to keep itself. -/
theorem Safe.set (h : Safe unset ⟨v, b, roles⟩) (hj : roles[j]? = some r)
    (henter : r'.holds = true → (r.holds = true ∨ b = false) ∧ b' = true)
    (hlocked : b = true → r.holds = false → b' = true) (hvalue : v' = v ∨ r = .writing)
    (hwriting : r' = .writing → v' = unset) (hrelying : r' = .relying → v' ≠ unset) :
    Safe unset ⟨v', b', roles.set j r'⟩ := by
  have hset {i : Nat} {q : Role} (hi : (roles.set j r')[i]? = some q) :
      i = j ∧ q = r' ∨ i ≠ j ∧ roles[i]? = some q := by
    by_cases hij : i = j
    · subst hij
      rw [List.getElem?_set_self (List.getElem?_eq_some_iff.mp hj).1] at hi
      exact .inl ⟨rfl, (Option.some.inj hi).symm⟩
    · rw [List.getElem?_set_ne (Ne.symm hij)] at hi
      exact .inr ⟨hij, hi⟩
  have halone {i : Nat} {q : Role} (hij : i ≠ j) (hi : roles[i]? = some q) (hq : q.holds = true) :
      r.holds = false := by
    cases hr : r.holds with
    | false => rfl
    | true => exact absurd (h.exclusive i j q r hi hj hq hr) hij
  have hkept {i : Nat} {q : Role} (hij : i ≠ j) (hi : roles[i]? = some q) (hq : q.holds = true) :
      r'.holds = false ∧ b' = true := by
    have hr := halone hij hi hq
    have hb : b = true := h.locked q (List.mem_of_getElem? hi) hq
    refine ⟨?_, hlocked hb hr⟩
    cases hr' : r'.holds with
    | false => rfl
    | true => rcases (henter hr').1 with hr'' | hb' <;> simp_all
  refine ⟨fun i k q p hi hk hq hp => ?_, fun q hq hh => ?_, fun hw => ?_, fun hu => ?_⟩
  · rcases hset hi with ⟨rfl, rfl⟩ | ⟨hij, hi'⟩
    · rcases hset hk with ⟨rfl, -⟩ | ⟨hkj, hk'⟩
      · rfl
      · rw [(hkept hkj hk' hp).1] at hq
        contradiction
    · rcases hset hk with ⟨rfl, rfl⟩ | ⟨hkj, hk'⟩
      · rw [(hkept hij hi' hq).1] at hp
        contradiction
      · exact h.exclusive i k q p hi' hk' hq hp
  · obtain ⟨i, hi⟩ := List.getElem?_of_mem hq
    rcases hset hi with ⟨rfl, rfl⟩ | ⟨hij, hi⟩
    · exact (henter hh).2
    · exact (hkept hij hi hh).2
  · obtain ⟨i, hi⟩ := List.getElem?_of_mem hw
    rcases hset hi with ⟨-, hr'⟩ | ⟨hij, hi⟩
    · exact hwriting hr'.symm
    · rcases hvalue with rfl | rfl
      · exact h.writing (List.mem_of_getElem? hi)
      · have := halone hij hi rfl
        contradiction
  · obtain ⟨i, hi⟩ := List.getElem?_of_mem hu
    rcases hset hi with ⟨-, hr'⟩ | ⟨hij, hi⟩
    · exact hrelying hr'.symm
    · have hv := h.relying (List.mem_of_getElem? hi)
      rcases hvalue with rfl | rfl
      · exact hv
      · exact absurd (h.writing (List.mem_of_getElem? hj)) hv

/-- Every turn keeps the invariant. -/
theorem Safe.turn (h : Safe unset ⟨v, b, roles⟩) (hj : roles[j]? = some r)
    (ht : Turn unset v b r v' b' r') : Safe unset ⟨v', b', roles.set j r'⟩ := by
  have hmem : r ∈ roles := List.mem_of_getElem? hj
  have hlocked (hr : r.holds = true) : b = true := h.locked r hmem hr
  cases ht with
  | lock => exact h.set hj (fun _ => ⟨.inr rfl, rfl⟩) (fun _ _ => rfl) (.inl rfl) nofun nofun
  | test =>
    exact h.set hj (fun _ => ⟨.inl rfl, hlocked rfl⟩) (fun hb _ => hb) (.inl rfl) (fun _ => rfl)
      nofun
  | skip =>
    exact h.set hj (fun _ => ⟨.inl rfl, hlocked rfl⟩) (fun hb _ => hb) (.inl rfl) nofun nofun
  | write =>
    exact h.set hj (fun _ => ⟨.inl rfl, hlocked rfl⟩) (fun hb _ => hb) (.inr rfl) nofun nofun
  | unlock => exact h.set hj nofun nofun (.inl rfl) nofun nofun
  | rely hv => exact h.set hj nofun (fun hb _ => hb) (.inl rfl) nofun fun _ => hv
  | leave => exact h.set hj nofun (fun hb _ => hb) (.inl rfl) nofun nofun
  | stay =>
    exact h.set hj (fun hr => ⟨.inl hr, hlocked hr⟩) (fun hb _ => hb) (.inl rfl)
      (fun hr => h.writing (hr ▸ hmem)) fun hr => h.relying (hr ▸ hmem)

/-- A turn that changes the value is a write, of a value that was unset. -/
theorem Safe.changes (h : Safe unset ⟨v, b, roles⟩) (hj : roles[j]? = some r)
    (ht : Turn unset v b r v' b' r') (hv : v' ≠ v) : r = .writing ∧ v = unset := by
  cases ht with
  | write => exact ⟨rfl, h.writing (List.mem_of_getElem? hj)⟩
  | _ => exact absurd rfl hv

end WriteOnce

end Framework
