import Mathlib.Order.Defs.LinearOrder
import Mathlib.Algebra.BigOperators.Group.List.Basic
import Mathlib.Data.List.Perm.Subperm
import Mathlib.Data.List.Sort

namespace Framework

/-- A finite map kept in increasing key order, the order in which it is iterated. -/
structure OrdMap (κ ν : Type) [LinearOrder κ] where
  entries : List (κ × ν)
  sorted : entries.Pairwise (fun a b => a.1 < b.1)

namespace OrdMap

variable {κ ν : Type} [LinearOrder κ]

def empty : OrdMap κ ν := ⟨[], .nil⟩

instance : Inhabited (OrdMap κ ν) := ⟨empty⟩

@[ext] theorem ext {m n : OrdMap κ ν} (h : m.entries = n.entries) : m = n := by
  cases m
  cases n
  simp_all

/-- Sorted insertion; an entry with the same key is replaced. -/
def insertList (k : κ) (v : ν) : List (κ × ν) → List (κ × ν)
  | [] => [(k, v)]
  | e :: es =>
    if k < e.1 then (k, v) :: e :: es
    else if k = e.1 then (k, v) :: es
    else e :: insertList k v es

theorem mem_insertList {k : κ} {v : ν} {l : List (κ × ν)} {e : κ × ν}
    (h : e ∈ insertList k v l) : e = (k, v) ∨ e ∈ l := by
  induction l with
  | nil => simpa [insertList] using h
  | cons a l ih =>
    unfold insertList at h
    split_ifs at h with h1 h2
    · simpa using h
    · simp only [List.mem_cons] at h ⊢
      tauto
    · simp only [List.mem_cons] at h ⊢
      rcases h with h | h
      · exact .inr (.inl h)
      · rcases ih h with h | h
        · exact .inl h
        · exact .inr (.inr h)

theorem insertList_sorted (k : κ) (v : ν) {l : List (κ × ν)}
    (h : l.Pairwise (fun a b => a.1 < b.1)) :
    (insertList k v l).Pairwise (fun a b => a.1 < b.1) := by
  induction l with
  | nil => simp [insertList]
  | cons a l ih =>
    obtain ⟨ha, hl⟩ := List.pairwise_cons.mp h
    unfold insertList
    split_ifs with h1 h2
    · refine List.pairwise_cons.mpr ⟨?_, h⟩
      intro b hb
      rcases List.mem_cons.mp hb with rfl | hb
      · exact h1
      · exact h1.trans (ha b hb)
    · subst h2
      exact List.pairwise_cons.mpr ⟨ha, hl⟩
    · refine List.pairwise_cons.mpr ⟨?_, ih hl⟩
      intro b hb
      rcases mem_insertList hb with rfl | hb
      · exact lt_of_le_of_ne (not_lt.mp h1) (Ne.symm h2)
      · exact ha b hb

/-- `m[k] = v`. -/
def insert (m : OrdMap κ ν) (k : κ) (v : ν) : OrdMap κ ν :=
  ⟨insertList k v m.entries, insertList_sorted k v m.sorted⟩

def findList (k : κ) : List (κ × ν) → Option ν
  | [] => none
  | e :: es => if k = e.1 then some e.2 else findList k es

/-- The value stored under a key. -/
def find? (m : OrdMap κ ν) (k : κ) : Option ν := findList k m.entries

/-- `m[k]`, reading a missing key as the zero that C++ creates for it. -/
def get [Zero ν] (m : OrdMap κ ν) (k : κ) : ν := (m.find? k).getD 0

/-- `m[k] += v`. -/
def add [Zero ν] [Add ν] (m : OrdMap κ ν) (k : κ) (v : ν) : OrdMap κ ν :=
  m.insert k (m.get k + v)

def keys (m : OrdMap κ ν) : List κ := m.entries.map (·.1)

/-- The values in increasing key order. -/
def values (m : OrdMap κ ν) : List ν := m.entries.map (·.2)

theorem findList_insertList_self (k : κ) (v : ν) (l : List (κ × ν)) :
    findList k (insertList k v l) = some v := by
  induction l with
  | nil => simp [insertList, findList]
  | cons a l ih =>
    unfold insertList
    split_ifs with h1 h2
    · simp [findList]
    · simp [findList]
    · simp [findList, h2, ih]

theorem findList_insertList_ne {k k' : κ} (hk : k' ≠ k) (v : ν) (l : List (κ × ν)) :
    findList k' (insertList k v l) = findList k' l := by
  induction l with
  | nil => simp [insertList, findList, hk]
  | cons a l ih =>
    unfold insertList
    split_ifs with h1 h2
    · simp [findList, hk]
    · subst h2
      simp [findList, hk]
    · simp [findList, ih]

@[simp] theorem find?_empty (k : κ) : (empty : OrdMap κ ν).find? k = none := rfl

@[simp] theorem find?_insert_self (m : OrdMap κ ν) (k : κ) (v : ν) :
    (m.insert k v).find? k = some v :=
  findList_insertList_self k v m.entries

theorem find?_insert_ne (m : OrdMap κ ν) {k k' : κ} (hk : k' ≠ k) (v : ν) :
    (m.insert k v).find? k' = m.find? k' :=
  findList_insertList_ne hk v m.entries

theorem find?_insert (m : OrdMap κ ν) (k k' : κ) (v : ν) :
    (m.insert k v).find? k' = if k' = k then some v else m.find? k' := by
  split_ifs with h
  · subst h
    simp
  · exact find?_insert_ne m h v

theorem isSome_find?_insert (m : OrdMap κ ν) (k k' : κ) (v : ν) :
    ((m.insert k v).find? k').isSome = true ↔ k = k' ∨ (m.find? k').isSome = true := by
  rw [find?_insert]
  split_ifs with h
  · simp [h]
  · simp [Ne.symm h]

theorem mem_of_findList {k : κ} {v : ν} {l : List (κ × ν)} (h : findList k l = some v) :
    (k, v) ∈ l := by
  induction l with
  | nil => simp [findList] at h
  | cons a l ih =>
    unfold findList at h
    split_ifs at h with hk
    · simp only [Option.some.injEq] at h
      subst hk
      subst h
      exact List.mem_cons_self
    · exact List.mem_cons_of_mem _ (ih h)

theorem mem_of_find? {m : OrdMap κ ν} {k : κ} {v : ν} (h : m.find? k = some v) :
    (k, v) ∈ m.entries :=
  mem_of_findList h

/-- Distinct keys that all carry values satisfying `p` are counted by the entries that do. -/
theorem length_le_count {m : OrdMap κ ν} (p : ν → Bool) (ks : List κ) (hn : ks.Nodup)
    (h : ∀ k ∈ ks, ∃ v, m.find? k = some v ∧ p v = true) :
    ks.length ≤ (m.entries.filter (fun e => p e.2)).length := by
  have hsub : ks ⊆ (m.entries.filter (fun e => p e.2)).map (·.1) := by
    intro k hk
    obtain ⟨v, hv, hp⟩ := h k hk
    exact List.mem_map.mpr ⟨(k, v), List.mem_filter.mpr ⟨mem_of_find? hv, hp⟩, rfl⟩
  simpa using (List.subperm_of_subset hn hsub).length_le

/-- The entries that satisfy `p` are at most as many as the keys that they all have. -/
theorem count_le_length {m : OrdMap κ ν} (p : ν → Bool) (ks : List κ)
    (h : ∀ e ∈ m.entries, p e.2 = true → e.1 ∈ ks) :
    (m.entries.filter (fun e => p e.2)).length ≤ ks.length := by
  have hn : ((m.entries.filter (fun e => p e.2)).map (·.1)).Nodup := by
    apply List.Pairwise.map
    · exact fun a b hab => hab
    · exact (m.sorted.sublist List.filter_sublist).imp fun hab => ne_of_lt hab
  have hsub : (m.entries.filter (fun e => p e.2)).map (·.1) ⊆ ks := by
    intro k hk
    obtain ⟨e, he, rfl⟩ := List.mem_map.mp hk
    obtain ⟨hmem, hp⟩ := List.mem_filter.mp he
    exact h e hmem hp
  simpa using (List.subperm_of_subset hn hsub).length_le

theorem get_empty [Zero ν] (k : κ) : (empty : OrdMap κ ν).get k = 0 := rfl

theorem get_insert [Zero ν] (m : OrdMap κ ν) (k k' : κ) (v : ν) :
    (m.insert k v).get k' = if k' = k then v else m.get k' := by
  rw [get, find?_insert]
  split_ifs <;> rfl

theorem get_of_find?_none [Zero ν] {m : OrdMap κ ν} {k : κ} (h : m.find? k = none) :
    m.get k = 0 := by
  rw [get, h]
  rfl

/-- Assigning one value to a list of keys. -/
theorem find?_foldl_insert (ks : List κ) (v : ν) (m : OrdMap κ ν) (k : κ) :
    (ks.foldl (fun m i => m.insert i v) m).find? k = if k ∈ ks then some v else m.find? k := by
  induction ks generalizing m with
  | nil => simp
  | cons i ks ih =>
    rw [List.foldl_cons, ih, find?_insert]
    by_cases h1 : k ∈ ks
    · simp [h1]
    · by_cases h2 : k = i <;> simp [h1, h2]

theorem get_foldl_insert_zero [Zero ν] (ks : List κ) (m : OrdMap κ ν) (k : κ) :
    (ks.foldl (fun m i => m.insert i 0) m).get k = if k ∈ ks then 0 else m.get k := by
  rw [get, find?_foldl_insert]
  split_ifs <;> rfl

theorem findList_of_lt {k : κ} {l : List (κ × ν)} (h : ∀ e ∈ l, k < e.1) :
    findList k l = none := by
  induction l with
  | nil => rfl
  | cons a l ih =>
    have ha := h a (by simp)
    simp [findList, ne_of_lt ha, ih (fun e he => h e (by simp [he]))]

theorem find?_of_forall_lt {m : OrdMap κ ν} {k : κ} (h : ∀ e ∈ m.entries, e.1 < k) :
    m.find? k = none := by
  cases hf : m.find? k with
  | none => rfl
  | some v => exact absurd (h _ (mem_of_find? hf)) (lt_irrefl k)

theorem insertList_of_forall_lt {k : κ} {l : List (κ × ν)} (h : ∀ e ∈ l, e.1 < k) (v : ν) :
    insertList k v l = l ++ [(k, v)] := by
  induction l with
  | nil => rfl
  | cons a l ih =>
    have ha := h a List.mem_cons_self
    have hl := ih fun e he => h e (List.mem_cons_of_mem a he)
    rw [insertList, if_neg ha.not_gt, if_neg ha.ne', hl, List.cons_append]

/-- A key above all others goes to the end. -/
theorem entries_insert_of_forall_lt {m : OrdMap κ ν} {k : κ} (h : ∀ e ∈ m.entries, e.1 < k)
    (v : ν) : (m.insert k v).entries = m.entries ++ [(k, v)] :=
  insertList_of_forall_lt h v

theorem findList_of_mem {l : List (κ × ν)} (h : l.Pairwise (fun a b => a.1 < b.1)) {e : κ × ν}
    (he : e ∈ l) : findList e.1 l = some e.2 := by
  induction l with
  | nil => simp at he
  | cons a l ih =>
    obtain ⟨ha, hl⟩ := List.pairwise_cons.mp h
    rcases List.mem_cons.mp he with rfl | he
    · simp [findList]
    · have hne : e.1 ≠ a.1 := ne_of_gt (ha e he)
      simp [findList, hne, ih hl he]

theorem mem_entries_iff {m : OrdMap κ ν} {e : κ × ν} : e ∈ m.entries ↔ m.find? e.1 = some e.2 :=
  ⟨findList_of_mem m.sorted, mem_of_findList⟩

/-- Maps that find the same values are the same. -/
theorem ext_find? {m n : OrdMap κ ν} (h : ∀ k, m.find? k = n.find? k) : m = n := by
  have hmem : ∀ e, e ∈ m.entries ↔ e ∈ n.entries := by
    intro e
    rw [mem_entries_iff, mem_entries_iff, h]
  have hirrefl : Std.Irrefl fun a b : κ × ν => a.1 < b.1 := ⟨fun a => lt_irrefl a.1⟩
  have hantisymm : Std.Antisymm fun a b : κ × ν => a.1 < b.1 :=
    ⟨fun a b hab hba => absurd hba hab.not_gt⟩
  exact ext (m.sorted.eq_of_mem_iff n.sorted hmem)

theorem isSome_find?_iff (m : OrdMap κ ν) (k : κ) :
    (m.find? k).isSome = true ↔ ∃ e ∈ m.entries, e.1 = k := by
  constructor
  · intro h
    obtain ⟨v, hv⟩ := Option.isSome_iff_exists.mp h
    exact ⟨(k, v), mem_of_find? hv, rfl⟩
  · rintro ⟨e, he, rfl⟩
    simp [find?, findList_of_mem m.sorted he]

/-- Leaving out other keys does not change what is found. -/
theorem findList_filter {p : κ → Bool} {k : κ} (hp : p k = true) (l : List (κ × ν)) :
    findList k (l.filter fun e => p e.1) = findList k l := by
  induction l with
  | nil => rfl
  | cons a l ih =>
    by_cases hk : k = a.1
    · subst hk
      simp [hp, findList]
    · cases hpa : p a.1 <;> simp [hpa, findList, hk, ih]

section Sums

variable [AddCommMonoid ν]

def sumList (p : κ → Bool) : List (κ × ν) → ν
  | [] => 0
  | e :: es => (if p e.1 then e.2 else 0) + sumList p es

/-- The sum of the values under the keys that satisfy `p`. -/
def sumWhere (m : OrdMap κ ν) (p : κ → Bool) : ν := sumList p m.entries

theorem sumList_insertList (p : κ → Bool) (k : κ) (v : ν) {l : List (κ × ν)}
    (h : l.Pairwise (fun a b => a.1 < b.1)) :
    sumList p (insertList k v l) + (if p k then (findList k l).getD 0 else 0) =
      sumList p l + (if p k then v else 0) := by
  induction l with
  | nil => simp [insertList, sumList, findList]
  | cons a l ih =>
    obtain ⟨ha, hl⟩ := List.pairwise_cons.mp h
    by_cases h1 : k < a.1
    · have hnone : findList k (a :: l) = none := by
        apply findList_of_lt
        intro e he
        rcases List.mem_cons.mp he with rfl | he
        · exact h1
        · exact h1.trans (ha e he)
      have hins : insertList k v (a :: l) = (k, v) :: a :: l := by simp [insertList, h1]
      rw [hnone, hins]
      cases hp : p k <;> simp [sumList, hp, add_comm]
    · by_cases h2 : k = a.1
      · subst h2
        have hins : insertList a.1 v (a :: l) = (a.1, v) :: l := by simp [insertList]
        rw [hins]
        cases hp : p a.1
        · simp [sumList, hp]
        · simp only [sumList, findList, hp, if_true, Option.getD_some]
          rw [add_right_comm, add_comm v, add_right_comm]
      · have ht := ih hl
        have hins : insertList k v (a :: l) = a :: insertList k v l := by simp [insertList, h1, h2]
        have hfind : findList k (a :: l) = findList k l := by simp [findList, h2]
        rw [hins, hfind]
        simp only [sumList, add_assoc]
        rw [ht]

/-- Assigning a key exchanges its old contribution for the new one. -/
theorem sumWhere_insert (m : OrdMap κ ν) (p : κ → Bool) (k : κ) (v : ν) :
    (m.insert k v).sumWhere p + (if p k then m.get k else 0) =
      m.sumWhere p + (if p k then v else 0) :=
  sumList_insertList p k v m.sorted

@[simp] theorem sumWhere_empty (p : κ → Bool) : (empty : OrdMap κ ν).sumWhere p = 0 := rfl

omit [LinearOrder κ] in
theorem sumList_eq_zero {p : κ → Bool} {l : List (κ × ν)} (h : ∀ e ∈ l, p e.1 = true → e.2 = 0) :
    sumList p l = 0 := by
  induction l with
  | nil => rfl
  | cons a l ih =>
    have hl := ih fun e he => h e (by simp [he])
    cases hp : p a.1
    · simp [sumList, hp, hl]
    · simp [sumList, hl, h a (by simp) hp]

theorem sumWhere_eq_zero {m : OrdMap κ ν} {p : κ → Bool}
    (h : ∀ k, p k = true → m.get k = 0) : m.sumWhere p = 0 := by
  apply sumList_eq_zero
  intro e he hp
  have := h e.1 hp
  rwa [get, find?, findList_of_mem m.sorted he] at this

end Sums

theorem get_add [AddCommMonoid ν] (m : OrdMap κ ν) (k k' : κ) (v : ν) :
    (m.add k v).get k' = m.get k' + if k' = k then v else 0 := by
  rw [add, get_insert]
  split_ifs with h
  · rw [h]
  · simp

theorem add_of_find?_none [AddCommMonoid ν] {m : OrdMap κ ν} {k : κ} (h : m.find? k = none)
    (v : ν) : m.add k v = m.insert k v := by
  rw [add, get_of_find?_none h, zero_add]

theorem sumWhere_add [AddCommGroup ν] (m : OrdMap κ ν) (p : κ → Bool) (k : κ) (v : ν) :
    (m.add k v).sumWhere p = m.sumWhere p + (if p k then v else 0) := by
  have h := sumWhere_insert m p k (m.get k + v)
  cases hp : p k
  · simpa [hp, add] using h
  · simp only [hp, if_true] at h ⊢
    rw [← add_assoc, add_right_comm] at h
    exact add_right_cancel h

end OrdMap

end Framework
