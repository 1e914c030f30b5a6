import IasClient.Framework.Run

namespace Framework

variable {σ α ρ ε : Type}

/-- The words that take a labelled transition system from one state to another. -/
inductive Path (spec : ρ → ε → ρ → Prop) (q : ρ) : List ε → ρ → Prop
  | nil : Path spec q [] q
  | snoc {es : List ε} {e : ε} {r t : ρ} : Path spec q es r → spec r e t → Path spec q (es ++ [e]) t

variable {spec : ρ → ε → ρ → Prop} {q r t : ρ} {es fs : List ε}

theorem Path.single {e : ε} (h : spec q e r) : Path spec q [e] r := .snoc .nil h

theorem Path.append (h : Path spec q es r) (k : Path spec r fs t) : Path spec q (es ++ fs) t := by
  induction k with
  | nil => simpa using h
  | snoc _ hs ih => exact List.append_assoc .. ▸ ih.snoc hs

theorem Path.of_mem {e : ε} (h : Path spec q es r) (he : e ∈ es) : ∃ q' r', spec q' e r' := by
  induction h with
  | nil => simp at he
  | snoc _ hs ih =>
    rcases List.mem_append.mp he with he | he
    · exact ih he
    · exact List.mem_singleton.mp he ▸ ⟨_, _, hs⟩

/-- If every step of a system appends to its log a word that the specification follows, the
specification follows the log of every run; `J` is known of every state of the runs. -/
theorem Run.simulated {step : α → σ → Option σ} {ok : σ → α → Prop} {s u : σ} (log : σ → List ε)
    {J : σ → Prop} {R : σ → ρ → Prop} (hJ : ∀ t, Run step ok s t → J t)
    (hstep : ∀ t a v r, J t → R t r → ok t a → step a t = some v →
      ∃ es r', log v = log t ++ es ∧ Path spec r es r' ∧ R v r')
    (hq : Path spec q (log s) r) (h0 : R s r) (h : Run step ok s u) :
    ∃ r', Path spec q (log u) r' ∧ R u r' := by
  refine Run.invariant_of (I := fun v => ∃ r', Path spec q (log v) r' ∧ R v r') hJ ?_ ⟨r, hq, h0⟩ h
  rintro t a v ht - ⟨p, hp, hR⟩ ha hs
  obtain ⟨es, p', hlog, hes, hR'⟩ := hstep t a v p ht hR ha hs
  exact ⟨p', hlog ▸ hp.append hes, hR'⟩

end Framework
