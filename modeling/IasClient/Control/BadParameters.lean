import IasClient.Model.Startup
import IasClient.Control.Independence

namespace IasClient

open Framework

open Json11 (member)

namespace Startup

/-- Valid JSON, with a target in the array under `wsTargets`. -/
def Usable (parse : String → Option Json11) (s : String) : Prop :=
  ∃ m targets, parse s = some (.object m) ∧ m.lookup "wsTargets" = some (.array targets) ∧
    targets ≠ []

/-- The target selection is not evaluated with size 0, no test case is started, and the call ends
with RUNNING false. -/
def Stopped : Except Stop Ready → Prop
  | .error (.exited _ g) => g.running = false
  | .error (.modulusZero _) => False
  | .ok r => ∀ (env : Env) (s : Sys), Run (step env) (fun _ _ => True) r.sys s →
      starts s.sh.log = [] ∧ (s.main = .finished → s.sh.g.running = false)

variable {b : Build} {parse : String → Option Json11} {rand : Nat} {s : String} {g : Globals}

theorem arrayItems_member (m : List (String × Json11)) (key : String) :
    (member m key).arrayItems ≠ [] ↔ ∃ l, m.lookup key = some (.array l) ∧ l ≠ [] := by
  rw [member]
  cases m.lookup key with
  | none => simp [Json11.arrayItems]
  | some j => cases j <;> simp [Json11.arrayItems]

/-- The parameters are usable exactly if the code finds a target in what it makes of them. -/
theorem usable_iff : Usable parse s ↔
    (member ((parse s).getD .null).objectItems "wsTargets").arrayItems ≠ [] := by
  rw [arrayItems_member, Usable]
  cases hp : parse s with
  | none => simp [Json11.objectItems]
  | some j => cases j <;> simp [Json11.objectItems]

theorem selectTarget_of_ne (rand : Nat) (g : Globals) {l : List Json11} (h : l ≠ []) :
    ∃ target ∈ l, selectTarget rand l g = .ok target := by
  have hpos : 0 < l.length := List.length_pos_iff.mpr h
  have hlt : rand % l.length < l.length := Nat.mod_lt _ hpos
  refine ⟨l[rand % l.length], List.getElem_mem hlt, ?_⟩
  rw [selectTarget, if_neg (Nat.ne_of_gt hpos), List.getD_eq_getElem?_getD,
    List.getElem?_eq_getElem hlt, Option.getD_some]

/-- Usable parameters bring the call to its test cases, at one of their targets. -/
theorem measurementStart_usable (h : Usable parse s) : ∃ m targets target,
    parse s = some (.object m) ∧ m.lookup "wsTargets" = some (.array targets) ∧ target ∈ targets ∧
      measurementStart b parse rand s g = enable b m target g.resetFlags := by
  obtain ⟨m, targets, hparse, hlookup, hne⟩ := h
  obtain ⟨target, hmem, hselect⟩ := selectTarget_of_ne rand g.resetFlags hne
  refine ⟨m, targets, target, hparse, hlookup, hmem, ?_⟩
  simp [measurementStart, hparse, Json11.objectItems, member, hlookup, Json11.arrayItems, hselect,
    Except.bind, bind]

/-- Other parameters end it before: at `shutdown()` if they are not valid JSON and it exits, else at
the target selection. -/
theorem measurementStart_unusable (h : ¬ Usable parse s) :
    (b = .desktop ∧ parse s = none) ∧
        measurementStart b parse rand s g =
          .error (.exited [] { g.resetFlags with running := false }) ∨
      ¬ (b = .desktop ∧ parse s = none) ∧
        ∃ g', measurementStart b parse rand s g = .error (.modulusZero g') := by
  rw [usable_iff, not_not] at h
  have hselect (g : Globals) : selectTarget rand
      (member ((parse s).getD .null).objectItems "wsTargets").arrayItems g =
        .error (.modulusZero g) := by
    rw [h]
    rfl
  have hrun : measurementStart b parse rand s g =
      (if (parse s).isNone then shutdown b [] g.resetFlags else .ok g.resetFlags) >>=
        fun g => .error (.modulusZero g) := by
    simp only [measurementStart, hselect]
    cases (parse s).isNone <;> rfl
  rw [hrun]
  by_cases hb : b = .desktop ∧ parse s = none
  · refine .inl ⟨hb, ?_⟩
    rw [hb.1, hb.2]
    rfl
  · refine .inr ⟨hb, ?_⟩
    cases hp : parse s with
    | none =>
      have hreturns : b ≠ .desktop := fun h => hb ⟨h, hp⟩
      rw [Option.isNone_none, if_pos rfl, shutdown, if_neg hreturns]
      exact ⟨_, rfl⟩
    | some j => exact ⟨_, rfl⟩

/-- The test cases that the parameters choose. -/
def chosen (m : List (String × Json11)) : Parameters where
  rtt := performMeasurement m "rtt"
  download := performMeasurement m "download"
  upload := performMeasurement m "upload"

variable {m : List (String × Json11)} {target : Json11}

theorem enable_any (h : (chosen m).any = true) : enable b m target g =
    .ok
      { errors := []
        xml := writeXml b m target
        sys := IasClient.measurementStart (chosen m).rtt (chosen m).download (chosen m).upload
          g } :=
  if_pos h

/-- For parameters that are not usable the call stops as it should exactly if `shutdown()` exits
and they are not valid JSON. -/
theorem bad_parameters_stop_iff (b : Build) (parse : String → Option Json11) (rand : Nat)
    (g : Globals) {s : String} (h : ¬ Usable parse s) :
    Stopped (measurementStart b parse rand s g) ↔ b = .desktop ∧ parse s = none := by
  rcases measurementStart_unusable h with ⟨hb, hrun⟩ | ⟨hb, g', hrun⟩
  · rw [hrun]
    exact ⟨fun _ => hb, fun _ => rfl⟩
  · rw [hrun]
    exact ⟨fun hstop => hstop.elim, fun hb' => absurd hb' hb⟩

/-- `Json::parse` on the empty text, and on that of an empty object. -/
def parseEmpty (s : String) : Option Json11 := if s = "\x7b\x7d" then some (.object []) else none

theorem not_usable_empty : ¬ Usable parseEmpty "" ∧ ¬ Usable parseEmpty "\x7b\x7d" := by
  have htext : parseEmpty "" = none := rfl
  have hobject : parseEmpty "\x7b\x7d" = some (.object []) := rfl
  constructor
  · rw [usable_iff, htext]
    exact fun h => h rfl
  · rw [usable_iff, hobject]
    exact fun h => h rfl

theorem bad_parameters_stop_iff_empty :
    Stopped (measurementStart .desktop parseEmpty 0 "" Globals.default) :=
  (bad_parameters_stop_iff .desktop parseEmpty 0 Globals.default not_usable_empty.1).mpr ⟨rfl, rfl⟩

/-- An empty text on Android, and an empty object on a desktop. -/
theorem target_of_nothing :
    (¬ Usable parseEmpty "" ∧
      ¬ Stopped (measurementStart .android parseEmpty 0 "" Globals.default)) ∧
    ¬ Usable parseEmpty "\x7b\x7d" ∧
      ¬ Stopped (measurementStart .desktop parseEmpty 0 "\x7b\x7d" Globals.default) := by
  refine ⟨⟨not_usable_empty.1, ?_⟩, not_usable_empty.2, ?_⟩
  · exact fun h => h
  · exact fun h => h

end Startup

end IasClient
