import IasClient.Model.Connector
import IasClient.Control.BadParameters

namespace IasClient

open Json11 (member)

namespace AndroidConnector

/-- The server list of a descriptor; a null array has no server. -/
def JavaSpeedTaskDesc.servers (d : JavaSpeedTaskDesc) : List String := d.speedServerAddrs.getD []

/-- The descriptors of a sequence of calls. -/
def settings (calls : List ConnectorCall) : List JavaSpeedTaskDesc :=
  calls.filterMap fun c => match c with
    | .setSpeedSettings d => some d
    | .startMeasurement => none

variable {t : SpeedTaskDesc} {d : JavaSpeedTaskDesc} {calls : List ConnectorCall}

theorem appendUrls_eq (urls l : List String) : appendUrls urls l = urls ++ l := by
  induction l generalizing urls with
  | nil => rw [appendUrls, List.append_nil]
  | cons url rest ih => rw [appendUrls, ih, List.append_assoc, List.singleton_append]

/-- The settings of `d` with the servers before it. -/
theorem setSpeedSettings_eq (d : JavaSpeedTaskDesc) (t : SpeedTaskDesc) : setSpeedSettings d t =
    { setSpeedSettings d {} with measurementServerUrl := t.measurementServerUrl ++ d.servers } := by
  have hurls : (setSpeedSettings d t).measurementServerUrl =
      t.measurementServerUrl ++ d.servers := by
    rw [setSpeedSettings, JavaSpeedTaskDesc.servers]
    cases d.speedServerAddrs with
    | none => exact (List.append_nil _).symm
    | some serverUrls => exact appendUrls_eq _ _
  rw [← hurls]
  rfl

theorem apply_measurementServerUrl (c : ConnectorCall) (t : SpeedTaskDesc) :
    (c.apply t).measurementServerUrl =
      t.measurementServerUrl ++ (settings [c]).flatMap JavaSpeedTaskDesc.servers := by
  cases c with
  | setSpeedSettings d =>
    rw [ConnectorCall.apply, setSpeedSettings_eq]
    simp [settings]
  | startMeasurement => exact (List.append_nil _).symm

/-- The singleton keeps the servers of every descriptor it has ever been given. -/
theorem speedTaskDesc_measurementServerUrl (calls : List ConnectorCall) :
    (speedTaskDesc calls).measurementServerUrl =
      (settings calls).flatMap JavaSpeedTaskDesc.servers := by
  induction calls using List.reverseRecOn with
  | nil => rfl
  | append_singleton calls c ih =>
    have hlast : speedTaskDesc (calls ++ [c]) = c.apply (speedTaskDesc calls) :=
      List.foldl_append ..
    rw [hlast, apply_measurementServerUrl, ih, settings, settings, settings, List.filterMap_append,
      List.flatMap_append]

theorem speedTaskDesc_startMeasurement (calls : List ConnectorCall) (n : Nat) :
    speedTaskDesc (calls ++ List.replicate n .startMeasurement) = speedTaskDesc calls := by
  induction n with
  | zero => rw [List.replicate_zero, List.append_nil]
  | succ n ih =>
    rw [List.replicate_succ', ← List.append_assoc, speedTaskDesc, List.foldl_append]
    exact ih

/-- After a call of `setSpeedSettings` every field but the servers is that of its descriptor. -/
theorem speedTaskDesc_setSpeedSettings (calls : List ConnectorCall) (d : JavaSpeedTaskDesc) :
    speedTaskDesc (calls ++ [.setSpeedSettings d]) =
      { setSpeedSettings d {} with
        measurementServerUrl :=
          (settings calls).flatMap JavaSpeedTaskDesc.servers ++ d.servers } := by
  have hlast : speedTaskDesc (calls ++ [.setSpeedSettings d]) =
      setSpeedSettings d (speedTaskDesc calls) := List.foldl_append ..
  rw [hlast, setSpeedSettings_eq, speedTaskDesc_measurementServerUrl]

/-- What the next call of `startMeasurement` passes to `measurementStart`. -/
def nextParameters (calls : List ConnectorCall) : Json11 :=
  measurementParameters (speedTaskDesc calls)

def wsTargets (j : Json11) : Json11 := member j.objectItems "wsTargets"

theorem wsTargets_measurementParameters (t : SpeedTaskDesc) :
    wsTargets (measurementParameters t) = .array (t.measurementServerUrl.map .string) := rfl

theorem wsTargets_nextParameters (calls : List ConnectorCall) (d : JavaSpeedTaskDesc) (n : Nat) :
    wsTargets (nextParameters
        (calls ++ [.setSpeedSettings d] ++ List.replicate n .startMeasurement)) =
      .array (((settings calls).flatMap JavaSpeedTaskDesc.servers ++ d.servers).map .string) := by
  rw [nextParameters, speedTaskDesc_startMeasurement, wsTargets_measurementParameters,
    speedTaskDesc_setSpeedSettings]

theorem json_string_injective : Function.Injective Json11.string := fun _ _ h => Json11.string.inj h

/-- What `startMeasurement` passes after `setSpeedSettings` depends on its descriptor only, and
carries its servers only, exactly if no descriptor before it has a server. -/
theorem last_settings_win_iff (calls : List ConnectorCall) (d : JavaSpeedTaskDesc) (n : Nat) :
    (nextParameters (calls ++ [.setSpeedSettings d] ++ List.replicate n .startMeasurement) =
        nextParameters [.setSpeedSettings d] ∧
      wsTargets (nextParameters
          (calls ++ [.setSpeedSettings d] ++ List.replicate n .startMeasurement)) =
        .array (d.servers.map .string)) ↔
      ∀ e ∈ settings calls, e.servers = [] := by
  rw [← List.flatMap_eq_nil_iff]
  constructor
  · rintro ⟨-, h⟩
    rw [wsTargets_nextParameters, Json11.array.injEq] at h
    exact List.append_left_eq_self.mp (List.map_injective_iff.mpr json_string_injective h)
  · intro h
    constructor
    · rw [nextParameters, speedTaskDesc_startMeasurement, speedTaskDesc_setSpeedSettings, h,
        nextParameters, ← List.nil_append [ConnectorCall.setSpeedSettings d],
        speedTaskDesc_setSpeedSettings]
      rfl
    · rw [wsTargets_nextParameters, h, List.nil_append]

/-- A descriptor of one test case with these servers. -/
def rttOnly (servers : List String) : JavaSpeedTaskDesc where
  speedServerAddrs := some servers
  rttCount := 10
  downloadStreams := 4
  uploadStreams := 4
  speedServerPort := 80
  speedServerPortRtt := 80
  performDownload := false
  performUpload := false
  performRtt := true
  useEncryption := false

/-- The second descriptor does not replace the servers of the first. -/
theorem first_servers_kept :
    wsTargets (nextParameters [.setSpeedSettings (rttOnly ["peer.example.com"]),
        .setSpeedSettings (rttOnly ["peer.example.org"])]) =
      .array [.string "peer.example.com", .string "peer.example.org"] ∧
    nextParameters [.setSpeedSettings (rttOnly ["peer.example.com"]),
        .setSpeedSettings (rttOnly ["peer.example.org"])] ≠
      nextParameters [.setSpeedSettings (rttOnly ["peer.example.org"])] := by
  refine ⟨rfl, fun h => ?_⟩
  have hlength := congrArg (fun j => (wsTargets j).arrayItems.length) h
  contradiction

section

variable {parse : String → Option Json11} {dump : Json11 → String} {rand : Nat}

end

end AndroidConnector

end IasClient
