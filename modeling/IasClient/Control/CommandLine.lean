import IasClient.Model.CommandLine
import IasClient.Control.BadParameters

namespace IasClient

namespace CommandLine

/-- The options behind which the loop goes on. -/
def Opt.goesOn (o : Opt) : Bool :=
  match o.opt with
  | 'r' | 'd' | 'u' | 't' | 'n' => true
  | 'p' => o.optarg.isSome
  | _ => false

/-- The port of an option. -/
def Opt.port (o : Opt) : Option String := if o.opt = 'p' then o.optarg else none

def given (c : Char) (opts : List Opt) : Bool := opts.any (·.opt == c)

/-- What a list of options sets over earlier ones; the last port counts. -/
def Selection.with (s : Selection) (opts : List Opt) : Selection where
  rtt := s.rtt || given 'r' opts
  download := s.download || given 'd' opts
  upload := s.upload || given 'u' opts
  tls := bif given 't' opts then 1 else s.tls
  target_port := ((opts.filterMap Opt.port).getLast?).getD s.target_port

/-- How the program ends at an option behind which the loop does not go on. -/
def Opt.exit (o : Opt) : Exit := if o.opt = 'v' then .success else .failure

variable {s : Selection} {o : Opt} {opts before after : List Opt}

theorem Selection.with_nil (s : Selection) : s.with [] = s := by
  simp [Selection.with, given]

theorem Selection.with_append (s : Selection) (l l' : List Opt) :
    (s.with l).with l' = s.with (l ++ l') := by
  simp only [Selection.with, given, List.any_append, List.filterMap_append, Bool.or_assoc,
    Selection.mk.injEq, true_and]
  refine ⟨?_, ?_⟩
  · cases l.any fun o => o.opt == 't' <;> cases l'.any fun o => o.opt == 't' <;> rfl
  · rw [List.getLast?_append]
    cases (l'.filterMap Opt.port).getLast? <;> simp

/-- One option is read, or ends the loop. -/
theorem options_cons (s : Selection) (o : Opt) (rest : List Opt) : options s (o :: rest) =
    if o.goesOn then options (s.with [o]) rest else .error o.exit := by
  obtain ⟨c, arg⟩ := o
  rw [options]
  dsimp only
  split
  case h_5 =>
    cases arg with
    | none => rfl
    | some port => simp [Opt.goesOn, Selection.with, given, Opt.port]
  case h_9 h1 h2 h3 h4 h5 h6 h7 h8 =>
    have hstop : Opt.goesOn ⟨c, arg⟩ = false := by
      unfold Opt.goesOn
      split <;> simp_all
    have hv : c ≠ 'v' := h8
    simp [hstop, Opt.exit, show_usage, hv]
  all_goals simp [Opt.goesOn, Opt.exit, show_usage, Selection.with, given, Opt.port]

theorem options_all (h : ∀ o ∈ opts, o.goesOn = true) : options s opts = .ok (s.with opts) := by
  induction opts generalizing s with
  | nil => rw [options, Selection.with_nil]
  | cons o rest ih =>
    rw [options_cons, if_pos (h o List.mem_cons_self),
      ih fun x hx => h x (List.mem_cons_of_mem _ hx), Selection.with_append,
      List.singleton_append]

theorem options_stops (h : ∀ o ∈ before, o.goesOn = true) (ho : o.goesOn = false) :
    options s (before ++ o :: after) = .error o.exit := by
  induction before generalizing s with
  | nil => rw [List.nil_append, options_cons, ho, if_neg Bool.false_ne_true]
  | cons x rest ih =>
    rw [List.cons_append, options_cons, if_pos (h x List.mem_cons_self)]
    exact ih fun y hy => h y (List.mem_cons_of_mem _ hy)

/-- The first option behind which the loop does not go on. -/
def stop (opts : List Opt) : Option Opt := opts.find? fun o => !o.goesOn

/-- The test cases that the options choose. -/
def chosen (opts : List Opt) : Parameters where
  rtt := given 'r' opts
  download := given 'd' opts
  upload := given 'u' opts

/-- What `main` writes to `pXml` for the options. -/
def xml (opts : List Opt) : List (String × String) :=
  [("DNS_HOSTNAME", "peer.example.com"),
    ("PORT", ((opts.filterMap Opt.port).getLast?).getD "80"),
    ("PING_PORT", "80"),
    ("TLS", bif given 't' opts then "1" else "0"),
    ("DL_STREAMS", "4"),
    ("UL_STREAMS", "4"),
    ("PING_QUERY", "10")]

section

variable {parse : String → Option Json11} {dump : Json11 → String} {rand : Nat}

/-- The parameters that `main` hands over. -/
def handed (opts : List Opt) : Json11 := measurementParameters (({} : Selection).with opts)

theorem main_selected (g : Globals) (h : ∀ o ∈ opts, o.goesOn = true)
    (hany : (chosen opts).any = true) : main parse dump rand opts g = .ok
      (Startup.measurementStart .desktop parse rand (dump (handed opts))
        { g with
          running := true
          rtt := given 'r' opts
          download := given 'd' opts
          upload := given 'u' opts }) := by
  simp only [Parameters.any, chosen, Bool.or_eq_true] at hany
  simp only [main, options_all h, Selection.with, Except.bind, bind, Bool.false_or]
  rw [if_neg (by simp only [Bool.and_eq_true, Bool.not_eq_true']; grind)]
  rfl

theorem main_unselected (g : Globals) (h : ∀ o ∈ opts, o.goesOn = true)
    (hany : (chosen opts).any = false) : main parse dump rand opts g = .error .failure := by
  simp only [Parameters.any, chosen, Bool.or_eq_false_iff] at hany
  simp [main, options_all h, Selection.with, Except.bind, bind, hany, show_usage]

theorem chosen_handed (opts : List Opt) :
    Startup.chosen (handed opts).objectItems = chosen opts := rfl

theorem writeXml_handed (opts : List Opt) : Startup.writeXml .desktop (handed opts).objectItems
    (.string "peer.example.com") = xml opts := by
  have htls : toString (({} : Selection).with opts).tls = bif given 't' opts then "1" else "0" := by
    simp only [Selection.with]
    cases given 't' opts <;> rfl
  simp only [xml, ← htls]
  rfl

/-- `Json::parse` reads what `Json::dump` has written. -/
theorem measurementStart_handed (g : Globals)
    (hjson : parse (dump (handed opts)) = some (handed opts)) (hany : (chosen opts).any = true) :
    Startup.measurementStart .desktop parse rand (dump (handed opts)) g = .ok
      { errors := []
        xml := xml opts
        sys := measurementStart (given 'r' opts) (given 'd' opts) (given 'u' opts) g } := by
  have husable : Startup.Usable parse (dump (handed opts)) := by
    rw [Startup.usable_iff, hjson]
    exact List.cons_ne_nil _ _
  obtain ⟨m, targets, target, hm, htargets, hmem, hrun⟩ :=
    @Startup.measurementStart_usable .desktop parse rand (dump (handed opts)) g husable
  obtain rfl : (handed opts).objectItems = m := Json11.object.inj (Option.some.inj (hjson ▸ hm))
  obtain rfl : [Json11.string "peer.example.com"] = targets :=
    Json11.array.inj (Option.some.inj htargets)
  obtain rfl := List.mem_singleton.mp hmem
  rw [hrun, Startup.enable_any (chosen_handed opts ▸ hany), writeXml_handed]
  rfl

/-- The program measures exactly if `getopt` brings only options that it goes on behind and one of
them chooses a test case; then it comes to its first test case with the test cases chosen, the last
port and the choice of TLS. Otherwise it exits, and with success only at `-v`. -/
theorem main_measures (g : Globals) (hjson : parse (dump (handed opts)) = some (handed opts)) :
    (stop opts = none ∧ (chosen opts).any = true →
      main parse dump rand opts g = .ok (.ok
        { errors := []
          xml := xml opts
          sys := measurementStart (given 'r' opts) (given 'd' opts) (given 'u' opts)
            { g with running := true } })) ∧
    (¬ (stop opts = none ∧ (chosen opts).any = true) →
      main parse dump rand opts g =
        .error (if (stop opts).map Opt.opt = some 'v' then .success else .failure)) := by
  cases hstop : stop opts with
  | none =>
    have h : ∀ o ∈ opts, o.goesOn = true := by simpa [stop] using hstop
    refine ⟨fun hany => ?_, fun hno => ?_⟩
    · rw [main_selected g h hany.2, measurementStart_handed _ hjson hany.2]
      rfl
    · exact main_unselected g h (by simpa using hno)
  | some o =>
    obtain ⟨ho, before, after, rfl, hbefore⟩ := List.find?_eq_some_iff_append.mp hstop
    have hgo : ∀ x ∈ before, x.goesOn = true := by simpa using hbefore
    refine ⟨fun h => absurd h.1 (by simp), fun _ => ?_⟩
    simp [main, options_stops hgo (by simpa using ho), Except.bind, bind, Opt.exit]

end

/-- `-r -p 8080` -/
def rttOnPort : List Opt := [⟨'r', none⟩, ⟨'p', some "8080"⟩]

/-- The text of its parameters. -/
def rttOnPortText : String :=
  "\x7b\"clientos\": \"linux\", " ++
  "\"download\": \x7b\"performMeasurement\": false, \"streams\": \"4\"\x7d, " ++
  "\"platform\": \"desktop\", \"rtt\": \x7b\"performMeasurement\": true\x7d, " ++
  "\"upload\": \x7b\"performMeasurement\": false, \"streams\": \"4\"\x7d, " ++
  "\"wsTargetPort\": \"8080\", \"wsTargetPortRtt\": \"80\", " ++
  "\"wsTargets\": [\"peer.example.com\"], \"wsWss\": \"0\"\x7d"

theorem main_measures_rttOnPort :
    let parse := fun s => if s = rttOnPortText then some (handed rttOnPort) else none
    main parse (fun _ => rttOnPortText) 0 rttOnPort Globals.default = .ok (.ok
      { errors := []
        xml := [("DNS_HOSTNAME", "peer.example.com"), ("PORT", "8080"), ("PING_PORT", "80"),
          ("TLS", "0"), ("DL_STREAMS", "4"), ("UL_STREAMS", "4"), ("PING_QUERY", "10")]
        sys := measurementStart true false false { Globals.default with running := true } }) :=
  (main_measures Globals.default (if_pos rfl)).1 ⟨by rfl, by rfl⟩

end CommandLine

end IasClient
