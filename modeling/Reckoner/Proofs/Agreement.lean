import Reckoner.Proofs.Command.Line
import Reckoner.Proofs.Service.Response
import Reckoner.Proofs.Session.Typing

/-!
# The front ends agree

The service, the command line and a keypad session report the same of an expression under the same settings: the number
or null with its text, or the kind, message and position of the failure. They come to their settings and expressions in
different ways. The service drops white space at the ends, lays overrides on configured defaults and takes a negative
precision for zero; a session evaluates the expression twice. None of that shows. The service and the command line also
agree on curves.
-/

namespace Reckoner

set_option autoImplicit false

/-! ## What is reported -/

/-- What is reported of an expression: a number, if it is finite, and its text, or a failure. -/
inductive Outcome where
  | value (result : Option Float) (formatted : String)
  | failure (f : Expression.Failure)
  deriving DecidableEq, Repr

def Outcome.of (s : Settings) (expression : String) : Outcome :=
  match Expression.evaluate s expression with
  | .ok x => .value (Double.finite? x) (Display.format s x)
  | .error f => .failure f

/-- The points of a curve, or why there is none. -/
abbrev CurveOutcome := Except CurveFault (List CurvePoint)

namespace Service.Response

/-- A response of success with some of its data. -/
def Succeeds (response : Response) (data : Json.Fields) : Prop :=
  response.status = 200 ∧ ∃ fields : Json.Fields,
    response.body = some (.object [("success", .bool true), ("data", .object fields)]) ∧
      ∀ field ∈ data, fields.get? field.1 = some field.2

/-- A response of failure with some fields of its error. -/
def Fails (response : Response) (error : Json.Fields) : Prop :=
  response.status = 400 ∧ ∃ fields : Json.Fields,
    response.body = some (.object [("success", .bool false), ("error", .object fields)]) ∧
      ∀ field ∈ error, fields.get? field.1 = some field.2

def Reports (response : Response) : Outcome → Prop
  | .value result formatted => response.Succeeds [("result", .ofFloat? result), ("formatted", .text formatted)]
  | .failure f => response.Fails
    [("message", .text f.message), ("details", .object [("kind", .text f.kind.name), ("position", .ofNat? f.position?)])]

/-- The response gives the points of a curve and the number of their segments, or the reason why there are none. -/
def ReportsCurve (response : Response) : CurveOutcome → Prop
  | .ok points => response.Succeeds
    [("series", .list (points.map pointValue)), ("segments", .int (Curve.countSegments points))]
  | .error fault => response.Fails [("message", .text fault.message), ("details", .object [])]

end Service.Response

namespace Command.Ending

def Reports (ending : Ending) (expression : String) : Outcome → Prop
  | .value result formatted => ending =
    ⟨0, printed [("expression", .text expression), ("result", .ofFloat? result), ("formatted", .text formatted)], none⟩
  | .failure f => ending = ⟨1, printed [("error", Report.failure f)], none⟩

def ReportsCurve (ending : Ending) (expression : String) : CurveOutcome → Prop
  | .ok points => ending =
    ⟨0, printed [("expression", .text expression), ("samples", .int points.length),
      ("segments", .int (Curve.countSegments points)), ("series", .list (points.map pointValue))], none⟩
  | .error fault => ending = ⟨1, "", some fault.message⟩

end Command.Ending

def Session.Snapshot.Reports (v : Session.Snapshot) : Outcome → Prop
  | .value result formatted => v.value = result ∧ v.display = formatted ∧ v.failure = none
  | .failure f => v.failure = some f

/-! ## The service -/

theorem finiteOrNull_eq (x : Float) : Json.Value.finiteOrNull x = .ofFloat? (Double.finite? x) := by
  rw [Json.Value.finiteOrNull, Double.finite?]
  split <;> rfl

namespace Service

variable {c : Configuration} {r : Request} {fields : Json.Fields} {s : Settings} {expression : String}

theorem Response.Conveys.succeeds {response : Response} {requestId : String} {data : Json.Fields}
    (h : response.Conveys requestId (.ok (.object fields))) (hdata : ∀ field ∈ data, fields.get? field.1 = some field.2) :
    response.Succeeds data :=
  ⟨h.1, fields, h.2, hdata⟩

/-- The name of the request stands behind the fields of an error. -/
theorem Response.Conveys.fails {response : Response} {requestId : String} {e : ServiceError}
    (h : response.Conveys requestId (.error e)) (hstatus : e.status = 400) :
    response.Fails [("message", .text e.message), ("details", .object e.details)] := by
  have hfields : withRequest (some requestId) e.fields = e.fields ++ [("request_id", .text requestId)] := rfl
  obtain ⟨hcode, hbody⟩ := h
  rw [hfields] at hbody
  exact ⟨hcode.trans hstatus, _, hbody, List.forall_mem_cons.mpr ⟨rfl, List.forall_mem_singleton.mpr rfl⟩⟩

theorem respond_value (hc : c.Admits expression) (hr : Posted c r .evaluate fields) (h : AsksValue fields s expression)
    (requestId : String) : (respond c requestId r).Reports (.of s expression) := by
  have hconveys := respond_posted hr rfl rfl (evaluateEndpoint_eq hc h) requestId
  rw [Outcome.of]
  cases hvalue : Expression.evaluate s expression with
  | error f =>
    rw [hvalue] at hconveys
    exact hconveys.fails rfl
  | ok x =>
    rw [hvalue] at hconveys
    have hresult : some (Json.Value.finiteOrNull x) = some (.ofFloat? (Double.finite? x)) :=
      congrArg some (finiteOrNull_eq x)
    exact hconveys.succeeds (List.forall_mem_cons.mpr ⟨hresult, List.forall_mem_singleton.mpr rfl⟩)

theorem respond_curve {xMin xMax : Float} {samples limit : Int} (hc : c.Admits expression)
    (hlimit : c.maxSamples = .ok limit) (hsamples : samples ≤ limit) (hr : Posted c r .plot fields)
    (h : AsksCurve fields s.angleUnit expression xMin xMax samples) (requestId : String) :
    (respond c requestId r).ReportsCurve (Curve.outcome s expression.toList xMin xMax samples) := by
  obtain ⟨t, hunit, hreply⟩ := plotEndpoint_eq hc hlimit hsamples h
  have hconveys := respond_posted hr rfl rfl hreply requestId
  have hdegrees : t.usesDegrees = s.usesDegrees := by rw [Settings.usesDegrees, hunit, Settings.usesDegrees]
  rw [← Curve.outcome_congr hdegrees, ← Curve.outcome_trimBy, Curve.outcome]
  rw [trimmed, String.toList_ofList] at hconveys
  cases hrequest : Curve.request t (Text.trimBy Text.isWhiteSpace expression.toList) xMin xMax samples with
  | error fault =>
    rw [hrequest] at hconveys
    exact hconveys.fails rfl
  | ok curve =>
    rw [hrequest] at hconveys
    exact hconveys.succeeds (List.forall_mem_cons.mpr ⟨rfl, List.forall_mem_singleton.mpr rfl⟩)

end Service

/-! ## The command line -/

namespace Command

variable {s : Settings} {expression : String} {arguments : List String}

theorem run_of_parse {command : Invocation} (h : parse arguments = .ok command) : run arguments = command.run := by
  rw [run, h]

/-- The ending of a refused command line reports nothing. -/
theorem Ending.not_reports_of_usage {ending : Ending} (h : ending.code = 2) (expression : String) (outcome : Outcome) :
    ¬ ending.Reports expression outcome := by
  intro hreports
  cases outcome with
  | value result formatted => exact absurd (h.symm.trans (congrArg Ending.code hreports)) (by simp)
  | failure f => exact absurd (h.symm.trans (congrArg Ending.code hreports)) (by simp)

theorem run_value (h : parse arguments = .ok (.eval s expression)) :
    (run arguments).Reports expression (.of s expression) := by
  rw [run_of_parse h, Invocation.run, runEval, Outcome.of]
  cases Expression.evaluate s expression with
  | error f => rfl
  | ok x =>
    dsimp only
    rw [finiteOrNull_eq]
    rfl

theorem run_curve {t : Settings} {xMin xMax : Float} {samples : Int} (hunit : t.angleUnit = s.angleUnit)
    (h : parse arguments = .ok (.plot t expression xMin xMax samples)) :
    (run arguments).ReportsCurve expression (Curve.outcome s expression.toList xMin xMax samples) := by
  have hdegrees : t.usesDegrees = s.usesDegrees := by rw [Settings.usesDegrees, hunit, Settings.usesDegrees]
  rw [run_of_parse h, Invocation.run, runPlot, ← Curve.outcome_congr hdegrees, Curve.outcome]
  cases Curve.request t expression.toList xMin xMax samples <;> rfl

end Command

/-! ## Sessions -/

theorem Session.pressAll_value (s : Settings) {expression : String} (hne : expression ≠ "")
    (hkey : expression ∉ Key.commandLabels) :
    ((start s).pressAll [expression, "="]).snapshot.Reports (.of s expression) := by
  have htyped : Typed s [expression] ((start s).pressAll [expression]) :=
    start_pressAll_typed (List.forall_mem_singleton.mpr hkey)
  have htext : typedText [expression] = expression.toList := List.append_nil _
  have hpress : (start s).pressAll [expression, "="] = ((start s).pressAll [expression]).press "=" := rfl
  rw [Outcome.of, hpress, Expression.evaluate]
  cases hvalue : Expression.evaluateChars s expression.toList with
  | error f =>
    rw [htyped.press_equals_of_error (htext ▸ hvalue)]
    rfl
  | ok x =>
    have hchars : typedText [expression] ≠ [] := fun hnil => hne (String.toList_eq_nil_iff.mp (htext ▸ hnil))
    rw [htyped.press_equals_of_ok hchars (htext ▸ hvalue)]
    exact ⟨rfl, rfl, rfl⟩

/-! ## Agreement -/

structure AgreeOnValue (s : Settings) (expression : String) : Prop where
  service : ∀ c r fields requestId, c.Admits expression → Service.Posted c r .evaluate fields →
    Service.AsksValue fields s expression → (Service.respond c requestId r).Reports (.of s expression)
  command : ∀ arguments, Command.parse arguments = .ok (.eval s expression) →
    (Command.run arguments).Reports expression (.of s expression)
  /-- There is such a command line, unless the precision has too many digits. -/
  line : Command.parse (Command.evalLine s expression) =
    if Literal.Short s.precision then .ok (.eval s expression) else .error .usage
  session : expression ≠ "" → expression ∉ Key.commandLabels →
    ((Session.start s).pressAll [expression, "="]).snapshot.Reports (.of s expression)

structure AgreeOnCurve (s : Settings) (expression : String) (xMin xMax : Float) (samples : Int) : Prop where
  service : ∀ c r fields requestId limit, c.Admits expression → c.maxSamples = .ok limit → samples ≤ limit →
    Service.Posted c r .plot fields → Service.AsksCurve fields s.angleUnit expression xMin xMax samples →
      (Service.respond c requestId r).ReportsCurve (Curve.outcome s expression.toList xMin xMax samples)
  command : ∀ arguments (t : Settings), t.angleUnit = s.angleUnit →
    Command.parse arguments = .ok (.plot t expression xMin xMax samples) →
      (Command.run arguments).ReportsCurve expression (Curve.outcome s expression.toList xMin xMax samples)
  /-- There is such a command line, unless the precision or the number of samples has too many digits. -/
  line : ∀ low high : String, Literal.float? low.toList = some xMin → Literal.float? high.toList = some xMax →
    Command.parse (Command.plotLine s expression low high samples) =
      if Literal.Short s.precision ∧ Literal.Short samples then .ok (.plot s expression xMin xMax samples)
      else .error .usage

/-- The service, the command line and a session report the same of every expression and of every curve. -/
theorem front_ends_agree (s : Settings) (hunit : s.angleUnit = .degrees ∨ s.angleUnit = .radians) (expression : String) :
    AgreeOnValue s expression ∧ ∀ xMin xMax samples, AgreeOnCurve s expression xMin xMax samples := by
  refine ⟨⟨?_, ?_, ?_, ?_⟩, fun xMin xMax samples => ⟨?_, ?_, ?_⟩⟩
  · exact fun c r fields requestId hc hr h => Service.respond_value hc hr h requestId
  · exact fun arguments h => Command.run_value h
  · exact Command.parse_evalLine hunit expression
  · exact fun hne hkey => Session.pressAll_value s hne hkey
  · exact fun c r fields requestId limit hc hlimit hsamples hr h =>
      Service.respond_curve hc hlimit hsamples hr h requestId
  · exact fun arguments t ht h => Command.run_curve ht h
  · exact fun low high hlow hhigh => Command.parse_plotLine hunit hlow hhigh samples expression

/--
Two thirds on one digit: the installed service, the command line and a session show it as `0.7`. Three samples of a
square form one segment.
-/
theorem front_ends_agree_two_thirds :
    (∃ c, Service.Configuration.start (some Service.installedDocument) none = .ok c ∧
      (Service.respond c "id"
        { method := "POST", target := "/api/scientific_calculator/evaluate", contentType := "application/json",
          body := some ("\x7b\"expression\": \" 2/3 \", \"precision\": -1, " ++
            "\"angle_unit\": \"rad\", \"thousands_sep\": \"no\"\x7d") }).Reports (.value (some (2 / 3)) "0.7") ∧
      (Service.respond c "id"
        { method := "POST", target := "/api/scientific_calculator/plot", contentType := "application/json",
          body := some ("\x7b\"expression\": \"x*x\", \"angle_unit\": \"rad\", " ++
            "\"x_min\": 0, \"x_max\": 1.0, \"samples\": 3\x7d") }).ReportsCurve
              (.ok [⟨0, some 0⟩, ⟨0.5, some 0.25⟩, ⟨1, some 1⟩])) ∧
    (Command.run ["eval", "--angle-unit=rad", "--precision=-1", "--no-separators", "--", " 2/3 "]).Reports " 2/3 "
      (.value (some (2 / 3)) "0.7") ∧
    (Command.run ["plot", "x*x", "--x-min", "0", "--x-max", "1", "--samples", "3", "--angle-unit", "rad"]).ReportsCurve
      "x*x" (.ok [⟨0, some 0⟩, ⟨0.5, some 0.25⟩, ⟨1, some 1⟩]) ∧
    ((Session.start ⟨.radians, -1, false⟩).pressAll [" 2/3 ", "="]).snapshot.Reports (.value (some (2 / 3)) "0.7") := by
  have hvalue := (front_ends_agree ⟨.radians, -1, false⟩ (Or.inr rfl) " 2/3 ").1
  have hcurve := (front_ends_agree ⟨.radians, 8, true⟩ (Or.inr rfl) "x*x").2 0 1 3
  have houtcome : Outcome.of ⟨.radians, -1, false⟩ " 2/3 " = .value (some (2 / 3)) "0.7" := by decide +kernel
  have hpoints : Curve.outcome ⟨.radians, 8, true⟩ "x*x".toList 0 1 3 =
      .ok [⟨0, some 0⟩, ⟨0.5, some 0.25⟩, ⟨1, some 1⟩] := by decide +kernel
  obtain ⟨c, hstart⟩ : ∃ c, Service.Configuration.start (some Service.installedDocument) none = .ok c := ⟨_, rfl⟩
  rw [← houtcome, ← hpoints]
  refine ⟨⟨c, hstart, ?_, ?_⟩, ?_, ?_, ?_⟩
  · have hasks : Service.AsksValue
        [("expression", .text " 2/3 "), ("precision", .int (-1)), ("angle_unit", .text "rad"),
          ("thousands_sep", .text "no")] ⟨.radians, -1, false⟩ " 2/3 " :=
      ⟨rfl, ⟨_, rfl, rfl⟩, ⟨_, rfl, rfl⟩, ⟨_, rfl, rfl⟩, by simp⟩
    have hadmits : c.Admits " 2/3 " := Service.Configuration.installed_admits hstart (by decide)
    refine hvalue.service _ _ _ "id" hadmits ⟨rfl, rfl, ?_⟩ hasks
    obtain rfl := Except.ok.inj hstart
    rfl
  · have hasks : Service.AsksCurve
        [("expression", .text "x*x"), ("angle_unit", .text "rad"), ("x_min", .int 0), ("x_max", .float 1),
          ("samples", .int 3)] .radians "x*x" 0 1 3 :=
      ⟨rfl, ⟨_, rfl, rfl⟩, ⟨_, rfl, rfl⟩, ⟨_, rfl, rfl⟩, ⟨_, rfl, rfl⟩, by simp⟩
    have hadmits : c.Admits "x*x" := Service.Configuration.installed_admits hstart (by decide)
    refine hcurve.service _ _ _ "id" 5000 hadmits (Service.Configuration.installed_maxSamples hstart) (by decide)
      ⟨rfl, rfl, ?_⟩ hasks
    obtain rfl := Except.ok.inj hstart
    rfl
  · exact hvalue.command _ (by decide +kernel)
  · exact hcurve.command _ ⟨.radians, 8, true⟩ rfl (by decide +kernel)
  · exact hvalue.session (by decide) (by decide)

/-- A precision with one digit too many is fine in a session, but the command line is refused. -/
theorem not_front_ends_agree_oversize :
    ((Session.start { precision := 10 ^ Literal.maxIntegerDigits }).pressAll ["1", "="]).snapshot.Reports
        (.of { precision := 10 ^ Literal.maxIntegerDigits } "1") ∧
      ¬ (Command.run (Command.evalLine { precision := 10 ^ Literal.maxIntegerDigits } "1")).Reports "1"
        (.of { precision := 10 ^ Literal.maxIntegerDigits } "1") := by
  refine ⟨Session.pressAll_value _ (by decide) (by decide), ?_⟩
  rw [Command.run, Command.parse_evalLine (Or.inl rfl), if_neg (Literal.not_short_pow le_rfl)]
  exact Command.Ending.not_reports_of_usage rfl "1" _

end Reckoner
