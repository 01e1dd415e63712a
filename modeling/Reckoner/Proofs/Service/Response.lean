import Reckoner.Proofs.Expression.Evaluate
import Reckoner.Proofs.Settings
import Reckoner.Service.Application

/-!
# Responses to posted requests

A request that is posted to an endpoint is answered with the endpoint's reply. The endpoints for values and for curves
read their fields wherever they stand in the document, drop the white space around the expression, and lay the
overrides on the configured defaults. A precision below zero counts as zero there, which shows as many digits.
-/

namespace Reckoner.Service

set_option autoImplicit false

/-! ## Fields -/

section
variable {α : Type} {fields : Json.Fields} {name : String} {kind : Json.Value → Except FieldFault α} {value : α}

/-- A field that is present and converts to a value. -/
def Holds (fields : Json.Fields) (name : String) (kind : Json.Value → Except FieldFault α) (value : α) : Prop :=
  ∃ v, fields.get? name = some v ∧ kind v = .ok value

theorem Holds.optional_eq (h : Holds fields name kind value) (default : α) :
    optional fields name default kind = .ok value := by
  obtain ⟨v, hv, hkind⟩ := h
  rw [optional, hv]
  dsimp only
  rw [hkind]
  rfl

theorem required_text {text : String} (h : fields.get? name = some (.text text)) :
    required fields name textField = .ok (String.ofList (Text.trimBy Text.isWhiteSpace text.toList)) := by
  rw [required, h]
  rfl

theorem unknownFields_eq_nil {names : List String} (h : ∀ field ∈ fields, field.1 ∈ names) :
    unknownFields fields names = [] := by
  have hnone : fields.filter (fun field => !names.contains field.1) = [] := by
    refine List.filter_eq_nil_iff.mpr fun field hfield => ?_
    simpa using h field hfield
  rw [unknownFields, hnone, List.map_nil]

end

/-- Fields that ask for the value of an expression under settings of their own. -/
structure AsksValue (fields : Json.Fields) (s : Settings) (expression : String) : Prop where
  expression : fields.get? "expression" = some (.text expression)
  angleUnit : Holds fields "angle_unit" (nullable unitField) (some s.angleUnit)
  precision : Holds fields "precision" (nullable integerField) (some s.precision)
  separators : Holds fields "thousands_sep" (nullable flagField) (some s.thousandsSeparator)
  known : ∀ field ∈ fields, field.1 ∈ ["angle_unit", "precision", "thousands_sep", "expression"]

/-- Fields that ask for a curve over a domain. -/
structure AsksCurve (fields : Json.Fields) (unit : AngleUnit) (expression : String) (xMin xMax : Float) (samples : Int) :
    Prop where
  expression : fields.get? "expression" = some (.text expression)
  angleUnit : Holds fields "angle_unit" (nullable unitField) (some unit)
  xMin : Holds fields "x_min" numberField xMin
  xMax : Holds fields "x_max" numberField xMax
  samples : Holds fields "samples" integerField samples
  known : ∀ field ∈ fields, field.1 ∈ ["expression", "angle_unit", "x_min", "x_max", "samples"]

section
variable {fields : Json.Fields} {s : Settings} {text : String}

/-- The expression as the endpoints take it. -/
def trimmed (text : String) : String :=
  String.ofList (Text.trimBy Text.isWhiteSpace text.toList)

theorem AsksValue.payload (h : AsksValue fields s text) :
    EvaluatePayload.ofFields fields =
      .ok ⟨⟨some s.angleUnit, some s.precision, some s.thousandsSeparator⟩, trimmed text⟩ := by
  simp only [EvaluatePayload.ofFields, h.angleUnit.optional_eq, h.precision.optional_eq, h.separators.optional_eq,
    required_text h.expression, unknownFields_eq_nil h.known, trimmed]

theorem AsksCurve.payload {unit : AngleUnit} {xMin xMax : Float} {samples : Int}
    (h : AsksCurve fields unit text xMin xMax samples) :
    PlotPayload.ofFields fields = .ok ⟨trimmed text, some unit, xMin, xMax, samples⟩ := by
  simp only [PlotPayload.ofFields, h.angleUnit.optional_eq, h.xMin.optional_eq, h.xMax.optional_eq,
    h.samples.optional_eq, required_text h.expression, unknownFields_eq_nil h.known, trimmed]

theorem bodyFields_object (request : String) (fields : Json.Fields) : bodyFields request (.object fields) = .ok fields := by
  cases fields <;> rfl

end

/-! ## Settings of a request -/

section
variable {c : Configuration} {base : Settings}

theorem Configuration.settings_eq_ok {o : Overrides} {s : Settings} : c.settings o = .ok s ↔
    ∃ base, Configuration.settingsOf ((c.plugin.get? "defaults").getD .null) = .ok base ∧ base.merge o = s :=
  map_eq_ok

theorem Configuration.settings_eq (h : c.settings {} = .ok base) (o : Overrides) : c.settings o = .ok (base.merge o) := by
  obtain ⟨defaults, hdefaults, rfl⟩ := Configuration.settings_eq_ok.mp h
  exact Configuration.settings_eq_ok.mpr ⟨defaults, hdefaults, rfl⟩

/-- Overrides of all settings leave nothing of the defaults, and the bound on the precision does not show. -/
theorem significantDigits_merge (base s : Settings) :
    (base.merge ⟨some s.angleUnit, some s.precision, some s.thousandsSeparator⟩).significantDigits =
      s.significantDigits := by
  change (min (max (max s.precision 0) 1) 17).toNat = (min (max s.precision 1) 17).toNat
  omega

/-- What a configuration must have so that an expression is looked at: defaults that load and a limit that it keeps to. -/
structure Configuration.Admits (c : Configuration) (expression : String) : Prop where
  defaults : ∃ base, c.settings {} = .ok base
  length : ∃ limit, c.maxExpression = .ok limit ∧ ((trimmed expression).length : Int) ≤ limit

theorem Configuration.installed_admits {setup : Option String} {expression : String}
    (h : Configuration.start (some installedDocument) setup = .ok c) (hlength : (trimmed expression).length ≤ 1024) :
    c.Admits expression := by
  obtain rfl := Except.ok.inj h
  exact ⟨⟨_, rfl⟩, 1024, rfl, by exact_mod_cast hlength⟩

theorem Configuration.installed_maxSamples {setup : Option String}
    (h : Configuration.start (some installedDocument) setup = .ok c) : c.maxSamples = .ok 5000 := by
  obtain rfl := Except.ok.inj h
  rfl

end

/-! ## Replies of the endpoints -/

section
variable {c : Configuration} {fields : Json.Fields} {text : String}

theorem withinLength_eq (h : c.Admits text) (answer : String → Except Fault Reply) :
    withinLength c (trimmed text) answer = answer (trimmed text) := by
  obtain ⟨limit, hlimit, hlength⟩ := h.length
  rw [withinLength, hlimit]
  change (if limit < _ then _ else _) = _
  rw [if_neg (not_lt.mpr hlength)]

theorem evaluateEndpoint_eq {s : Settings} (hc : c.Admits text) (h : AsksValue fields s text) :
    evaluateEndpoint c (.object fields) = .ok
      (match Expression.evaluate s text with
      | .error failure => .error (expressionFailure failure)
      | .ok x => .ok (.object
          [("result", .finiteOrNull x), ("formatted", .text (Display.format s x)),
            ("normalized", .text (String.ofList (Expression.normalize (Text.trim (trimmed text).toList)))),
            ("angle_unit", .text s.angleUnit.name)])) := by
  obtain ⟨base, hbase⟩ := hc.defaults
  generalize hoverrides : (⟨some s.angleUnit, some s.precision, some s.thousandsSeparator⟩ : Overrides) = o
  have hsettings := Configuration.settings_eq hbase o
  have hunit : (base.merge o).angleUnit = s.angleUnit := by rw [← hoverrides]; rfl
  have hdegrees : (base.merge o).usesDegrees = s.usesDegrees := by rw [Settings.usesDegrees, hunit, Settings.usesDegrees]
  have hevaluate : Expression.evaluate (base.merge o) (trimmed text) = Expression.evaluate s text :=
    (Expression.evaluate_trimBy _ text).trans (Expression.evaluate_congr hdegrees text)
  have hformat : ∀ x, Display.format (base.merge o) x = Display.format s x := by
    subst hoverrides
    exact Display.format_congr (significantDigits_merge base s) rfl
  rw [evaluateEndpoint, withPayload, bodyFields_object, Except.bind, h.payload, hoverrides]
  dsimp only
  rw [withinLength_eq hc, hsettings]
  simp only [bind, Except.bind, hevaluate, hformat, hunit]
  cases Expression.evaluate s text <;> rfl

theorem plotEndpoint_eq {unit : AngleUnit} {xMin xMax : Float} {samples limit : Int} (hc : c.Admits text)
    (hlimit : c.maxSamples = .ok limit) (hsamples : samples ≤ limit) (h : AsksCurve fields unit text xMin xMax samples) :
    ∃ s : Settings, s.angleUnit = unit ∧ plotEndpoint c (.object fields) = .ok
      (match Curve.request s (trimmed text).toList xMin xMax samples with
      | .error fault => .error (invalidDomain fault)
      | .ok curve => .ok (curveValue (trimmed text) curve)) := by
  obtain ⟨base, hbase⟩ := hc.defaults
  refine ⟨base.merge { angleUnit := some unit }, rfl, ?_⟩
  rw [plotEndpoint, withPayload, bodyFields_object, Except.bind, h.payload]
  dsimp only
  rw [withinLength_eq hc, hlimit, Configuration.settings_eq hbase]
  simp only [bind, Except.bind, not_lt.mpr hsamples, if_false]
  cases Curve.request (base.merge { angleUnit := some unit }) (trimmed text).toList xMin xMax samples <;> rfl

end

/-! ## Responses -/

/-- A request that is posted to a route with fields that can be read. -/
structure Posted (c : Configuration) (r : Request) (route : Route) (fields : Json.Fields) : Prop where
  method : r.method = "POST"
  route : routeOf (pathOf r.target) = some route
  document : documentOf c r = .ok (.object fields)

/-- A response that hands a reply to the caller of a request. -/
def Response.Conveys (response : Response) (requestId : String) : Reply → Prop
  | .ok data => response.status = 200 ∧ response.body = some (.object [("success", .bool true), ("data", data)])
  | .error e => response.status = e.status ∧
    response.body = some (.object [("success", .bool false), ("error", .object (withRequest (some requestId) e.fields))])

/-- What a request comes to before it is put into an envelope. -/
def outcomeOf (c : Configuration) (r : Request) : Except Trouble Json.Value :=
  match routeOf (pathOf r.target) with
  | none => .error pathUnknown
  | some route => if route.methods.contains r.method then answerRoute c r route else .error methodRefused

/-- The envelope of an outcome. -/
def answerOf (requestId : String) : Except Trouble Json.Value → Answer
  | .ok data => .success 200 data
  | .error trouble => .failure (some requestId) (.ofTrouble fallbackCode trouble)

theorem answer_eq (c : Configuration) (requestId : String) (r : Request) :
    answer c requestId r = answerOf requestId (outcomeOf c r) := by
  unfold answer
  change (match outcomeOf c r with | .ok data => _ | .error trouble => _) = _
  cases outcomeOf c r <;> rfl

theorem respond_post {c : Configuration} {r : Request} {route : Route} (hmethod : r.method = "POST")
    (hroute : routeOf (pathOf r.target) = some route) (hwrite : route.isReadOnly = false) (requestId : String) :
    (respond c requestId r).status = (answerOf requestId (answerRoute c r route)).status ∧
      (respond c requestId r).body = some (answerOf requestId (answerRoute c r route)).body := by
  have hasks : asksForMethods r = false := by
    rw [asksForMethods, hmethod]
    rfl
  have hhead : (r.method == "HEAD") = false := by
    rw [hmethod]
    decide
  have houtcome : outcomeOf c r = answerRoute c r route := by
    simp only [outcomeOf, hroute]
    refine if_pos ?_
    rw [Route.methods, hwrite, hmethod]
    decide
  constructor <;> simp only [respond, hasks, hhead, answer_eq, houtcome, Bool.false_eq_true, if_false]

/-- The reply of an endpoint to the document in the body is handed to the caller. -/
theorem respond_document {c : Configuration} {r : Request} {route : Route} {body : Json.Value}
    {endpoint : Configuration → Json.Value → Except Fault Reply} {reply : Reply} (hmethod : r.method = "POST")
    (hroute : routeOf (pathOf r.target) = some route) (hwrite : route.isReadOnly = false)
    (hanswer : answerRoute c r route = withDocument c r endpoint) (hdocument : documentOf c r = .ok body)
    (hreply : endpoint c body = .ok reply) (requestId : String) : (respond c requestId r).Conveys requestId reply := by
  obtain ⟨hstatus, hbody⟩ := respond_post (c := c) hmethod hroute hwrite requestId
  have houtcome : answerRoute c r route = settle (.ok reply) := by
    rw [hanswer, withDocument, hdocument]
    exact congrArg settle hreply
  rw [houtcome] at hstatus hbody
  cases reply <;> exact ⟨hstatus, hbody⟩

theorem respond_posted {c : Configuration} {r : Request} {route : Route} {fields : Json.Fields}
    {endpoint : Configuration → Json.Value → Except Fault Reply} {reply : Reply} (h : Posted c r route fields)
    (hroute : route.isReadOnly = false) (hanswer : answerRoute c r route = withDocument c r endpoint)
    (hreply : endpoint c (.object fields) = .ok reply) (requestId : String) :
    (respond c requestId r).Conveys requestId reply :=
  respond_document h.method h.route hroute hanswer h.document hreply requestId

end Reckoner.Service
