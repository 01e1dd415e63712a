import Reckoner.Proofs.Curve.Requests
import Reckoner.Proofs.Service.Response

/-!
# Successful responses

What must have happened when the service answers with data: the body was a document, its fields were read, the limits
were kept, and the data is what the endpoint makes of the payload.
-/

namespace Reckoner.Service

set_option autoImplicit false

/-! ## From a response to its endpoint -/

section
variable {c : Configuration} {r : Request} {route : Route} {endpoint : Configuration → Json.Value → Except Fault Reply}
  {data : Json.Value}

theorem answerOf_success (requestId : String) (outcome : Except Trouble Json.Value) :
    ((answerOf requestId outcome).status = 200 ∧
      some (answerOf requestId outcome).body = some (.object [("success", .bool true), ("data", data)])) ↔
      outcome = .ok data := by
  cases outcome with
  | ok data' => simp [answerOf, Answer.success]
  | error trouble => simp [answerOf, Answer.failure, Answer.failureOf]

theorem withDocument_eq_ok : withDocument c r endpoint = .ok data ↔
    ∃ body, documentOf c r = .ok body ∧ endpoint c body = .ok (.ok data) := by
  unfold withDocument
  cases hdocument : documentOf c r with
  | error trouble => simp [bind, Except.bind]
  | ok body =>
    simp only [bind, Except.bind, Except.ok.injEq, exists_eq_left']
    cases hreply : endpoint c body with
    | error fault => simp [settle]
    | ok reply => cases reply <;> simp [settle]

/-- A success conveys data exactly if the endpoint makes them of the document in the body. -/
theorem conveys_ok_iff (hmethod : r.method = "POST") (hroute : routeOf (pathOf r.target) = some route)
    (hwrite : route.isReadOnly = false) (hanswer : answerRoute c r route = withDocument c r endpoint) (requestId : String) :
    (respond c requestId r).Conveys requestId (.ok data) ↔
      ∃ body, documentOf c r = .ok body ∧ endpoint c body = .ok (.ok data) := by
  obtain ⟨hstatus, hbody⟩ := respond_post (c := c) hmethod hroute hwrite requestId
  rw [← withDocument_eq_ok, ← hanswer, ← answerOf_success requestId, ← hstatus, ← hbody]
  rfl

end

/-! ## From an endpoint to its payload -/

section
variable {c : Configuration} {body data : Json.Value}

theorem withPayload_eq_ok {α : Type} {request : String} {ofFields : Json.Fields → Except (List FieldError) α}
    {answer : α → Except Fault Reply} : withPayload request ofFields body answer = .ok (.ok data) ↔
      ∃ payload, (bodyFields request body).bind ofFields = .ok payload ∧ answer payload = .ok (.ok data) := by
  unfold withPayload
  cases (bodyFields request body).bind ofFields <;> simp

theorem withinLength_eq_ok {expression : String} {answer : String → Except Fault Reply} :
    withinLength c expression answer = .ok (.ok data) ↔
      (∃ limit, c.maxExpression = .ok limit ∧ (expression.length : Int) ≤ limit) ∧ answer expression = .ok (.ok data) := by
  unfold withinLength
  rw [bind_eq_ok]
  cases hlimit : c.maxExpression with
  | error fault => simp
  | ok limit => by_cases hlong : limit < expression.length <;> simp [pure, Except.pure, hlong, not_le, not_lt.mp]
end

/-! ## Values -/

/-- The data of a response with the value of an expression. -/
def evaluateValue (s : Settings) (expression : String) (x : Float) : Json.Value :=
  .object
    [("result", .finiteOrNull x), ("formatted", .text (Display.format s x)),
      ("normalized", .text (String.ofList (Expression.normalize (Text.trim expression.toList)))),
      ("angle_unit", .text s.angleUnit.name)]

/-- A document that the endpoint for values accepts, with what it asks for and the value that it gets. -/
structure Evaluates (c : Configuration) (body : Json.Value) (payload : EvaluatePayload) (s : Settings) (x : Float) :
    Prop where
  reads : (bodyFields "EvaluatePayload" body).bind EvaluatePayload.ofFields = .ok payload
  length : ∃ limit, c.maxExpression = .ok limit ∧ (payload.expression.length : Int) ≤ limit
  settings : c.settings payload.overrides = .ok s
  value : Expression.evaluate s payload.expression = .ok x

theorem evaluateEndpoint_eq_ok {c : Configuration} {body data : Json.Value} : evaluateEndpoint c body = .ok (.ok data) ↔
    ∃ payload s x, Evaluates c body payload s x ∧ data = evaluateValue s payload.expression x := by
  unfold evaluateEndpoint
  simp only [withPayload_eq_ok, withinLength_eq_ok, bind_eq_ok]
  constructor
  · rintro ⟨payload, hreads, hlength, s, hs, hanswer⟩
    cases hvalue : Expression.evaluate s payload.expression with
    | error failure =>
      rw [hvalue] at hanswer
      exact absurd (Except.ok.inj hanswer) nofun
    | ok x =>
      rw [hvalue] at hanswer
      exact ⟨payload, s, x, ⟨hreads, hlength, hs, hvalue⟩, (Except.ok.inj (Except.ok.inj hanswer)).symm⟩
  · rintro ⟨payload, s, x, ⟨hreads, hlength, hs, hvalue⟩, rfl⟩
    refine ⟨payload, hreads, hlength, s, hs, ?_⟩
    rw [hvalue]
    rfl

theorem conveys_evaluate_iff {c : Configuration} {r : Request} (hmethod : r.method = "POST")
    (hroute : routeOf (pathOf r.target) = some .evaluate) (requestId : String) (data : Json.Value) :
    (respond c requestId r).Conveys requestId (.ok data) ↔ ∃ body, documentOf c r = .ok body ∧
      ∃ payload s x, Evaluates c body payload s x ∧ data = evaluateValue s payload.expression x := by
  simp only [conveys_ok_iff hmethod hroute rfl rfl requestId, evaluateEndpoint_eq_ok]

/-! ## Curves -/

/-- A document that the endpoint for curves accepts, with what it asks for and the curve that it gets. -/
structure Draws (c : Configuration) (body : Json.Value) (payload : PlotPayload) (curve : Curve) : Prop where
  reads : (bodyFields "PlotPayload" body).bind PlotPayload.ofFields = .ok payload
  length : ∃ limit, c.maxExpression = .ok limit ∧ (payload.expression.length : Int) ≤ limit
  samples : ∃ limit, c.maxSamples = .ok limit ∧ payload.samples ≤ limit
  curve : ∃ s, c.settings { angleUnit := payload.angleUnit } = .ok s ∧
    Curve.request s payload.expression.toList payload.xMin payload.xMax payload.samples = .ok curve

theorem plotEndpoint_eq_ok {c : Configuration} {body data : Json.Value} : plotEndpoint c body = .ok (.ok data) ↔
    ∃ payload curve, Draws c body payload curve ∧ data = curveValue payload.expression curve := by
  unfold plotEndpoint
  simp only [withPayload_eq_ok, withinLength_eq_ok, bind_eq_ok]
  constructor
  · rintro ⟨payload, hreads, hlength, limit, hlimit, hanswer⟩
    by_cases hsamples : limit < payload.samples
    · rw [if_pos hsamples] at hanswer
      exact absurd (Except.ok.inj hanswer) nofun
    · rw [if_neg hsamples] at hanswer
      obtain ⟨s, hs, hanswer⟩ := bind_eq_ok.mp hanswer
      cases hrequest : Curve.request s payload.expression.toList payload.xMin payload.xMax payload.samples with
      | error fault =>
        rw [hrequest] at hanswer
        exact absurd (Except.ok.inj hanswer) nofun
      | ok curve =>
        rw [hrequest] at hanswer
        exact ⟨payload, curve, ⟨hreads, hlength, ⟨limit, hlimit, not_lt.mp hsamples⟩, ⟨s, hs, hrequest⟩⟩,
          (Except.ok.inj (Except.ok.inj hanswer)).symm⟩
  · rintro ⟨payload, curve, ⟨hreads, hlength, ⟨limit, hlimit, hsamples⟩, ⟨s, hs, hrequest⟩⟩, rfl⟩
    refine ⟨payload, hreads, hlength, limit, hlimit, ?_⟩
    rw [if_neg (not_lt.mpr hsamples)]
    refine bind_eq_ok.mpr ⟨s, hs, ?_⟩
    rw [hrequest]
    rfl

/-- A request that is posted to the endpoint for curves and accepted there. -/
structure Plots (c : Configuration) (r : Request) (payload : PlotPayload) (curve : Curve) : Prop where
  method : r.method = "POST"
  route : routeOf (pathOf r.target) = some .plot
  draws : ∃ body, documentOf c r = .ok body ∧ Draws c body payload curve

theorem conveys_plot_iff {c : Configuration} {r : Request} (hmethod : r.method = "POST")
    (hroute : routeOf (pathOf r.target) = some .plot) (requestId : String) (data : Json.Value) :
    (respond c requestId r).Conveys requestId (.ok data) ↔
      ∃ payload curve, Plots c r payload curve ∧ data = curveValue payload.expression curve := by
  simp only [conveys_ok_iff hmethod hroute rfl rfl requestId, plotEndpoint_eq_ok]
  constructor
  · rintro ⟨body, hbody, payload, curve, hdraws, rfl⟩
    exact ⟨payload, curve, ⟨hmethod, hroute, body, hbody, hdraws⟩, rfl⟩
  · rintro ⟨payload, curve, ⟨-, -, body, hbody, hdraws⟩, rfl⟩
    exact ⟨body, hbody, payload, curve, hdraws, rfl⟩

theorem Draws.admitted {c : Configuration} {body : Json.Value} {payload : PlotPayload} {curve : Curve}
    (h : Draws c body payload curve) : curve.Admitted ∧ (curve.sampleCount : Int) = payload.samples := by
  obtain ⟨s, -, hrequest⟩ := h.curve
  exact Curve.request_admitted hrequest

end Reckoner.Service
