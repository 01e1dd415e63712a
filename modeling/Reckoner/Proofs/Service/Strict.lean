import Reckoner.Proofs.Service.Plot

/-!
# Strict documents

A document in the strict notation holds no infinity and no not-a-number. The installed service answers every request with
such a document, with one exception: a curve over a domain whose width is beyond the largest double.
-/

namespace Reckoner

set_option autoImplicit false

/-! ## Numbers of a document -/

namespace Json.Value

/-- A double that stands somewhere in a document. -/
inductive Occurs (x : Float) : Json.Value → Prop where
  | here : Occurs x (.float x)
  | item {items : List Json.Value} {v : Json.Value} (hmem : v ∈ items) (h : Occurs x v) : Occurs x (.list items)
  | field {fields : List (String × Json.Value)} {name : String} {v : Json.Value} (hmem : (name, v) ∈ fields)
      (h : Occurs x v) : Occurs x (.object fields)

/-- All numbers of a document are finite. -/
def Strict (v : Json.Value) : Prop :=
  ∀ x, Occurs x v → x.isFinite = true

@[simp] theorem strict_null : Strict .null := nofun

@[simp] theorem strict_bool (b : Bool) : Strict (.bool b) := nofun

@[simp] theorem strict_int (n : Int) : Strict (.int n) := nofun

@[simp] theorem strict_text (s : String) : Strict (.text s) := nofun

@[simp] theorem strict_float {x : Float} : Strict (.float x) ↔ x.isFinite = true :=
  ⟨fun h => h x .here, fun h _ hoccurs => by cases hoccurs; exact h⟩

theorem strict_list {items : List Json.Value} : Strict (.list items) ↔ ∀ v ∈ items, Strict v :=
  ⟨fun h v hv x hx => h x (.item hv hx), fun h x hx => by
    cases hx with
    | item hmem hoccurs => exact h _ hmem x hoccurs⟩

theorem strict_object {fields : Json.Fields} : Strict (.object fields) ↔ ∀ field ∈ fields, Strict field.2 :=
  ⟨fun h field hfield x hx => h x (.field hfield hx), fun h x hx => by
    cases hx with
    | field hmem hoccurs => exact h _ hmem x hoccurs⟩

@[simp] theorem strict_object_nil : Strict (.object []) := strict_object.mpr nofun

@[simp] theorem strict_object_cons {name : String} {v : Json.Value} {fields : Json.Fields} :
    Strict (.object ((name, v) :: fields)) ↔ Strict v ∧ Strict (.object fields) := by
  rw [strict_object, strict_object, List.forall_mem_cons]

@[simp] theorem strict_list_nil : Strict (.list []) := strict_list.mpr nofun

@[simp] theorem strict_list_cons {v : Json.Value} {items : List Json.Value} :
    Strict (.list (v :: items)) ↔ Strict v ∧ Strict (.list items) := by
  rw [strict_list, strict_list, List.forall_mem_cons]

@[simp] theorem strict_finiteOrNull (x : Float) : Strict (finiteOrNull x) := by
  unfold finiteOrNull
  split <;> simp [*]

@[simp] theorem strict_ofNat? (n : Option Nat) : Strict (ofNat? n) := by
  cases n <;> simp [ofNat?]

theorem strict_ofFloat? {x : Option Float} : Strict (ofFloat? x) ↔ ∀ y, x = some y → y.isFinite = true := by
  cases x <;> simp [ofFloat?]

theorem strict_texts (texts : List String) : Strict (.list (texts.map .text)) := by
  rw [strict_list]
  intro v hv
  obtain ⟨s, -, rfl⟩ := List.mem_map.mp hv
  exact strict_text s

end Json.Value

namespace Service

open Json.Value

/-! ## Replies -/

/-- The numbers of a reply are finite, whether it is data or an error. -/
def StrictReply : Reply → Prop
  | .ok data => data.Strict
  | .error e => Strict (.object e.details)

theorem strict_invalidRequest (errors : List FieldError) : StrictReply (.error (invalidRequest errors)) := by
  have herrors : Strict (.list (errors.map FieldError.toValue)) := by
    rw [strict_list]
    intro v hv
    obtain ⟨e, -, rfl⟩ := List.mem_map.mp hv
    simp [FieldError.toValue, strict_texts]
  simp [StrictReply, invalidRequest, ServiceError.invalid, herrors]

theorem strict_expressionFailure (f : Expression.Failure) : StrictReply (.error (expressionFailure f)) := by
  simp [StrictReply, expressionFailure, ServiceError.invalid]

/-- An error without details. -/
theorem strict_invalid (code message : String) : StrictReply (.error (.invalid code message [])) := by
  simp [StrictReply, ServiceError.invalid]

section
variable {c : Configuration} {body : Json.Value} {reply : Reply}

theorem withPayload_strict {α : Type} {request : String} {ofFields : Json.Fields → Except (List FieldError) α}
    {answer : α → Except Fault Reply} (h : withPayload request ofFields body answer = .ok reply)
    (hanswer : ∀ payload, answer payload = .ok reply → StrictReply reply) : StrictReply reply := by
  unfold withPayload at h
  split at h
  · rw [← Except.ok.inj h]
    exact strict_invalidRequest _
  · exact hanswer _ h

theorem withinLength_strict {expression : String} {answer : String → Except Fault Reply}
    (h : withinLength c expression answer = .ok reply) (hanswer : answer expression = .ok reply → StrictReply reply) :
    StrictReply reply := by
  obtain ⟨limit, -, h⟩ := bind_eq_ok.mp h
  split at h
  · rw [← Except.ok.inj h]
    exact strict_invalid _ _
  · exact hanswer h

theorem evaluateEndpoint_strict (h : evaluateEndpoint c body = .ok reply) : StrictReply reply := by
  refine withPayload_strict h fun payload h => withinLength_strict h fun h => ?_
  obtain ⟨s, -, h⟩ := bind_eq_ok.mp h
  split at h
  · rw [← Except.ok.inj h]
    exact strict_expressionFailure _
  · rw [← Except.ok.inj h]
    simp [StrictReply]

theorem formatEndpoint_strict (h : formatEndpoint c body = .ok reply) : StrictReply reply := by
  refine withPayload_strict h fun payload h => ?_
  obtain ⟨s, -, h⟩ := bind_eq_ok.mp h
  rw [← Except.ok.inj h]
  simp [StrictReply]

theorem basesReply_strict (x : Float) : StrictReply (basesReply x) := by
  unfold basesReply
  split
  · next bases hbases =>
    have hfinite : x.isFinite = true := by
      by_contra hspecial
      rw [Radix.bases?, Double.trunc?_eq_none_iff.mpr (by simpa using hspecial)] at hbases
      contradiction
    simp [StrictReply, Report.bases, hfinite]
  · exact strict_invalid _ _

theorem basesEndpoint_strict (h : basesEndpoint c body = .ok reply) : StrictReply reply := by
  refine withPayload_strict h fun payload h => ?_
  split at h
  · rw [← Except.ok.inj h]
    exact basesReply_strict _
  · refine withinLength_strict h fun h => ?_
    obtain ⟨s, -, h⟩ := bind_eq_ok.mp h
    split at h
    · rw [← Except.ok.inj h]
      exact strict_expressionFailure _
    · rw [← Except.ok.inj h]
      exact basesReply_strict _
  · rw [← Except.ok.inj h]
    exact strict_invalid _ _

/-- What the endpoint for curves replies to a request that it does not accept. -/
theorem plotEndpoint_error_strict {e : ServiceError} (h : plotEndpoint c body = .ok (.error e)) :
    StrictReply (.error e) := by
  refine withPayload_strict h fun payload h => withinLength_strict h fun h => ?_
  obtain ⟨limit, -, h⟩ := bind_eq_ok.mp h
  split at h
  · rw [← Except.ok.inj h]
    exact strict_invalid _ _
  · obtain ⟨s, -, h⟩ := bind_eq_ok.mp h
    split at h
    · rw [← Except.ok.inj h]
      exact strict_invalid _ _
    · exact absurd (Except.ok.inj h) nofun

end

/-! ## Curves -/

theorem curveValue_strict (expression : String) (curve : Curve) : (curveValue expression curve).Strict ↔
    curve.xMin.isFinite = true ∧ curve.xMax.isFinite = true ∧ ∀ p ∈ curve.points, p.x.isFinite = true := by
  have hseries : Strict (.list (curve.points.map pointValue)) ↔ ∀ p ∈ curve.points, p.x.isFinite = true := by
    rw [strict_list, List.forall_mem_map]
    refine forall₂_congr fun p hp => ?_
    have hy : Strict (ofFloat? p.y) := strict_ofFloat?.mpr fun y hy => points_y_finite hp hy
    simp [pointValue, hy]
  simp [curveValue, hseries, and_assoc]

/-- A request for a curve that is accepted although the width of its domain is beyond the largest double. -/
def Overwide (c : Configuration) (r : Request) : Prop :=
  ∃ payload curve, Plots c r payload curve ∧ (curve.xMax - curve.xMin).isFinite = false

/-- Only a request that is posted to the endpoint for curves plots anything. -/
theorem not_overwide {c : Configuration} {r : Request}
    (h : routeOf (pathOf r.target) ≠ some .plot ∨ r.method ≠ "POST") : ¬ Overwide c r := by
  rintro ⟨payload, curve, hplots, -⟩
  cases h with
  | inl hroute => exact hroute hplots.route
  | inr hpost => exact hpost hplots.method

/-- The numbers of a curve are finite if and only if the width of its domain is. -/
theorem Curve.Admitted.strict_iff {curve : Curve} (h : curve.Admitted) (hlarge : curve.sampleCount ≤ 2 ^ 51)
    (expression : String) : (curveValue expression curve).Strict ↔ (curve.xMax - curve.xMin).isFinite = true := by
  have hplaces : (∀ p ∈ curve.points, p.x.isFinite = true) ↔
      ∀ i < curve.sampleCount, (Curve.place curve.xMin curve.xMax curve.sampleCount i).isFinite = true := by
    rw [← List.forall_mem_map (f := CurvePoint.x) (P := fun x => x.isFinite = true), Curve.map_x_points, List.forall_mem_map]
    simp only [List.mem_range]
  rw [curveValue_strict, hplaces, and_iff_right h.min_finite, and_iff_right h.max_finite]
  constructor
  · intro hfinite
    by_contra hwidth
    have hnan := Curve.place_zero_isNaN h.min_finite h.max_finite h.two_le (by simpa using hwidth)
    have hnumber := Double.isNaN_of_isFinite (hfinite 0 (by have := h.two_le; omega))
    rw [hnan] at hnumber
    exact absurd hnumber (by decide)
  · exact fun hwidth i hi => Curve.place_isFinite h.min_finite h.max_finite h.lt h.two_le hlarge hwidth hi

/-! ## Responses -/

/-- The numbers of an outcome are finite. -/
def StrictOutcome : Except Trouble Json.Value → Prop
  | .ok data => data.Strict
  | .error (.settled e) => Strict (.object e.details)
  | .error _ => True

theorem refusalError_strict (code : Option Int) (description : Option String) :
    Strict (.object (refusalError code description).details) := by
  unfold refusalError
  dsimp only
  split
  · simp [ServiceError.ofClass]
  · split <;> simp [ServiceError.ofClass]

theorem answerOf_strict (requestId : String) (outcome : Except Trouble Json.Value) :
    (answerOf requestId outcome).body.Strict ↔ StrictOutcome outcome := by
  have hfailure : ∀ e : ServiceError, (Answer.failure (some requestId) e).body.Strict ↔ Strict (.object e.details) := by
    intro e
    change Strict (.object [("success", .bool false), ("error", .object [("code", .text e.code),
      ("message", .text e.message), ("details", .object e.details), ("request_id", .text requestId)])]) ↔ _
    simp
  cases outcome with
  | ok data => simp [answerOf, Answer.success, StrictOutcome]
  | error trouble =>
    refine (hfailure _).trans ?_
    cases trouble with
    | settled e => rfl
    | refusal code description => exact iff_of_true (refusalError_strict code description) trivial
    | unexpected => exact iff_of_true strict_object_nil trivial

theorem settle_strict {outcome : Except Fault Reply} (h : ∀ reply, outcome = .ok reply → StrictReply reply) :
    StrictOutcome (settle outcome) := by
  cases outcome with
  | error fault => trivial
  | ok reply => cases reply <;> exact h _ rfl

/-- A body that is refused is refused without details. -/
theorem documentOf_error_strict {c : Configuration} {r : Request} {trouble : Trouble} (h : documentOf c r = .error trouble) :
    StrictOutcome (.error trouble) := by
  cases trouble with
  | settled e =>
    unfold documentOf at h
    repeat' split at h
    all_goals simp [bodyTooLarge] at h
  | refusal code description => trivial
  | unexpected => trivial

theorem withDocument_strict {c : Configuration} {r : Request} {endpoint : Configuration → Json.Value → Except Fault Reply}
    (h : ∀ body reply, documentOf c r = .ok body → endpoint c body = .ok reply → StrictReply reply) :
    StrictOutcome (withDocument c r endpoint) := by
  unfold withDocument
  cases hdocument : documentOf c r with
  | error trouble => exact documentOf_error_strict hdocument
  | ok body => exact settle_strict fun reply hreply => h body reply hdocument hreply

theorem functionsValue_strict : functionsValue.Strict := by
  have htexts : ∀ texts, Strict (textList texts) := strict_texts
  simp [functionsValue, htexts]

section
variable {c : Configuration} {setup : Option String}

theorem homeValue_strict (h : Configuration.start (some installedDocument) setup = .ok c) : (homeValue c).Strict := by
  obtain ⟨title, tagline, size, hsite⟩ : ∃ title tagline size, c.site = .object
      [("title", .text title), ("tagline", .text tagline), ("max_content_length_mb", .int size)] := by
    obtain rfl := Except.ok.inj h
    exact ⟨_, _, _, rfl⟩
  obtain ⟨title', summary, category, blueprint, icon, api, hmanifest⟩ : ∃ title summary category blueprint icon api,
      c.manifest = [("title", .text title), ("summary", .text summary), ("category", .text category),
        ("blueprint", .text blueprint), ("icon", .text icon), ("api", .text api)] := by
    obtain rfl := Except.ok.inj h
    exact ⟨_, _, _, _, _, _, rfl⟩
  simp [homeValue, hsite, hmanifest]

theorem homeEndpoint_strict (h : Configuration.start (some installedDocument) setup = .ok c) :
    StrictOutcome (settle (homeEndpoint c)) := by
  refine settle_strict fun reply hreply => ?_
  unfold homeEndpoint at hreply
  split at hreply
  · obtain rfl := Except.ok.inj hreply
    exact homeValue_strict h
  · contradiction

/-- The endpoint for curves leaves out a value that is not finite, but not a place. -/
theorem withDocument_plot_strict {r : Request} (hmethod : r.method = "POST") (hroute : routeOf (pathOf r.target) = some .plot)
    (hlimit : c.maxSamples = .ok 5000) : StrictOutcome (withDocument c r plotEndpoint) ↔ ¬ Overwide c r := by
  have hcurve : ∀ {body payload curve}, Draws c body payload curve →
      ((curveValue payload.expression curve).Strict ↔ (curve.xMax - curve.xMin).isFinite = true) := by
    intro body payload curve hdraws
    obtain ⟨hadmitted, hcount⟩ := hdraws.admitted
    obtain ⟨limit, hlimit', hsamples⟩ := hdraws.samples
    obtain rfl := Except.ok.inj (hlimit.symm.trans hlimit')
    exact Curve.Admitted.strict_iff hadmitted (by omega) _
  constructor
  · rintro hstrict ⟨payload, curve, ⟨-, -, body, hbody, hdraws⟩, hwidth⟩
    have hdata : withDocument c r plotEndpoint = .ok (curveValue payload.expression curve) :=
      withDocument_eq_ok.mpr ⟨body, hbody, plotEndpoint_eq_ok.mpr ⟨payload, curve, hdraws, rfl⟩⟩
    rw [hdata] at hstrict
    have hfinite := (hcurve hdraws).mp hstrict
    rw [hwidth] at hfinite
    exact absurd hfinite (by decide)
  · intro hnot
    refine withDocument_strict fun body reply hbody hreply => ?_
    cases reply with
    | error e => exact plotEndpoint_error_strict hreply
    | ok data =>
      obtain ⟨payload, curve, hdraws, rfl⟩ := plotEndpoint_eq_ok.mp hreply
      refine (hcurve hdraws).mpr ?_
      by_contra hwidth
      exact hnot ⟨payload, curve, ⟨hmethod, hroute, body, hbody, hdraws⟩, by simpa using hwidth⟩

/-- The numbers of an outcome are finite except for a domain that is too wide. -/
theorem outcomeOf_strict (h : Configuration.start (some installedDocument) setup = .ok c) (r : Request)
    (hasks : asksForMethods r = false) : StrictOutcome (outcomeOf c r) ↔ ¬ Overwide c r := by
  unfold outcomeOf
  cases hroute : routeOf (pathOf r.target) with
  | none => exact iff_of_true trivial (not_overwide (.inl (by simp [hroute])))
  | some route =>
    dsimp only
    split
    · next hallowed =>
      cases route with
      | plot =>
        have hmethod : r.method ≠ "OPTIONS" := by simpa [asksForMethods, hroute] using hasks
        have hpost : r.method = "POST" := by simpa [Route.methods, Route.isReadOnly, hmethod] using hallowed
        exact withDocument_plot_strict hpost hroute (Configuration.installed_maxSamples h)
      | home => exact iff_of_true (homeEndpoint_strict h) (not_overwide (.inl (by simp [hroute])))
      | functions => exact iff_of_true functionsValue_strict (not_overwide (.inl (by simp [hroute])))
      | file => exact iff_of_true trivial (not_overwide (.inl (by simp [hroute])))
      | evaluate =>
        exact iff_of_true (withDocument_strict fun _ _ _ => evaluateEndpoint_strict)
          (not_overwide (.inl (by simp [hroute])))
      | format =>
        exact iff_of_true (withDocument_strict fun _ _ _ => formatEndpoint_strict)
          (not_overwide (.inl (by simp [hroute])))
      | bases =>
        exact iff_of_true (withDocument_strict fun _ _ _ => basesEndpoint_strict)
          (not_overwide (.inl (by simp [hroute])))
    · next hrefused =>
      refine iff_of_true trivial (not_overwide ?_)
      by_cases hplot : route = .plot
      · subst hplot
        refine .inr fun hpost => hrefused ?_
        rw [hpost]
        decide
      · exact .inl fun hsame => hplot (Option.some.inj (hroute.symm.trans hsame))

/--
Under the installed configuration all numbers of a response are finite, whatever was requested, unless a curve is plotted
over a domain whose width is beyond the largest double; the places of that curve begin with not-a-number.
-/
theorem respond_strict_iff (h : Configuration.start (some installedDocument) setup = .ok c) (requestId : String)
    (r : Request) : (∀ body, (respond c requestId r).body = some body → body.Strict) ↔ ¬ Overwide c r := by
  cases hasks : asksForMethods r with
  | true =>
    have hmethod : r.method = "OPTIONS" := (by simpa [asksForMethods] using hasks : _ ∧ _).1
    have hbody : (respond c requestId r).body = none := by rw [respond, hasks, if_pos rfl]
    have hnot : ¬ Overwide c r := not_overwide (.inr (by rw [hmethod]; decide))
    simp [hbody, hnot]
  | false =>
    have hbody : (respond c requestId r).body =
        if r.method == "HEAD" then none else some (answerOf requestId (outcomeOf c r)).body := by
      rw [respond, hasks, if_neg Bool.false_ne_true, answer_eq]
    by_cases hhead : r.method = "HEAD"
    · have hnot : ¬ Overwide c r := not_overwide (.inr (by rw [hhead]; decide))
      simp [hbody, hhead, hnot]
    · simp [hbody, hhead, answerOf_strict, outcomeOf_strict h r hasks]

/-- An infinite value is answered with null. -/
theorem respond_strict_iff_overflow :
    ∃ c, Configuration.start (some installedDocument) none = .ok c ∧
      ∀ body, (respond c "id" ⟨"POST", "/api/scientific_calculator/evaluate", "application/json",
        some "\x7b\"expression\": \"9e999\"\x7d"⟩).body = some body → body.Strict := by
  obtain ⟨c, hstart⟩ : ∃ c, Configuration.start (some installedDocument) none = .ok c := ⟨_, rfl⟩
  have hroute : routeOf (pathOf "/api/scientific_calculator/evaluate") = some .evaluate := rfl
  exact ⟨c, hstart, (respond_strict_iff hstart "id" _).mpr (not_overwide (.inl (by simp [hroute])))⟩

/-- Three samples from one end of the doubles to the other. -/
theorem not_strict_wide :
    ∃ c body, Configuration.start (some installedDocument) none = .ok c ∧
      (respond c "id" ⟨"POST", "/api/scientific_calculator/plot", "application/json",
        some "\x7b\"expression\": \"x\", \"x_min\": -1e308, \"x_max\": 1e308, \"samples\": 3\x7d"⟩).body = some body ∧
      ¬ body.Strict := by
  obtain ⟨c, hstart⟩ : ∃ c, Configuration.start (some installedDocument) none = .ok c := ⟨_, rfl⟩
  obtain ⟨r, hr⟩ : ∃ r : Request, ⟨"POST", "/api/scientific_calculator/plot", "application/json",
    some "\x7b\"expression\": \"x\", \"x_min\": -1e308, \"x_max\": 1e308, \"samples\": 3\x7d"⟩ = r := ⟨_, rfl⟩
  have hdocument : documentOf c r = .ok (.object [("expression", .text "x"), ("x_min", .float (Double.ofDecimal true 1 308)),
      ("x_max", .float (Double.ofDecimal false 1 308)), ("samples", .int 3)]) := by
    obtain rfl := Except.ok.inj hstart
    rw [← hr]
    rfl
  obtain ⟨curve, hcurve, hwidth⟩ : ∃ curve, Curve.request {} "x".toList (Double.ofDecimal true 1 308)
      (Double.ofDecimal false 1 308) 3 = .ok curve ∧ (curve.xMax - curve.xMin).isFinite = false :=
    ⟨⟨['x'], Double.ofDecimal true 1 308, Double.ofDecimal false 1 308, 3, {}⟩, by decide +kernel, by decide +kernel⟩
  generalize Double.ofDecimal true 1 308 = low at hdocument hcurve
  generalize Double.ofDecimal false 1 308 = high at hdocument hcurve
  have hdraws : Draws c (.object [("expression", .text "x"), ("x_min", .float low), ("x_max", .float high),
      ("samples", .int 3)]) ⟨"x", none, low, high, 3⟩ curve := by
    obtain rfl := Except.ok.inj hstart
    have hlength : ("x".length : Int) ≤ 1024 := by decide
    have hsamples : (3 : Int) ≤ 5000 := by decide
    exact ⟨rfl, ⟨1024, rfl, hlength⟩, ⟨5000, rfl, hsamples⟩, ⟨{}, rfl, hcurve⟩⟩
  have hmethod : r.method = "POST" := hr ▸ rfl
  have hroute : routeOf (pathOf r.target) = some .plot := hr ▸ rfl
  have hdata := (conveys_plot_iff hmethod hroute "id" _).mpr ⟨_, _, ⟨hmethod, hroute, _, hdocument, hdraws⟩, rfl⟩
  rw [hr]
  refine ⟨c, _, hstart, hdata.2, fun hstrict => ?_⟩
  have hcurveStrict := (strict_object_cons.mp (strict_object_cons.mp hstrict).2).1
  obtain ⟨hadmitted, hcount⟩ := hdraws.admitted
  have hfinite := (Curve.Admitted.strict_iff hadmitted (by dsimp only at hcount; omega) _).mp hcurveStrict
  rw [hwidth] at hfinite
  exact absurd hfinite (by decide)

end

end Service

end Reckoner
