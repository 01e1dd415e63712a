import Reckoner.Proofs.Curve.Segments
import Reckoner.Proofs.Service.Success

/-!
# Responses with a curve

The response to a request for a curve lists the points and counts them four ways: all of them, those with a value, those
without, and the segments. The counts agree with each other, with the list and with the number that was asked for.
-/

namespace Reckoner

set_option autoImplicit false

/-- The value of a field of a document; none for a document that is no object. -/
def Json.Value.field? (v : Json.Value) (name : String) : Option Json.Value :=
  match v with
  | .object fields => Json.Fields.get? fields name
  | _ => none

namespace Service

open Curve (blocks countSegments joins)

/-- Whether an item of a series has a value that is not null. -/
def hasY (item : Json.Value) : Bool :=
  match item.field? "y" with
  | none | some .null => false
  | some _ => true

/-- Data of a curve with as many samples as were asked for: every count is that of the series. -/
structure Consistent (data : Json.Value) (samples : Int) (series : List Json.Value) : Prop where
  samples_field : data.field? "samples" = some (.int samples)
  series_field : data.field? "series" = some (.list series)
  length : (series.length : Int) = samples
  counts : ∃ plotted gaps : Int, data.field? "plotted" = some (.int plotted) ∧ data.field? "gaps" = some (.int gaps) ∧
    plotted + gaps = samples ∧ plotted = series.countP hasY
  segments_field : data.field? "segments" = some (.int (blocks hasY series).card)
  finite : ∀ item ∈ series, hasY item = true → ∃ y, item.field? "y" = some (.float y) ∧ y.isFinite = true

theorem pointValue_y (p : CurvePoint) : (pointValue p).field? "y" = some (.ofFloat? p.y) := rfl

theorem hasY_pointValue : hasY ∘ pointValue = CurvePoint.present := by
  funext p
  unfold hasY CurvePoint.present
  rw [Function.comp_apply, pointValue_y]
  cases p.y <;> rfl

theorem samplePoint_y_finite {s : Settings} {template : List Char} {x y : Float}
    (h : (Curve.samplePoint s template x).y = some y) : y.isFinite = true := by
  unfold Curve.samplePoint at h
  split at h
  · next z _ =>
    dsimp only [Double.finite?] at h
    split at h
    · next hz => rwa [← Option.some.inj h]
    · contradiction
  · contradiction

theorem points_y_finite {curve : Curve} {p : CurvePoint} (hp : p ∈ curve.points) {y : Float} (hy : p.y = some y) :
    y.isFinite = true := by
  obtain ⟨x, -, rfl⟩ := List.mem_map.mp hp
  exact samplePoint_y_finite hy

theorem curveValue_consistent (expression : String) (curve : Curve) :
    Consistent (curveValue expression curve) curve.sampleCount (curve.points.map pointValue) := by
  have hlength := Curve.length_points curve
  refine ⟨?_, rfl, ?_, ⟨_, _, rfl, rfl, ?_, ?_⟩, ?_, ?_⟩
  · rw [← hlength]
    rfl
  · rw [List.length_map, hlength]
  · rw [hlength, add_sub_cancel]
  · rw [List.countP_map, hasY_pointValue, List.countP_eq_length_filter]
  · rw [Curve.blocks_map, hasY_pointValue, ← Curve.countSegments_eq_card]
    rfl
  · intro item hitem hy
    obtain ⟨p, hp, rfl⟩ := List.mem_map.mp hitem
    rw [← Function.comp_apply (f := hasY), hasY_pointValue] at hy
    obtain ⟨y, hy⟩ := Option.isSome_iff_exists.mp hy
    refine ⟨y, ?_, points_y_finite hp hy⟩
    rw [pointValue_y, hy]
    rfl

/--
The loop counts the maximal blocks of present points, with what follows for single lists and for lists that are put
together, and every accepted request for a curve is answered with consistent data of as many samples as it asks for.
-/
theorem segments_and_responses_consistent :
    (∀ points : List CurvePoint,
      countSegments points = (blocks CurvePoint.present points).card ∧
        (countSegments points = 0 ↔ ∀ p ∈ points, p.present = false) ∧
        countSegments points ≤ points.countP CurvePoint.present ∧
        countSegments points ≤ points.countP (fun p => !p.present) + 1 ∧
        countSegments points.reverse = countSegments points ∧
        ∀ rest, countSegments (points ++ rest) =
          countSegments points + countSegments rest - (if joins points rest then 1 else 0)) ∧
      ∀ (c : Configuration) (requestId : String) (r : Request) (data : Json.Value),
        r.method = "POST" → routeOf (pathOf r.target) = some .plot →
          (respond c requestId r).Conveys requestId (.ok data) →
            ∃ body payload series, documentOf c r = .ok body ∧
              (bodyFields "PlotPayload" body).bind PlotPayload.ofFields = .ok payload ∧
              Consistent data payload.samples series := by
  refine ⟨fun points => ⟨Curve.countSegments_eq_card points, Curve.countSegments_eq_zero points,
    Curve.segmentsAfter_le_present false points, Curve.segmentsAfter_le_gaps false points,
    Curve.countSegments_reverse points, fun rest => ?_⟩, fun c requestId r data hmethod hroute hdata => ?_⟩
  · have happend := Curve.countSegments_append points rest
    cases hjoins : joins points rest <;> simp only [hjoins, Bool.toNat_true, Bool.toNat_false] at happend ⊢ <;> simp <;> omega
  · obtain ⟨payload, curve, ⟨-, -, body, hbody, hdraws⟩, rfl⟩ := (conveys_plot_iff hmethod hroute requestId data).mp hdata
    refine ⟨body, payload, curve.points.map pointValue, hbody, hdraws.reads, ?_⟩
    rw [← hdraws.admitted.2]
    exact curveValue_consistent payload.expression curve

/-- The installed service plots three samples of a line. -/
theorem segments_and_responses_consistent_line :
    ∃ c data series, Configuration.start (some installedDocument) none = .ok c ∧
      (respond c "id" ⟨"POST", "/api/scientific_calculator/plot", "application/json",
        some "\x7b\"expression\": \"x\", \"x_min\": 0, \"x_max\": 1, \"samples\": 3\x7d"⟩).Conveys "id" (.ok data) ∧
      Consistent data 3 series := by
  obtain ⟨c, hstart⟩ : ∃ c, Configuration.start (some installedDocument) none = .ok c := ⟨_, rfl⟩
  obtain ⟨curve, hcurve⟩ : ∃ curve, Curve.request ⟨.degrees, 8, true⟩ ['x'] 0 1 3 = .ok curve := ⟨_, rfl⟩
  obtain ⟨r, hr⟩ : ∃ r : Request, ⟨"POST", "/api/scientific_calculator/plot", "application/json",
    some "\x7b\"expression\": \"x\", \"x_min\": 0, \"x_max\": 1, \"samples\": 3\x7d"⟩ = r := ⟨_, rfl⟩
  have hbody : documentOf c r = .ok (.object [("expression", .text "x"), ("x_min", .int 0), ("x_max", .int 1),
      ("samples", .int 3)]) := by
    obtain rfl := Except.ok.inj hstart
    rw [← hr]
    rfl
  have hdraws : Draws c (.object [("expression", .text "x"), ("x_min", .int 0), ("x_max", .int 1), ("samples", .int 3)])
      ⟨"x", none, 0, 1, 3⟩ curve := by
    obtain rfl := Except.ok.inj hstart
    exact ⟨rfl, ⟨1024, rfl, by decide⟩, ⟨5000, rfl, by decide⟩, ⟨⟨.degrees, 8, true⟩, rfl, hcurve⟩⟩
  have hmethod : r.method = "POST" := hr ▸ rfl
  have hroute : routeOf (pathOf r.target) = some .plot := hr ▸ rfl
  have hdata := (conveys_plot_iff hmethod hroute "id" _).mpr ⟨_, _, ⟨hmethod, hroute, _, hbody, hdraws⟩, rfl⟩
  obtain ⟨body', payload, series, hbody', hreads, hconsistent⟩ :=
    segments_and_responses_consistent.2 c "id" r _ hmethod hroute hdata
  obtain rfl := Except.ok.inj (hbody.symm.trans hbody')
  obtain rfl := Except.ok.inj (hdraws.reads.symm.trans hreads)
  rw [hr]
  exact ⟨c, _, series, hstart, hdata, hconsistent⟩

end Service

end Reckoner
