import Reckoner.Proofs.Service.Defaults
import Reckoner.Proofs.Service.Plot
import Reckoner.Proofs.Settings

/-!
# Settings of a request

A request is answered under settings in three layers: what it asks for itself, what the configuration says, and what is built
in. The angle unit that a response names is the one under which the expression was evaluated.
-/

namespace Reckoner.Service

open Overrides (layered)

set_option autoImplicit false

/-! ## Three layers -/

def Reading.value? {α : Type} : Reading α → Option α
  | .value a => some a
  | _ => none

def configuredUnit (defaults : Json.Fields) : Option AngleUnit :=
  (defaults.get? "angle_unit").bind fun v => (Reading.unit v).value?

def configuredPrecision (defaults : Json.Fields) : Option Int :=
  (defaults.get? "precision").bind fun v => (Reading.precision v).value?

/-- Whether the defaults ask for separators; a word that is not known means no. -/
def configuredSeparators (defaults : Json.Fields) : Option Bool :=
  (defaults.get? "thousands_sep").map fun v => (Reading.separators v).value?.getD false

/-- Each setting is that of the request, or else that of the configuration, or else the built-in one. -/
structure Effective (defaults : Json.Fields) (o : Overrides) (s : Settings) : Prop where
  angleUnit : s.angleUnit = (o.angleUnit.or (configuredUnit defaults)).getD .degrees
  precision : s.precision = ((o.precision.map (max · 0)).or (configuredPrecision defaults)).getD 8
  thousandsSeparator : s.thousandsSeparator = (o.thousandsSeparator.or (configuredSeparators defaults)).getD true

section
variable {α : Type} {v : Option Json.Value} {f : Json.Value → Reading α}

theorem settleWith_eq_ok {missing malformed a : α} {fault : Fault}
    (h : Reading.settleWith missing malformed fault (v.map f) = .ok a) :
    a = (v.map fun v => (f v).value?.getD malformed).getD missing := by
  cases v with
  | none => exact (Except.ok.inj h).symm
  | some v =>
    rw [Option.map_some] at h
    rw [Option.map_some]
    cases hf : f v with
    | value b =>
      rw [hf] at h
      exact (Except.ok.inj h).symm
    | malformed =>
      rw [hf] at h
      exact (Except.ok.inj h).symm
    | beyond =>
      rw [hf] at h
      contradiction

theorem getD_value? (default : α) :
    (v.map fun v => (f v).value?.getD default).getD default = (v.bind fun v => (f v).value?).getD default := by
  cases v <;> rfl

theorem orElse_eq (default : α) : Reading.orElse default (v.map f) = (v.bind fun v => (f v).value?).getD default := by
  cases v with
  | none => rfl
  | some v =>
    rw [Option.map_some, Option.bind_some]
    cases f v <;> rfl

theorem getD_or (a b : Option α) (default : α) : (a.or b).getD default = a.getD (b.getD default) := by
  cases a <;> rfl

end

theorem Configuration.settings_effective {c : Configuration} {o : Overrides} {s : Settings} (h : c.settings o = .ok s) :
    ∃ defaults, Configuration.sectionFields ((c.plugin.get? "defaults").getD .null) = .ok defaults ∧
      Effective defaults o s := by
  obtain ⟨base, hbase, -⟩ := Configuration.settings_eq_ok.mp h
  obtain ⟨defaults, hdefaults, -⟩ := bind_eq_ok.mp hbase
  rw [(Configuration.reads hdefaults).settings] at h
  obtain ⟨precision, hprecision, h⟩ := bind_eq_ok.mp h
  obtain ⟨separators, hseparators, rfl⟩ := map_eq_ok.mp h
  refine ⟨defaults, hdefaults, ?_, ?_, ?_⟩
  · rw [getD_or, configuredUnit, ← orElse_eq]
    rfl
  · rw [getD_or, configuredPrecision, ← getD_value?, ← settleWith_eq_ok hprecision]
    rfl
  · rw [getD_or, configuredSeparators, ← settleWith_eq_ok hseparators]
    rfl

/-! ## The unit in a response -/

/-- Data that name the unit under which they were computed: they come out of all settings with this unit. -/
structure NamesUnit (data : Json.Value) (unit : AngleUnit) (computes : Settings → Prop) : Prop where
  known : unit.Known
  named : data.field? "angle_unit" = some (.text unit.name)
  computed : ∀ t : Settings, t.angleUnit = unit → computes t

theorem unitField_known {v : Json.Value} {unit : AngleUnit} (h : nullable unitField v = .ok (some unit)) : unit.Known := by
  unfold nullable at h
  split at h
  · exact absurd (Except.ok.inj h) nofun
  · unfold unitField at h
    split at h
    · exact Or.inl (Option.some.inj (Except.ok.inj h)).symm
    · exact Or.inr (Option.some.inj (Except.ok.inj h)).symm
    · contradiction

theorem optional_unit_known {fields : Json.Fields} {unit : AngleUnit}
    (h : optional fields "angle_unit" none (nullable unitField) = .ok (some unit)) : unit.Known := by
  unfold optional at h
  split at h
  · exact absurd (Except.ok.inj h) nofun
  · exact unitField_known (mapError_eq_ok.mp h)

section
variable {c : Configuration} {o : Overrides} {s : Settings} {body : Json.Value} {fields : Json.Fields} {unit : AngleUnit}

theorem Configuration.settings_unit (h : c.settings o = .ok s) (hgiven : ∀ unit, o.angleUnit = some unit → unit.Known) :
    s.angleUnit.Known := by
  obtain ⟨base, hbase, rfl⟩ := Configuration.settings_eq_ok.mp h
  obtain ⟨fields, -, hload⟩ := bind_eq_ok.mp hbase
  rw [Settings.merge]
  cases hunit : o.angleUnit with
  | none => exact (Settings.load_normal hload).angleUnit
  | some unit => exact hgiven unit hunit

theorem EvaluatePayload.unit_known {payload : EvaluatePayload} (h : EvaluatePayload.ofFields fields = .ok payload)
    (hunit : payload.overrides.angleUnit = some unit) : unit.Known := by
  unfold EvaluatePayload.ofFields at h
  dsimp only at h
  split at h
  · next hread _ _ _ _ =>
    obtain rfl := Except.ok.inj h
    exact optional_unit_known (hread.trans (congrArg Except.ok hunit))
  · contradiction

theorem PlotPayload.unit_known {payload : PlotPayload} (h : PlotPayload.ofFields fields = .ok payload)
    (hunit : payload.angleUnit = some unit) : unit.Known := by
  unfold PlotPayload.ofFields at h
  dsimp only at h
  split at h
  · next hread _ _ _ _ =>
    obtain rfl := Except.ok.inj h
    exact optional_unit_known (hread.trans (congrArg Except.ok hunit))
  · contradiction

theorem Evaluates.namesUnit {payload : EvaluatePayload} {x : Float} (h : Evaluates c body payload s x) :
    NamesUnit (evaluateValue s payload.expression x) s.angleUnit fun t => ∃ y,
      Expression.evaluate t payload.expression = .ok y ∧
        (evaluateValue s payload.expression x).field? "result" = some (.finiteOrNull y) := by
  obtain ⟨fields, -, hfields⟩ := bind_eq_ok.mp h.reads
  refine ⟨Configuration.settings_unit h.settings fun _ => EvaluatePayload.unit_known hfields, rfl, fun t ht => ⟨x, ?_, rfl⟩⟩
  have hdegrees : t.usesDegrees = s.usesDegrees := by rw [Settings.usesDegrees, ht, Settings.usesDegrees]
  rw [Expression.evaluate_congr hdegrees, h.value]

theorem Draws.namesUnit {payload : PlotPayload} {curve : Curve} (h : Draws c body payload curve)
    (hs : c.settings { angleUnit := payload.angleUnit } = .ok s) :
    NamesUnit (curveValue payload.expression curve) s.angleUnit fun t => ∃ points,
      Curve.outcome t payload.expression.toList payload.xMin payload.xMax payload.samples = .ok points ∧
        (curveValue payload.expression curve).field? "series" = some (.list (points.map pointValue)) := by
  obtain ⟨fields, -, hfields⟩ := bind_eq_ok.mp h.reads
  obtain ⟨s', hs', hrequest⟩ := h.curve
  obtain rfl := Except.ok.inj (hs'.symm.trans hs)
  have hcurve : curve.settings = s' := by rw [(Curve.request_eq_ok.mp hrequest).2.2]
  refine ⟨Configuration.settings_unit hs fun _ => PlotPayload.unit_known hfields, ?_, fun t ht => ⟨curve.points, ?_, rfl⟩⟩
  · rw [← hcurve]
    rfl
  · have hdegrees : t.usesDegrees = s'.usesDegrees := by rw [Settings.usesDegrees, ht, Settings.usesDegrees]
    rw [Curve.outcome_congr hdegrees, Curve.outcome, hrequest]
    rfl

end

/--
Overrides in turn act like one layered set and change no other setting, loaded settings are in normal form, the settings of a
request come from three layers, and its response names the unit under which the expression was evaluated.
-/
theorem settings_layered :
    (∀ (s t u : Settings) (a b : List (String × Datum)), s.mergeRead a = .ok t → t.mergeRead b = .ok u →
      s.mergeRead (layered a b) = .ok u ∧
        ∀ name ∈ Overrides.fieldNames, given? (layered a b) name = (given? b name).or (given? a name)) ∧
    (∀ (s t : Settings) (fields : List (String × Datum)), s.mergeRead fields = .ok t → s.Keeps t fields) ∧
    (∀ (fields : List (String × Datum)) (s : Settings), Settings.load fields = .ok s → s.Normal) ∧
    (∀ (c : Configuration) (o : Overrides) (s : Settings), c.settings o = .ok s → ∃ defaults,
      Configuration.sectionFields ((c.plugin.get? "defaults").getD .null) = .ok defaults ∧ Effective defaults o s) ∧
    (∀ (c : Configuration) (requestId : String) (r : Request) (data : Json.Value), r.method = "POST" →
      (respond c requestId r).Conveys requestId (.ok data) →
      (routeOf (pathOf r.target) = some .evaluate → ∃ body payload s, documentOf c r = .ok body ∧
        (bodyFields "EvaluatePayload" body).bind EvaluatePayload.ofFields = .ok payload ∧
        c.settings payload.overrides = .ok s ∧
        NamesUnit data s.angleUnit fun t => ∃ x, Expression.evaluate t payload.expression = .ok x ∧
          data.field? "result" = some (.finiteOrNull x)) ∧
      (routeOf (pathOf r.target) = some .plot → ∃ body payload s, documentOf c r = .ok body ∧
        (bodyFields "PlotPayload" body).bind PlotPayload.ofFields = .ok payload ∧
        c.settings { angleUnit := payload.angleUnit } = .ok s ∧
        NamesUnit data s.angleUnit fun t => ∃ points,
          Curve.outcome t payload.expression.toList payload.xMin payload.xMax payload.samples = .ok points ∧
            data.field? "series" = some (.list (points.map pointValue)))) := by
  refine ⟨fun s t u a b ha hb => ⟨Settings.mergeRead_layered ha hb, fun name hname => Overrides.given?_layered hname⟩,
    fun s t fields h => Settings.mergeRead_keeps h, fun fields s h => Settings.load_normal h,
    fun c o s h => Configuration.settings_effective h, fun c requestId r data hmethod hdata =>
      ⟨fun hroute => ?_, fun hroute => ?_⟩⟩
  · obtain ⟨body, hbody, payload, s, x, hevaluates, rfl⟩ := (conveys_evaluate_iff hmethod hroute requestId data).mp hdata
    exact ⟨body, payload, s, hbody, hevaluates.reads, hevaluates.settings, hevaluates.namesUnit⟩
  · obtain ⟨payload, curve, ⟨-, -, body, hbody, hdraws⟩, rfl⟩ := (conveys_plot_iff hmethod hroute requestId data).mp hdata
    obtain ⟨s, hs, -⟩ := hdraws.curve
    exact ⟨body, payload, s, hbody, hdraws.reads, hs, hdraws.namesUnit hs⟩

/-- Two sets of overrides, a fraction in a configuration, and a request for radians. -/
theorem settings_layered_radians :
    ({} : Settings).mergeRead (layered [("precision", .value (.text "7"))] [("angle_unit", .value (.text " RAD "))]) =
        .ok ⟨.radians, 7, true⟩ ∧
      Settings.Normal ⟨.degrees, 3, true⟩ ∧
      ∃ c data, Configuration.start (some installedDocument) none = .ok c ∧
        (respond c "id" ⟨"POST", "/api/scientific_calculator/evaluate", "application/json",
          some "\x7b\"expression\": \"2+3\", \"angle_unit\": \"rad\"\x7d"⟩).Conveys "id" (.ok data) ∧
        data.field? "angle_unit" = some (.text "rad") ∧ data.field? "result" = some (.float 5) := by
  obtain ⟨hmerge, -, hload, -, hrespond⟩ := settings_layered
  refine ⟨(hmerge {} ⟨.degrees, 7, true⟩ ⟨.radians, 7, true⟩ _ _ (by decide +kernel) (by decide +kernel)).1,
    hload [("precision", .value (.float 3.75))] _ (by decide +kernel), ?_⟩
  obtain ⟨c, hstart⟩ : ∃ c, Configuration.start (some installedDocument) none = .ok c := ⟨_, rfl⟩
  obtain ⟨r, hr⟩ : ∃ r : Request, ⟨"POST", "/api/scientific_calculator/evaluate", "application/json",
    some "\x7b\"expression\": \"2+3\", \"angle_unit\": \"rad\"\x7d"⟩ = r := ⟨_, rfl⟩
  have hbody : documentOf c r = .ok (.object [("expression", .text "2+3"), ("angle_unit", .text "rad")]) := by
    obtain rfl := Except.ok.inj hstart
    rw [← hr]
    rfl
  have hmethod : r.method = "POST" := hr ▸ rfl
  have hroute : routeOf (pathOf r.target) = some .evaluate := hr ▸ rfl
  have hevaluates : Evaluates c (.object [("expression", .text "2+3"), ("angle_unit", .text "rad")])
      ⟨⟨some .radians, none, none⟩, "2+3"⟩ ⟨.radians, 8, true⟩ 5 := by
    obtain rfl := Except.ok.inj hstart
    exact ⟨rfl, ⟨1024, rfl, by decide⟩, rfl, by decide +kernel⟩
  have hdata := (conveys_evaluate_iff hmethod hroute "id" _).mpr ⟨_, hbody, _, _, _, hevaluates, rfl⟩
  obtain ⟨body, payload, s, hbody', hreads, hs, hunit⟩ := (hrespond c "id" r _ hmethod hdata).1 hroute
  obtain rfl := Except.ok.inj (hbody.symm.trans hbody')
  obtain rfl := Except.ok.inj (hevaluates.reads.symm.trans hreads)
  obtain rfl := Except.ok.inj (hevaluates.settings.symm.trans hs)
  rw [hr]
  exact ⟨c, _, hstart, hdata, hunit.named, rfl⟩

/-- A precision below zero is not the one that a request gets. -/
theorem settings_not_negative :
    ∃ c payload s, Configuration.start (some installedDocument) none = .ok c ∧
      EvaluatePayload.ofFields [("expression", .text "1"), ("precision", .int (-3))] = .ok payload ∧
      payload.overrides.precision = some (-3) ∧ c.settings payload.overrides = .ok s ∧ s.precision ≠ -3 := by
  obtain ⟨c, hstart⟩ : ∃ c, Configuration.start (some installedDocument) none = .ok c := ⟨_, rfl⟩
  refine ⟨c, ⟨⟨none, some (-3), none⟩, "1"⟩, ⟨.degrees, 0, true⟩, hstart, rfl, rfl, ?_, by decide⟩
  obtain rfl := Except.ok.inj hstart
  rfl

end Reckoner.Service
