import Reckoner.Proofs.Number.Radix
import Reckoner.Proofs.Service.Success

/-!
# Responses with four bases

A request for the four bases of a number succeeds if it asks for just one number and that number is finite. The data is the
number with the texts of its integer part, each of which reads back as the integer.
-/

namespace Reckoner.Service

open Double (exact towardZero)
open Radix (Bases bases?)

set_option autoImplicit false

/-- The payload asks for one number: the one that it gives itself, or the value of an expression within the limit. -/
structure BasesPayload.AsksFor (payload : BasesPayload) (c : Configuration) (x : Float) : Prop where
  exactly_one : payload.expression.isSome ≠ payload.value.isSome
  length : ∀ expression, payload.expression = some expression →
    ∃ limit, c.maxExpression = .ok limit ∧ (expression.length : Int) ≤ limit
  value : payload.value = some x ∨ ∃ expression s, payload.expression = some expression ∧
    c.settings { angleUnit := payload.angleUnit } = .ok s ∧ Expression.evaluate s expression = .ok x

def basesValue (x : Float) : Json.Value :=
  .object [("value", .float x), ("bases", Report.bases? (bases? x))]

section
variable {c : Configuration} {body data : Json.Value} {x : Float}

theorem basesReply_eq_ok : basesReply x = .ok data ↔ x.isFinite = true ∧ data = basesValue x := by
  unfold basesReply basesValue
  cases hbases : bases? x with
  | none =>
    rw [Radix.bases?_eq_none_iff] at hbases
    simp [hbases]
  | some b =>
    have hx : x.isFinite = true := by
      by_contra hspecial
      rw [Radix.bases?_eq_none_iff.mpr (Bool.not_eq_true _ ▸ hspecial)] at hbases
      contradiction
    simp [hx, eq_comm, Report.bases?]

theorem basesOfValue_eq_ok (value : Except Expression.Failure Float) :
    (match value with
      | .error failure => pure (.error (expressionFailure failure))
      | .ok x => pure (basesReply x) : Except Fault Reply) = .ok (.ok data) ↔
        ∃ x, value = .ok x ∧ x.isFinite = true ∧ data = basesValue x := by
  cases value with
  | error failure => simp [pure, Except.pure]
  | ok x => simp [pure, Except.pure, basesReply_eq_ok]

theorem basesEndpoint_eq_ok : basesEndpoint c body = .ok (.ok data) ↔
    ∃ payload, (bodyFields "BasesPayload" body).bind BasesPayload.ofFields = .ok payload ∧
      ∃ x, payload.AsksFor c x ∧ x.isFinite = true ∧ data = basesValue x := by
  unfold basesEndpoint
  rw [withPayload_eq_ok]
  refine exists_congr fun ⟨expression, value, angleUnit⟩ => and_congr_right fun _ => ?_
  cases expression with
  | none =>
    cases value with
    | none =>
      refine iff_of_false (by simp) ?_
      rintro ⟨x, hasks, -⟩
      exact hasks.exactly_one rfl
    | some y =>
      have hasks : ∀ x, BasesPayload.AsksFor ⟨none, some y, angleUnit⟩ c x ↔ x = y := fun x =>
        ⟨fun h => by simpa [eq_comm] using h.value, fun h => ⟨by simp, by simp, Or.inl (h ▸ rfl)⟩⟩
      simp [hasks, basesReply_eq_ok]
  | some expression =>
    cases value with
    | some y =>
      refine iff_of_false (by simp) ?_
      rintro ⟨x, hasks, -⟩
      exact hasks.exactly_one rfl
    | none =>
      have hasks : ∀ x, BasesPayload.AsksFor ⟨some expression, none, angleUnit⟩ c x ↔
          (∃ limit, c.maxExpression = .ok limit ∧ (expression.length : Int) ≤ limit) ∧
            ∃ s, c.settings { angleUnit } = .ok s ∧ Expression.evaluate s expression = .ok x := fun x =>
        ⟨fun h => ⟨h.length expression rfl, by simpa using h.value⟩,
          fun h => ⟨by simp, by simpa using h.1, Or.inr (by simpa using h.2)⟩⟩
      simp only [withinLength_eq_ok, bind_eq_ok, hasks]
      constructor
      · rintro ⟨hlength, s, hs, hanswer⟩
        obtain ⟨x, hvalue, hx, hdata⟩ := (basesOfValue_eq_ok (Expression.evaluate s expression)).mp hanswer
        exact ⟨x, ⟨hlength, s, hs, hvalue⟩, hx, hdata⟩
      · rintro ⟨x, ⟨hlength, s, hs, hvalue⟩, hx, hdata⟩
        exact ⟨hlength, s, hs, (basesOfValue_eq_ok _).mpr ⟨x, hvalue, hx, hdata⟩⟩

end

theorem conveys_bases_iff {c : Configuration} {r : Request} (hmethod : r.method = "POST")
    (hroute : routeOf (pathOf r.target) = some .bases) (requestId : String) (data : Json.Value) :
    (respond c requestId r).Conveys requestId (.ok data) ↔
      ∃ body payload x, documentOf c r = .ok body ∧
        (bodyFields "BasesPayload" body).bind BasesPayload.ofFields = .ok payload ∧
        payload.AsksFor c x ∧ x.isFinite = true ∧ data = basesValue x := by
  rw [conveys_ok_iff hmethod hroute rfl rfl requestId]
  refine exists_congr fun body => ?_
  rw [basesEndpoint_eq_ok]
  constructor
  · rintro ⟨hbody, payload, hreads, x, hx⟩
    exact ⟨payload, x, hbody, hreads, hx⟩
  · rintro ⟨payload, x, hbody, hreads, hx⟩
    exact ⟨hbody, payload, hreads, x, hx⟩

/--
The four texts of a finite double are plain and read as its integer part, the opposite double has the opposite texts, and
the endpoint answers with the texts of the number that it is asked for exactly if that number is finite.
-/
theorem bases_faithful :
    (∀ x : Float,
      (bases? x = none ↔ x.isNaN = true ∨ x.isInf = true) ∧
      (x.isFinite = true → ∃ b, bases? x = some b ∧ b.Shows (towardZero (exact x)) ∧
        b.dec.length ≤ (if towardZero (exact x) < 0 then 310 else 309) ∧ (|exact x| < 1 → b = ⟨"0", "0", "0", "0"⟩)) ∧
      bases? (-x) = (bases? x).map Bases.opposite) ∧
    ∀ (c : Configuration) (requestId : String) (r : Request) (data : Json.Value), r.method = "POST" →
      routeOf (pathOf r.target) = some .bases →
        ((respond c requestId r).Conveys requestId (.ok data) ↔
          ∃ body payload x, documentOf c r = .ok body ∧
            (bodyFields "BasesPayload" body).bind BasesPayload.ofFields = .ok payload ∧
            payload.AsksFor c x ∧ x.isFinite = true ∧ data = basesValue x) := by
  refine ⟨fun x => ⟨?_, fun hx => ?_, Radix.bases?_neg x⟩, fun c requestId r data hmethod hroute =>
    conveys_bases_iff hmethod hroute requestId data⟩
  · rw [Radix.bases?_eq_none_iff, Double.isFinite_eq_false_iff]
  · refine ⟨_, Radix.bases?_eq hx, Bases.ofInt_shows _, ?_, fun hsmall => ?_⟩
    · simpa [Bases.ofInt] using Radix.length_text_le hx
    · exact Option.some_inj.mp ((Radix.bases?_eq hx).symm.trans (Radix.bases?_of_small hx hsmall))

/-- The installed service shows the integer part of a negative number. -/
theorem bases_faithful_negative :
    ∃ c data, Configuration.start (some installedDocument) none = .ok c ∧
      (respond c "id" ⟨"POST", "/api/scientific_calculator/bases", "application/json",
        some "\x7b\"value\": -255.5\x7d"⟩).Conveys "id" (.ok data) ∧
      data = .object [("value", .float (-255.5)), ("bases", .object [("hex", .text "-FF"), ("dec", .text "-255"),
        ("oct", .text "-377"), ("bin", .text "-11111111")])] := by
  obtain ⟨c, hstart⟩ : ∃ c, Configuration.start (some installedDocument) none = .ok c := ⟨_, rfl⟩
  obtain ⟨r, hr⟩ : ∃ r : Request, ⟨"POST", "/api/scientific_calculator/bases", "application/json",
    some "\x7b\"value\": -255.5\x7d"⟩ = r := ⟨_, rfl⟩
  have hbody : documentOf c r = .ok (.object [("value", .float (-255.5))]) := by
    obtain rfl := Except.ok.inj hstart
    rw [← hr]
    rfl
  have hmethod : r.method = "POST" := hr ▸ rfl
  have hroute : routeOf (pathOf r.target) = some .bases := hr ▸ rfl
  have hasks : BasesPayload.AsksFor ⟨none, some (-255.5), none⟩ c (-255.5) := ⟨nofun, nofun, Or.inl rfl⟩
  have hdata := (bases_faithful.2 c "id" r _ hmethod hroute).mpr ⟨_, _, _, hbody, rfl, hasks, rfl, rfl⟩
  rw [hr]
  exact ⟨c, _, hstart, hdata, rfl⟩

/-- An expression beyond the limit has no bases although its value is finite. -/
theorem bases_faithful_beyond_limit :
    ∃ c body payload s, Configuration.start (some (.object [("plugins", .object [("scientific_calculator",
        .object [("max_expression_length", .int 1)])])])) none = .ok c ∧
      (bodyFields "BasesPayload" body).bind BasesPayload.ofFields = .ok payload ∧
      payload.expression = some "10" ∧ payload.value = none ∧
      c.settings { angleUnit := payload.angleUnit } = .ok s ∧ Expression.evaluate s "10" = .ok 10 ∧
      (10 : Float).isFinite = true ∧
      ¬ ∃ data, (respond c "id" ⟨"POST", "/api/scientific_calculator/bases", "application/json",
        some "\x7b\"expression\": \"10\"\x7d"⟩).Conveys "id" (.ok data) := by
  obtain ⟨c, hstart⟩ : ∃ c, Configuration.start (some (.object [("plugins", .object [("scientific_calculator",
    .object [("max_expression_length", .int 1)])])])) none = .ok c := ⟨_, rfl⟩
  have hc := Except.ok.inj hstart
  refine ⟨c, .object [("expression", .text "10")], ⟨some "10", none, none⟩, ⟨.degrees, 8, true⟩, hstart, rfl, rfl, rfl, ?_,
    by decide +kernel, rfl, ?_⟩
  · rw [← hc]
    rfl
  · rintro ⟨data, hdata⟩
    obtain ⟨body, payload, x, hbody, hreads, hasks, -⟩ := (conveys_bases_iff rfl rfl "id" data).mp hdata
    obtain rfl : .object [("expression", .text "10")] = body := by
      rw [← hc] at hbody
      exact Except.ok.inj hbody
    obtain rfl := Except.ok.inj hreads
    obtain ⟨limit, hlimit, hlength⟩ := hasks.length "10" rfl
    rw [← hc] at hlimit
    obtain rfl := Except.ok.inj hlimit
    exact absurd hlength (by decide)

end Reckoner.Service
