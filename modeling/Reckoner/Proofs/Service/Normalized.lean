import Reckoner.Proofs.Expression.Glyphs
import Reckoner.Proofs.Service.Refusals
import Reckoner.Proofs.Service.Success

/-!
# The normal form in responses

A reply with the value of an expression tells the normal form of the trimmed expression, and an error tells the place of the
failure in the same text.
-/

namespace Reckoner.Service

open Expression (CleanlyNormalized normalize)

set_option autoImplicit false

section
variable {c : Configuration} {fields : Json.Fields} {text : String} {reply : Reply}

/-- An expression is too long, or the answer is that for the expression. -/
theorem withinLength_cases {expression : String} {answer : String → Except Fault Reply}
    (h : withinLength c expression answer = .ok reply) : reply = .error tooLong ∨ answer expression = .ok reply := by
  obtain ⟨limit, -, h⟩ := bind_eq_ok.mp h
  by_cases hlong : limit < expression.length
  · rw [if_pos hlong] at h
    exact Or.inl (Except.ok.inj h).symm
  · rw [if_neg hlong] at h
    exact Or.inr h

theorem EvaluatePayload.expression_eq {payload : EvaluatePayload} (htext : fields.get? "expression" = some (.text text))
    (hreads : EvaluatePayload.ofFields fields = .ok payload) : payload.expression = trimmed text := by
  simp only [EvaluatePayload.ofFields, required_text htext] at hreads
  split at hreads
  · next hexpression _ =>
    obtain rfl := Except.ok.inj hreads
    exact (Except.ok.inj hexpression).symm
  · contradiction

/-- A reply about an expression, with the text in which it has its places. -/
structure Places (reply : Reply) (text : List Char) : Prop where
  data : ∀ data, reply = .ok data → ∃ fields : Json.Fields, data = .object fields ∧
    fields.get? "normalized" = some (.text (String.ofList text))
  error : ∀ e, reply = .error e → e.code ∈ expressionCodes → ∃ s f, e = expressionFailure f ∧ f.Located s text

/-- An error that is not about the expression has no place. -/
theorem Places.of_code {e : ServiceError} (h : e.code ∉ expressionCodes) (places : List Char) : Places (.error e) places where
  data _ hdata := absurd hdata (by simp)
  error e' he hcode := by
    obtain rfl := Except.error.inj he
    exact absurd hcode h

theorem evaluateEndpoint_places (htext : fields.get? "expression" = some (.text text))
    (hreply : evaluateEndpoint c (.object fields) = .ok reply) : Places reply (normalize (Text.trim text.toList)) := by
  rw [evaluateEndpoint, withPayload, bodyFields_object] at hreply
  cases hreads : EvaluatePayload.ofFields fields with
  | error errors =>
    simp only [Except.bind, hreads] at hreply
    obtain rfl := Except.ok.inj hreply
    have hcode : (invalidRequest errors).code = "sci_calc.invalid_request" := rfl
    exact .of_code (by rw [hcode]; decide) _
  | ok payload =>
    simp only [Except.bind, hreads] at hreply
    rw [EvaluatePayload.expression_eq htext hreads] at hreply
    have htrim : Text.trim (trimmed text).toList = Text.trim text.toList := by
      rw [trimmed, String.toList_ofList]
      exact Text.trimBy_trimBy Text.isBlank_of_isWhiteSpace text.toList
    rcases withinLength_cases hreply with rfl | hanswer
    · exact .of_code (by decide) _
    · obtain ⟨s, -, hanswer⟩ := bind_eq_ok.mp hanswer
      cases hvalue : Expression.evaluate s (trimmed text) with
      | error f =>
        rw [hvalue] at hanswer
        obtain rfl := Except.ok.inj hanswer
        have hlocated := Expression.evaluateChars_located hvalue
        rw [htrim] at hlocated
        exact ⟨fun _ hdata => absurd hdata (by simp), fun e he _ => ⟨s, f, (Except.error.inj he).symm, hlocated⟩⟩
      | ok x =>
        rw [hvalue, htrim] at hanswer
        obtain rfl := Except.ok.inj hanswer
        exact ⟨fun data hdata => ⟨_, (Except.ok.inj hdata).symm, rfl⟩, fun _ he => absurd he (by simp)⟩

end

/--
Normalizing is one clean pass over every text, whatever the order of the glyphs, and evaluating does not tell a text from its
normal form with blanks around it. For a request with the text as its expression the endpoint for values tells the normal form
of the trimmed text, and it is the text in which its errors have their places.
-/
theorem normalized_everywhere (text : String) :
    CleanlyNormalized text.toList ∧ ∀ (c : Configuration) (fields : Json.Fields) (reply : Reply),
      fields.get? "expression" = some (.text text) → evaluateEndpoint c (.object fields) = .ok reply →
        Places reply (normalize (Text.trim text.toList)) :=
  ⟨Expression.cleanlyNormalized text.toList, fun _ _ _ htext hreply => evaluateEndpoint_places htext hreply⟩

/-- A product with the glyph for it and blanks around. -/
theorem normalized_everywhere_product :
    ∃ c reply, Configuration.start (some installedDocument) none = .ok c ∧
      Json.Fields.get? [("expression", .text " 2×3 ")] "expression" = some (.text " 2×3 ") ∧
      evaluateEndpoint c (.object [("expression", .text " 2×3 ")]) = .ok reply ∧ Places reply ['2', '*', '3'] := by
  obtain ⟨c, hstart⟩ : ∃ c, Configuration.start (some installedDocument) none = .ok c := ⟨_, rfl⟩
  have htext : Json.Fields.get? [("expression", .text " 2×3 ")] "expression" = some (.text " 2×3 ") := rfl
  obtain ⟨reply, hreply, -⟩ := evaluateEndpoint_settles hstart (.object [("expression", .text " 2×3 ")])
  have hnormal : normalize (Text.trim " 2×3 ".toList) = ['2', '*', '3'] := by decide +kernel
  have hplaces := (normalized_everywhere " 2×3 ").2 c _ reply htext hreply
  rw [hnormal] at hplaces
  exact ⟨c, reply, hstart, htext, hreply, hplaces⟩

end Reckoner.Service
