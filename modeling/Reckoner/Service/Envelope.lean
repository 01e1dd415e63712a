import Reckoner.Service.Error

/-!
# Envelopes

Every answer of the service is an object that says whether the request succeeded and carries the data or
the error. Inside a request the error also names the request.
-/

namespace Reckoner.Service

set_option autoImplicit false

structure Answer where
  status : Int
  body : Json.Value

def Answer.success (status : Int) (data : Json.Value) : Answer :=
  ⟨status, .object [("success", .bool true), ("data", data)]⟩

/-- The fields of an error with the name of the request, if there is one. -/
def withRequest (requestId : Option String) (fields : Json.Fields) : Json.Fields :=
  match requestId with
  | none => fields
  | some id => fields.set "request_id" (.text id)

/-- A status that was asked for; none or zero leaves the default. -/
def chosenStatus (status : Option Int) (default : Int) : Int :=
  match status with
  | none => default
  | some code => if code = 0 then default else code

/-- The envelope of a failure that is described by fields. -/
def Answer.failureOf (requestId : Option String) (status : Option Int) (fields : Json.Fields) :
    Answer :=
  ⟨chosenStatus status 400,
    .object [("success", .bool false), ("error", .object (withRequest requestId fields))]⟩

def Answer.failure (requestId : Option String) (e : ServiceError) : Answer :=
  { Answer.failureOf requestId none e.fields with status := e.status }

end Reckoner.Service
