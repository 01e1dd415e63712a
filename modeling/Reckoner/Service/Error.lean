import Reckoner.Json.Value
import Reckoner.Service.Status

/-!
# Errors of the service

A `ServiceError` has a class, a message for the caller, a code for programs, a status and details. Every
class has its own code and status, which a single error may replace. `ServiceError.ofTrouble` turns any
trouble into such an error: refusals by the server keep their status, everything else becomes an internal
error that keeps its reason to itself.
-/

namespace Reckoner.Service

set_option autoImplicit false

inductive ErrorClass where
  | general
  | validation
  | notFound
  | payloadTooLarge
  | internal
  deriving DecidableEq, Repr

def ErrorClass.code : ErrorClass → String
  | .general => "error"
  | .validation => "validation_error"
  | .notFound => "not_found"
  | .payloadTooLarge => "payload_too_large"
  | .internal => "internal_error"

def ErrorClass.status : ErrorClass → Int
  | .general => 400
  | .validation => 400
  | .notFound => 404
  | .payloadTooLarge => 413
  | .internal => 500

structure ServiceError where
  errorClass : ErrorClass
  message : String
  code : String
  status : Int
  details : Json.Fields

namespace ServiceError

/-- An error of a class with the class's own code and status. -/
def ofClass (errorClass : ErrorClass) (message : String) : ServiceError :=
  { errorClass, message, code := errorClass.code, status := errorClass.status, details := [] }

/-- A validation error with a code of its own. -/
def invalid (code message : String) (details : Json.Fields) : ServiceError :=
  { ofClass .validation message with code, details }

def fields (e : ServiceError) : Json.Fields :=
  [("code", .text e.code), ("message", .text e.message), ("details", .object e.details)]

end ServiceError

/-- What may go wrong while a request is answered. -/
inductive Trouble where
  | settled (e : ServiceError)
  /-- A refusal by the server with its status code and description. -/
  | refusal (code : Option Int) (description : Option String)
  | unexpected

def Trouble.isSettled : Trouble → Bool
  | .settled _ => true
  | _ => false

/-- The status of a refusal; without a code it is an internal one. -/
def refusalStatus (code : Option Int) : Int :=
  match code with
  | none => 500
  | some code => if code = 0 then 500 else code

/-- The message of a refusal: its description, or else the name of its code. -/
def refusalMessage (code : Option Int) (description : Option String) : String :=
  match description with
  | none => statusName code
  | some text => if text.isEmpty then statusName code else text

def refusalError (code : Option Int) (description : Option String) : ServiceError :=
  let status : Int := refusalStatus code
  let message : String := refusalMessage code description
  if status = 404 then .ofClass .notFound message
  else if status = 413 then .ofClass .payloadTooLarge message
  else
    { ServiceError.ofClass .general message with
      code := "http_" ++ toString status
      status := status }

/-- The error that a trouble amounts to. -/
def ServiceError.ofTrouble (fallbackCode : String) : Trouble → ServiceError
  | .settled e => e
  | .refusal code description => refusalError code description
  | .unexpected =>
    { ServiceError.ofClass .internal "Internal server error" with code := fallbackCode }

end Reckoner.Service
