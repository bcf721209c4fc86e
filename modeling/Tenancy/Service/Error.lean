import Tenancy.Contract.Registry
import Tenancy.Record.Wrapper
import Tenancy.Service.Message
import Tenancy.Store

/-!
# Errors of the service

What a request can fail with and how the answer says so. Contracts that a client named wrongly are the
client's mistake, contracts that are declared wrongly the service's; what is internal is not told.
-/

namespace Tenancy

open Json

inductive ServiceError where
  | notFound (text : String)
  | validation (rejection : Rejection)
  | badRequest (text : String)
  | conflict (text : String)
  | internal (text : String)
  deriving DecidableEq, Repr

namespace ServiceError

def message : ServiceError → String
  | notFound text => "not found: " ++ text
  | validation rejection => "validation error: " ++ rejection.message
  | badRequest text => "bad request: " ++ text
  | conflict text => "conflict: " ++ text
  | internal text => "internal error: " ++ text

def status : ServiceError → Nat
  | notFound _ => 404
  | validation _ => 422
  | badRequest _ => 400
  | conflict _ => 409
  | internal _ => 500

def code : ServiceError → String
  | notFound _ => "NOT_FOUND"
  | validation _ => "VALIDATION_ERROR"
  | badRequest _ => "BAD_REQUEST"
  | conflict _ => "CONFLICT"
  | internal _ => "INTERNAL_ERROR"

/-- The message that the sender of a request is shown. -/
def publicMessage : ServiceError → String
  | validation rejection => rejection.message
  | internal _ => "An internal error occurred"
  | error => error.message

/-- The lines of a rejection, for the sender of the request. -/
def details : ServiceError → List (String × Value)
  | validation rejection => [("details", .array (rejection.errors.map Record.toValue))]
  | _ => []

def toResponse (error : ServiceError) : Response :=
  .document error.status (.object [("error", .object
    ([("code", .string error.code), ("message", .string error.publicMessage)] ++ error.details))])

def ofStoreError (error : StoreError) : ServiceError :=
  match error with
  | .organizationNotFound _ | .memberNotFound _ => notFound error.message
  | .duplicateMember _ => conflict error.message

def ofContractError (error : ContractError) : ServiceError :=
  match error with
  | .unknownContract _ | .unknownGeneric _ => notFound error.message
  | .malformed _ _ => badRequest error.message
  | .declaration _ => internal error.message

end ServiceError

end Tenancy
