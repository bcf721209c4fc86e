import Tenancy.Json.Printer

/-!
# Messages

Requests to the service and its answers. An answer holds a text, a document, or nothing; the answer to
a request for the head alone keeps only what kind of content there would be.
-/

namespace Tenancy

open Json

/-- A request: the method, the target with its query, absolute or not, and the bytes of the body. -/
structure Request where
  method : String
  target : String
  body : List UInt8
  deriving DecidableEq

inductive MediaType where
  | text
  | json
  deriving DecidableEq, Repr

def MediaType.name : MediaType → String
  | .text => "text/plain; charset=utf-8"
  | .json => "application/json"

inductive Content where
  | nothing
  | text (text : String)
  /-- A document, written in the order listed. -/
  | document (value : Value)
  /-- The content of an answer whose head alone was asked for. -/
  | withheld (mediaType : MediaType)

namespace Content

def mediaType? : Content → Option MediaType
  | nothing => none
  | text _ => some .text
  | document _ => some .json
  | withheld mediaType => some mediaType

def body : Content → String
  | nothing | withheld _ => ""
  | text sent => sent
  | document value => value.compact

/-- The content without its text. -/
def withhold (content : Content) : Content :=
  match content.mediaType? with
  | some mediaType => withheld mediaType
  | none => nothing

end Content

structure Response where
  status : Nat
  content : Content
  allow : List String

namespace Response

def text (status : Nat) (text : String) : Response := ⟨status, .text text, []⟩

def document (status : Nat) (value : Value) : Response := ⟨status, .document value, []⟩

def notFound : Response := ⟨404, .nothing, []⟩

/-- The path takes other methods. -/
def methodNotAllowed (allow : List String) : Response := ⟨405, .nothing, allow⟩

/-- The answer to a request for the head alone. -/
def head (response : Response) : Response :=
  { response with content := response.content.withhold }

def isSuccess (response : Response) : Bool :=
  200 ≤ response.status && response.status < 300

end Response

end Tenancy
