import Tenancy.CommandLine
import Tenancy.Proofs.Json.Blank
import Tenancy.Proofs.Record.RoundTrip
import Tenancy.Proofs.Service.DryRun

/-!
# The command line and the service agree

A text is checked on the command line as the service checks it (`CommandLine.agrees_checkResponse`):
what passes is the same document, what is rejected is rejected for the same reasons, and where the
one fails the other answers with an error. They differ on blank texts whose white space is not all
ASCII: there the command line takes no document to be given, the service a malformed one.
-/

namespace Tenancy

open Json Boundary Application CommandLine Outcome

/-! ### Blank texts -/

def isAsciiBlank (c : Char) : Bool :=
  c == ' ' || c == '\t' || c == '\n' || c == '\x0c' || c == '\r'

/-- A text of white space that is not all ASCII. -/
def BlankBeyondAscii (text : String) : Prop :=
  Text.isBlank text = true ∧ text.toList.all isAsciiBlank = false

instance (text : String) : Decidable (BlankBeyondAscii text) :=
  inferInstanceAs (Decidable (_ ∧ _))

theorem isWhiteSpace_of_isAsciiBlank {c : Char} (blank : isAsciiBlank c = true) :
    Text.isWhiteSpace c = true := by
  simp only [isAsciiBlank, Bool.or_eq_true, beq_iff_eq] at blank
  rcases blank with (((rfl | rfl) | rfl) | rfl) | rfl <;> decide

theorem isAsciiSpace_eq_false {byte : UInt8} (wide : 0x80 ≤ byte.toNat) :
    isAsciiSpace byte = false := by
  have different (letter : UInt8) (narrow : letter.toNat < 0x80) : byte ≠ letter := by
    rintro rfl
    omega
  simp [isAsciiSpace, different]

theorem all_isAsciiSpace_utf8EncodeChar (c : Char) :
    (String.utf8EncodeChar c).all isAsciiSpace = isAsciiBlank c := by
  by_cases ascii : c.toNat < 0x80
  · have each : ∀ code < 0x80,
        [UInt8.ofNat code].all isAsciiSpace = isAsciiBlank (Char.ofNat code) := by
      decide
    rw [Text.utf8EncodeChar_of_ascii ascii, each _ ascii, Char.ofNat_toNat]
  · have wide := Nat.le_of_not_lt ascii
    obtain ⟨byte, rest, bytes⟩ := List.exists_cons_of_ne_nil String.utf8EncodeChar_ne_nil
    have above := Text.le_of_mem_utf8EncodeChar wide (bytes ▸ List.mem_cons_self)
    have different (letter : Char) (narrow : letter.toNat < 0x80) : c ≠ letter := by
      rintro rfl
      exact ascii narrow
    rw [bytes, List.all_cons, isAsciiSpace_eq_false above]
    simp [isAsciiBlank, different]

theorem all_isAsciiSpace_utf8Bytes (text : String) :
    (Text.utf8Bytes text).all isAsciiSpace = text.toList.all isAsciiBlank := by
  rw [Text.utf8Bytes_eq_flatMap, List.all_flatMap]
  exact congrArg text.toList.all (funext all_isAsciiSpace_utf8EncodeChar)

theorem isBlank_of_all_isAsciiBlank {text : String} (blank : text.toList.all isAsciiBlank = true) :
    Text.isBlank text = true :=
  List.all_eq_true.mpr fun c listed =>
    isWhiteSpace_of_isAsciiBlank (List.all_eq_true.mp blank c listed)

/-- Any other text is blank exactly if its bytes are ASCII white space. -/
theorem isBlank_eq_all_isAsciiBlank {text : String} (usual : ¬BlankBeyondAscii text) :
    Text.isBlank text = text.toList.all isAsciiBlank := by
  cases ascii : text.toList.all isAsciiBlank with
  | true => exact isBlank_of_all_isAsciiBlank ascii
  | false => exact Bool.eq_false_iff.mpr fun blank => usual ⟨blank, ascii⟩

/-! ### Answers -/

/-- The value of a field of the document that an answer holds. -/
def Response.field? (response : Response) (key : String) : Option Value :=
  match response.content with
  | .document value => value.field? key
  | _ => none

/-- What an answer tells of an error. -/
def Response.errorField? (response : Response) (key : String) : Option Value :=
  (response.field? "error").bind (·.field? key)

theorem Record.restored_propertyError (error : PropertyError) : Restored error := rfl

theorem Record.toValue_propertyError_injective :
    Function.Injective (toValue (α := PropertyError)) := by
  intro left right same
  have read := congrArg (read? (α := PropertyError)) same
  rw [restored_propertyError left, restored_propertyError right] at read
  exact Option.some.inj read

namespace CommandLine

/-- An outcome on the command line and an answer of the service say the same of a document. -/
structure Agrees (outcome : Except Failure (Except Rejection Value)) (response : Response) :
    Prop where
  valid : ∀ value, outcome = .ok (.ok value) ↔
    response.status = 200 ∧ response.field? "pruned" = some value
  invalid : ∀ rejection, outcome = .ok (.error rejection) ↔ response.status = 422 ∧
    response.errorField? "message" = some (.string rejection.message) ∧
    response.errorField? "details" = some (.array (rejection.errors.map Record.toValue))
  failed : (∃ failure, outcome = .error failure) ↔ response.status ∈ [400, 404, 500]

theorem agrees_valid (value : Value) : Agrees (.ok (.ok value)) (validResponse value) := by
  have pruned : (validResponse value).field? "pruned" = some value := rfl
  have status : (validResponse value).status = 200 := rfl
  refine ⟨?_, ?_, ?_⟩ <;> simp [pruned, status]

theorem agrees_invalid (rejection : Rejection) :
    Agrees (.ok (.error rejection)) (ServiceError.validation rejection).toResponse := by
  have status : (ServiceError.validation rejection).toResponse.status = 422 := rfl
  have message : (ServiceError.validation rejection).toResponse.errorField? "message" =
    some (.string rejection.message) := rfl
  have details : (ServiceError.validation rejection).toResponse.errorField? "details" =
    some (.array (rejection.errors.map Record.toValue)) := rfl
  refine ⟨?_, ?_, ?_⟩
  · simp [status]
  · intro other
    have errors := List.map_injective_iff.mpr Record.toValue_propertyError_injective
    cases rejection
    cases other
    simp [status, message, details, errors.eq_iff, and_comm]
  · simp [status]

theorem agrees_failed (failure : Failure) {error : ServiceError}
    (status : error.status ∈ [400, 404, 500]) : Agrees (.error failure) error.toResponse := by
  have answered : error.toResponse.status = error.status := rfl
  simp only [List.mem_cons, List.not_mem_nil, or_false] at status
  refine ⟨?_, ?_, ?_⟩
  · simp [answered]
    omega
  · simp [answered]
    omega
  · simp [answered]
    omega

/-- Both check a document, or its absence, against the same shape. -/
theorem agrees_checkAndPrune (shape : Shape) (input : Option Value) :
    Agrees (.ok (shape.checkAndPrune input)) (settle ((prune shape input).map validResponse)) := by
  rw [prune]
  cases shape.checkAndPrune input with
  | ok value => exact agrees_valid value
  | error rejection => exact agrees_invalid rejection

theorem status_ofContractError (error : ContractError) :
    (ServiceError.ofContractError error).status ∈ [400, 404, 500] := by
  cases error <;> simp [ServiceError.ofContractError, ServiceError.status]

variable (application : Application) {expression text : String} {shape : Shape}

theorem checkSource_of_resolveShape (registry : Registry)
    (resolved : registry.resolveShape expression = .ok shape) :
    checkSource registry expression text = (parseSource text).map shape.checkAndPrune := by
  rw [checkSource, resolved]
  cases parseSource text <;> rfl

/-- What the service answers to a check of a text. -/
def checkResponse (application : Application) (expression text : String) : Response :=
  settle (application.checkContract expression (Text.utf8Bytes text))

theorem serve_eq_checkResponse {ids : FreshIds} {request : Request} {store : Store}
    (checks : request.Checks expression) (body : request.body = Text.utf8Bytes text)
    (within : request.body.length ≤ application.configuration.bodyLimit) :
    application.serve ids request store = (checkResponse application expression text, store) := by
  rw [serve_of_operation?_eq_some application ids store checks,
    if_neg (fun tooLarge => Nat.not_lt_of_le within tooLarge.2),
    Request.shown_of_readsBody checks rfl, body]
  rfl

theorem agrees_checkResponse (usual : ¬BlankBeyondAscii text) :
    Agrees (checkSource application.contracts expression text)
      (checkResponse application expression text) := by
  rw [checkResponse]
  cases resolved : application.contracts.resolveShape expression with
  | error error =>
      rw [checkSource, checkContract, resolved]
      exact agrees_failed _ (status_ofContractError error)
  | ok shape =>
      rw [checkSource_of_resolveShape _ resolved, checkContract_of_resolveShape resolved, extract,
        parseSource, parseBody, all_isAsciiSpace_utf8Bytes, isBlank_eq_all_isAsciiBlank usual,
        parse]
      split
      · exact agrees_checkAndPrune shape none
      · cases readDocument (Text.utf8Bytes text) with
        | ok value => exact agrees_checkAndPrune shape (some value)
        | error error => exact agrees_failed _ (by simp [ServiceError.status])

/-- Where only white space is given that is not all ASCII, the command line takes it for nothing,
the service for a malformed document. -/
theorem disagrees_of_blankBeyondAscii (beyond : BlankBeyondAscii text)
    (resolved : application.contracts.resolveShape expression = .ok shape) :
    checkSource application.contracts expression text = .ok (shape.checkAndPrune none) ∧
      (checkResponse application expression text).status = 400 := by
  obtain ⟨blank, given⟩ := beyond
  obtain ⟨error, unread⟩ := readDocument_of_isBlank blank
  constructor
  · rw [checkSource_of_resolveShape _ resolved, parseSource, if_pos blank]
    rfl
  · rw [checkResponse, checkContract_of_resolveShape resolved, extract, parseBody,
      all_isAsciiSpace_utf8Bytes, given, unread]
    rfl

/-- For every registry, expression and text: a request to check the text is served what the check
answers, which agrees with the command line, unless the text is blank beyond ASCII. -/
theorem agrees_unless_blankBeyondAscii (application : Application) (expression text : String) :
    (∀ ids request store, request.Checks expression → request.body = Text.utf8Bytes text →
      request.body.length ≤ application.configuration.bodyLimit →
        application.serve ids request store =
          (checkResponse application expression text, store)) ∧
    (¬BlankBeyondAscii text → Agrees (checkSource application.contracts expression text)
      (checkResponse application expression text)) ∧
    (BlankBeyondAscii text → ∀ shape, application.contracts.resolveShape expression = .ok shape →
      checkSource application.contracts expression text = .ok (shape.checkAndPrune none) ∧
        (checkResponse application expression text).status = 400) :=
  ⟨fun _ _ _ checks body within => serve_eq_checkResponse application checks body within,
    agrees_checkResponse application,
    fun beyond _ resolved => disagrees_of_blankBeyondAscii application beyond resolved⟩

/-- A page without items, and a request to check it. -/
def emptyPage : String := "\x7b\"items\":[],\"total\":0\x7d"

def emptyPageCheck : Request :=
  ⟨"POST", "/v1/contracts/page%3Corganization%3E/check", Text.utf8Bytes emptyPage⟩

theorem agrees_unless_blankBeyondAscii_page :
    ((standard .default).serve ⟨"org_1", "mem_1"⟩ emptyPageCheck .empty =
      (checkResponse (standard .default) "page<organization>" emptyPage, .empty)) ∧
    Agrees (checkSource .catalogue "page<organization>" emptyPage)
      (checkResponse (standard .default) "page<organization>" emptyPage) ∧
    (checkResponse (standard .default) "organization" "\u00a0").status = 400 := by
  have checks : emptyPageCheck.operation? =
      some (.checkContract, [("name", "page<organization>")]) := by
    decide +kernel
  have length : emptyPageCheck.body.length = 22 := by decide +kernel
  have within : emptyPageCheck.body.length ≤ Configuration.default.bodyLimit := by
    rw [length]
    show 22 ≤ 2 * 1024 * 1024
    omega
  have usual : ¬BlankBeyondAscii emptyPage := by decide +kernel
  have beyond : BlankBeyondAscii "\u00a0" := by decide +kernel
  have listed : (ContractName.organization, Catalogue.organization.toShape) ∈
      Catalogue.contracts ++ Catalogue.wrapped := by simp [Catalogue.contracts]
  have resolved := Registry.resolveShape_catalogue listed (by decide)
  obtain ⟨served, agrees, -⟩ :=
    agrees_unless_blankBeyondAscii (standard .default) "page<organization>" emptyPage
  obtain ⟨-, -, disagrees⟩ :=
    agrees_unless_blankBeyondAscii (standard .default) "organization" "\u00a0"
  exact ⟨served _ _ _ checks rfl within, agrees usual, (disagrees beyond _ resolved).2⟩

end CommandLine

end Tenancy
