import Tenancy.Proofs.Contract.Prebuilding
import Tenancy.Proofs.Json.Document
import Tenancy.Proofs.Record.Rewriting
import Tenancy.Proofs.Service.Refinement

/-!
# Dry runs

A body can be checked against the contract of a request without the request being made. The check
foretells what would be answered (`Session.foretold_run`): it is refused as the request would be, or
it tells the document that the request would be read from. Both take the body through one extraction
(`Boundary.extract`); the check finds the contract by resolving its name as an expression, the
request looks it up.
-/

namespace Tenancy

open Json Boundary Outcome

/-- The value under a key. -/
def Json.Value.field? (value : Value) (key : String) : Option Value :=
  match value with
  | .object entries => Entries.find? entries key
  | _ => none

/-- The answer to a check that let a document pass. -/
def validResponse (pruned : Value) : Response :=
  .document 200 (.object [("valid", .bool true), ("pruned", pruned)])

/-- The answer to a check foretells the answer to a request: it is the same refusal, or it tells the
document that the answer comes from. -/
inductive Foretells (comes : Value → Response → Prop) : Response → Response → Prop where
  | refused {response : Response} : response.status ∈ [400, 413, 422] →
      Foretells comes response response
  | valid {pruned : Value} {response : Response} : comes pruned response →
      Foretells comes (validResponse pruned) response

/-- An organization is created as a document says, free of charge if it does not say. -/
structure Created (pruned : Value) (response : Response) : Prop where
  status : response.status = 201
  name : ∃ name, pruned.field? "name" = some name ∧ response.data.field? "name" = some name
  plan : response.data.field? "plan" = some ((pruned.field? "plan").getD (.string "free"))
  settings : ∀ settings, response.data.field? "settings" = some settings ↔
    pruned.field? "settings" = some settings ∧ settings ≠ .object []

/-- Somebody is invited, or is a member already. -/
def Invited (response : Response) : Prop :=
  response.status = 201 ∨ response.status = 409

/-- A member is as a document says, and as before where it does not say. -/
structure Updated (former : Member) (pruned : Value) (response : Response) : Prop where
  status : response.status = 200
  role : response.data.field? "role" =
    (pruned.field? "role").or (some (Record.toValue former.role))
  active : response.data.field? "active" =
    (pruned.field? "active").or (some (.bool former.active))

/-- Whether a request checks its body against the contract of a name. -/
def Request.Checks (request : Request) (name : String) : Prop :=
  request.operation? = some (.checkContract, [("name", name)])

/-- What is answered to requests is foretold by checks of their bodies, and no check changes the
store. -/
structure Foretold (application : Application) (store : Store) : Prop where
  creates : ∀ ids other check request, check.Checks ContractName.createOrganization →
    request.operation? = some (.createOrganization, []) → check.body = request.body →
      Foretells Created (application.serve ids check store).1
        (application.serve other request store).1
  invites : ∀ ids other check request owner organization,
    store.organization? owner = some organization → check.Checks ContractName.inviteMember →
    request.operation? = some (.inviteMember, [("organizationId", owner)]) →
    check.body = request.body →
      Foretells (fun _ => Invited) (application.serve ids check store).1
        (application.serve other request store).1
  updates : ∀ ids other check request owner organization id former,
    store.organization? owner = some organization → store.member? id = some former →
    former.organizationId = owner → check.Checks ContractName.memberPatch →
    request.operation? =
      some (.updateMember, [("organizationId", owner), ("memberId", id)]) →
    check.body = request.body →
      Foretells (Updated former) (application.serve ids check store).1
        (application.serve other request store).1
  idle : ∀ ids check name, check.Checks name → (application.serve ids check store).2 = store

namespace Boundary

theorem canonical_of_parseBody {body : List UInt8} {input : Option Value}
    (parsed : parseBody body = .ok input) : ∀ value ∈ input, value.Canonical := by
  unfold parseBody at parsed
  split at parsed
  · cases parsed
    exact nofun
  · split at parsed
    · next value read =>
        cases parsed
        rintro _ ⟨⟩
        exact canonical_of_readDocument read
    · exact nomatch parsed

/-- What comes of a body where a record is asked for: it is refused, or a document passes and the
record is read from it. -/
inductive Extraction (α : Type) [Record α] (shape : Shape) (body : List UInt8) : Prop where
  | refused {error : ServiceError} : error.status = 400 ∨ error.status = 422 →
      extract shape body = .error error → extractRecord α shape body = .error error →
      Extraction α shape body
  | accepted {input : Option Value} {pruned : Value} {record : α} :
      (∀ value ∈ input, value.Canonical) → shape.prune? input = some pruned →
      Record.read? pruned = some record → extract shape body = .ok pruned →
      extractRecord α shape body = .ok record → Extraction α shape body

theorem extraction {α : Type} [Record α] {shape : Shape}
    (reads : shape.Reads (Record.read? (α := α))) (body : List UInt8) :
    Extraction α shape body := by
  cases extracted : extract shape body with
  | error error =>
      have refused : extractRecord α shape body = .error error := by
        rw [extractRecord, extracted]
        rfl
      exact .refused (status_of_extractRecord_eq_error reads refused) extracted refused
  | ok pruned =>
      obtain ⟨input, parsed, passes⟩ := bind_eq_ok_iff.mp extracted
      have accepted := prune_eq_ok_iff.mp passes
      obtain ⟨record, found⟩ := reads input pruned accepted
      have read : extractRecord α shape body = .ok record := by
        rw [extractRecord, extracted]
        exact toRecord_eq_ok_iff.mpr found
      exact .accepted (canonical_of_parseBody parsed) accepted found extracted read

end Boundary

namespace Application

variable (configuration : Configuration) {name : String} {shape : Shape}

theorem checkContract_of_resolveShape {application : Application}
    (resolved : application.contracts.resolveShape name = .ok shape) (body : List UInt8) :
    application.checkContract name body = (extract shape body).map validResponse := by
  rw [checkContract, resolved]
  cases extracted : extract shape body with
  | error error => exact bind_eq_error_iff.mpr (.inr ⟨shape, rfl, by rw [extracted]; rfl⟩)
  | ok pruned => exact bind_eq_ok_iff.mpr ⟨shape, rfl, by rw [extracted]; rfl⟩

/-- A check by the name of a contract extracts what a request with that contract would. -/
theorem checkContract_standard (listed : (name, shape) ∈ Catalogue.contracts ++ Catalogue.wrapped)
    (isWord : Expression.IsWord name.toList) (body : List UInt8) :
    (standard configuration).checkContract name body = (extract shape body).map validResponse :=
  checkContract_of_resolveShape (Registry.resolveShape_catalogue listed isWord) body

end Application

theorem Json.Value.field?_canonical {entries : Object} (distinct : (Entries.keys entries).Nodup)
    (key : String) :
    (Value.object entries).canonical.field? key = (entries.find? key).map Value.canonical :=
  Value.find?_document distinct key

/-! ### What answers show -/

section Fields

variable (organization : Organization)

theorem field?_organization (key : String) : (Record.toValue organization).field? key =
    (Entries.find? ([("id", .string organization.id), ("name", .string organization.name),
      ("plan", Record.write organization.plan)] ++
      if organization.settings.isEmpty then []
      else [("settings", Record.write organization.settings)]) key).map Value.canonical := by
  apply Value.field?_canonical
  split <;> simp [Entries.keys]

theorem name_organization :
    (Record.toValue organization).field? "name" = some (.string organization.name) :=
  field?_organization organization "name"

theorem plan_organization :
    (Record.toValue organization).field? "plan" = some (Record.write organization.plan) :=
  field?_organization organization "plan"

theorem write_settings_eq_iff {settings : Settings} :
    Record.write settings = .object [] ↔ settings.isEmpty = true := by
  have written : Record.write settings =
      .object (settings.entries.map fun entry => (entry.1, Record.write entry.2)) := rfl
  simp [written, Dictionary.isEmpty]

theorem settings_organization_iff {value : Value} :
    (Record.toValue organization).field? "settings" = some value ↔
      Record.write organization.settings = value ∧ value ≠ .object [] := by
  rw [field?_organization]
  split
  · next isEmpty =>
      have written := write_settings_eq_iff.mpr isEmpty
      exact iff_of_false nofun fun same => same.2 (same.1.symm.trans written)
  · next nonempty =>
      have written := mt write_settings_eq_iff.mp nonempty
      show some (Record.write organization.settings).canonical = some value ↔ _
      rw [Catalogue.canonical_settings, Option.some_inj]
      exact ⟨fun same => ⟨same, same ▸ written⟩, And.left⟩

variable (view : MemberView)

theorem role_memberView :
    (Record.toValue view).field? "role" = some (Record.toValue view.member.role) :=
  Value.field?_canonical view.keys_nodup "role"

theorem active_memberView :
    (Record.toValue view).field? "active" = some (.bool view.member.active) :=
  Value.field?_canonical view.keys_nodup "active"

end Fields

/-- An organization is shown as its creation asked for it. -/
theorem created {input : Option Value} {pruned : Value} {request : CreateOrganization}
    (canonical : ∀ value ∈ input, value.Canonical)
    (accepted : Catalogue.createOrganization.toShape.prune? input = some pruned)
    (read : Record.read? pruned = some request) (id : String) :
    Created pruned (.document 201 (Record.toValue (Envelope.success
      (Organization.mk id request.name request.plan request.settings)))) := by
  obtain ⟨given, rfl, hasName, hasPlan, hasSettings⟩ :=
    Catalogue.write_createOrganization canonical accepted read
  have data := data_success 201 (Organization.mk id request.name request.plan request.settings)
  constructor
  case status => rfl
  case name => exact ⟨_, hasName, data ▸ name_organization _⟩
  case plan => rw [data, plan_organization, ← hasPlan]; rfl
  case settings =>
    intro settings
    rw [data, settings_organization_iff, and_congr_left_iff]
    intro nonempty
    show _ ↔ Entries.find? given "settings" = _
    cases found : Entries.find? given "settings" with
    | none =>
        rw [found, Option.getD_none] at hasSettings
        exact iff_of_false (fun same => nonempty (same.symm.trans hasSettings.symm)) nofun
    | some value =>
        rw [found, Option.getD_some] at hasSettings
        rw [← hasSettings, Option.some_inj]

/-- A member is shown with what the change says. -/
theorem updated {input : Option Value} {pruned : Value} {patch : MemberPatch}
    (canonical : ∀ value ∈ input, value.Canonical)
    (accepted : Catalogue.memberPatch.toShape.prune? input = some pruned)
    (read : Record.read? pruned = some patch) (former : Member)
    (organization : OrganizationSummary) :
    Updated former pruned (.document 200 (Record.toValue (Envelope.success
      (MemberView.mk (Store.patched former patch) organization)))) := by
  obtain ⟨given, rfl, hasRole, hasActive⟩ := Catalogue.write_memberPatch canonical accepted read
  have data := data_success 200 (MemberView.mk (Store.patched former patch) organization)
  have hasRole : (Value.object given).field? "role" = _ := hasRole
  have hasActive : (Value.object given).field? "active" = _ := hasActive
  constructor
  case status => rfl
  case role =>
    rw [data, role_memberView, hasRole]
    cases asked : patch.role with
    | none => simp [Store.patched, asked]
    | some role => simp [Store.patched, asked]; rfl
  case active =>
    rw [data, active_memberView, hasActive]
    cases asked : patch.active with
    | none => simp [Store.patched, asked]
    | some active => simp [Store.patched, asked]

open Application

theorem Foretells.of_error {comes : Value → Response → Prop} {error : ServiceError}
    (fault : error.status = 400 ∨ error.status = 422) :
    Foretells comes (settle (.error error)) (settle (.error error)) := by
  have status : (settle (.error error)).status = error.status := rfl
  refine .refused ?_
  rw [status]
  rcases fault with malformed | rejected
  · simp [malformed]
  · simp [rejected]

namespace Application

variable (configuration : Configuration) (ids : FreshIds) (body : List UInt8) {store : Store}

theorem foretells_createOrganization (store : Store) :
    Foretells Created
      (settle ((standard configuration).checkContract ContractName.createOrganization body))
      (settle ((standard configuration).perform .createOrganization ids [] body store).1) := by
  have listed : (ContractName.createOrganization, Catalogue.createOrganization.toShape) ∈
      Catalogue.contracts ++ Catalogue.wrapped := by simp [Catalogue.contracts]
  rw [checkContract_standard configuration listed (by decide), perform, createOrganization,
    readBody_standard configuration listed]
  cases extraction Catalogue.reads_createOrganization body with
  | refused fault refused unread =>
      rw [refused, unread]
      exact .of_error fault
  | accepted canonical accepted read extracted asked =>
      rw [extracted, asked]
      dsimp only
      rw [answer_organization]
      exact .valid (created canonical accepted read ids.organization)

theorem foretells_inviteMember {owner : String} {organization : Organization}
    (found : store.organization? owner = some organization) :
    Foretells (fun _ => Invited)
      (settle ((standard configuration).checkContract ContractName.inviteMember body))
      (settle ((standard configuration).perform .inviteMember ids [("organizationId", owner)] body
        store).1) := by
  have listed : (ContractName.inviteMember, Catalogue.inviteMember.toShape) ∈
      Catalogue.contracts ++ Catalogue.wrapped := by simp [Catalogue.contracts]
  rw [checkContract_standard configuration listed (by decide), perform, inviteMember,
    readPath_organization, ok_bind, readBody_standard configuration listed]
  cases extraction Catalogue.reads_inviteMember body with
  | refused fault refused unread =>
      rw [refused, unread]
      exact .of_error fault
  | @accepted input pruned request canonical accepted read extracted asked =>
      rw [extracted, asked, ok_bind]
      by_cases taken : store.hasEmail owner request.email
      · have outcome : store.inviteMember owner ids.member request =
            (.error (.duplicateMember request.email), store) := by
          simp [Store.inviteMember, Store.getOrganization, found, taken]
        simp only [pure, Except.pure, outcome]
        exact .valid (.inr rfl)
      · have outcome : store.inviteMember owner ids.member request = (.ok _, _) :=
          Store.inviteMember_eq_ok_iff.mpr
            ⟨organization, found, by simpa using taken, rfl, rfl⟩
        have hasExpiry : (Store.invited owner ids.member request).HasExpiry := by
          obtain ⟨other, same, hasExpiry⟩ := Catalogue.read_inviteMember accepted
          exact Option.some.inj (read.symm.trans same) ▸ hasExpiry
        simp only [pure, Except.pure, outcome]
        rw [answer_member configuration 201 hasExpiry]
        exact .valid (.inl rfl)

theorem foretells_updateMember (expiring : store.Expiring) {owner id : String}
    {organization : Organization} {former : Member}
    (found : store.organization? owner = some organization)
    (held : store.member? id = some former) (own : former.organizationId = owner) :
    Foretells (Updated former)
      (settle ((standard configuration).checkContract ContractName.memberPatch body))
      (settle ((standard configuration).perform .updateMember ids
        [("organizationId", owner), ("memberId", id)] body store).1) := by
  have listed : (ContractName.memberPatch, Catalogue.memberPatch.toShape) ∈
      Catalogue.contracts ++ Catalogue.wrapped := by simp [Catalogue.contracts]
  rw [checkContract_standard configuration listed (by decide), perform, updateMember,
    readPath_member, ok_bind, readBody_standard configuration listed]
  cases extraction Catalogue.reads_memberPatch body with
  | refused fault refused unread =>
      rw [refused, unread]
      exact .of_error fault
  | @accepted input pruned patch canonical accepted read extracted asked =>
      have outcome : store.updateMember owner id patch = (.ok _, _) :=
        Store.updateMember_eq_ok_iff.mpr ⟨organization, former, found, held, own, rfl, rfl⟩
      rw [extracted, asked, ok_bind]
      simp only [pure, Except.pure, outcome]
      rw [answer_member configuration 200 (expiring id former held)]
      exact .valid (updated canonical accepted read former organization.summary)

/-- A check and a request with the same body get past the same limit, and both are shown whole. -/
theorem foretells_serve {application : Application} {comes : Value → Response → Prop}
    {store : Store} {ids other : FreshIds} {check request : Request} {name : String}
    {action : Action} {parameters : Parameters} (checks : check.Checks name)
    (asks : request.operation? = some (action, parameters)) (reads : action.readsBody = true)
    (same : check.body = request.body)
    (foretells : Foretells comes (settle (application.checkContract name request.body))
      (settle (application.perform action other parameters request.body store).1)) :
    Foretells comes (application.serve ids check store).1
      (application.serve other request store).1 := by
  rw [serve_of_operation?_eq_some application ids store checks,
    serve_of_operation?_eq_some application other store asks, same]
  by_cases tooLarge : application.configuration.bodyLimit < request.body.length
  · rw [if_pos ⟨rfl, tooLarge⟩, if_pos ⟨reads, tooLarge⟩,
      Request.shown_of_readsBody checks rfl, Request.shown_of_readsBody asks reads]
    exact .refused (by simp [bodyTooLarge, Response.text])
  · rw [if_neg (fun refused => tooLarge refused.2), if_neg (fun refused => tooLarge refused.2),
      Request.shown_of_readsBody checks rfl, Request.shown_of_readsBody asks reads]
    exact foretells

theorem foretold {store : Store} (expiring : store.Expiring) :
    Foretold (standard configuration) store where
  creates ids other check request checks asks same :=
    foretells_serve checks asks rfl same
      (foretells_createOrganization configuration other request.body store)
  invites ids other check request owner organization found checks asks same :=
    foretells_serve checks asks rfl same
      (foretells_inviteMember configuration other request.body found)
  updates ids other check request owner organization id former found held own checks asks same :=
    foretells_serve checks asks rfl same
      (foretells_updateMember configuration other request.body expiring found held own)
  idle ids check name checks := by
    rw [serve_of_operation?_eq_some _ ids store checks]
    split <;> rfl

end Application

/-- Whatever was requested before, checks foretell what is answered. -/
theorem Session.foretold_run (configuration : Configuration) (arrivals : List Arrival) :
    Foretold (standard configuration) (run (standard configuration) arrivals).store :=
  foretold configuration (expiring_run configuration arrivals)

/-- A check of a change in capitals foretells the role that the change gives. -/
theorem Session.foretold_run_promotion :
    let body := "\x7b\"role\":\"OWNER\"\x7d".toUTF8.toList
    let check : Request := ⟨"POST", "/v1/contracts/member_patch/check", body⟩
    let request : Request := ⟨"PATCH", "/v1/organizations/org_1/members/mem_2", body⟩
    let store := (run (standard .default) promotion).store
    ∃ former, store.member? "mem_2" = some former ∧
      Foretells (Updated former) ((standard .default).serve ⟨"org_5", "mem_5"⟩ check store).1
        ((standard .default).serve ⟨"org_6", "mem_6"⟩ request store).1 ∧
      ((standard .default).serve ⟨"org_5", "mem_5"⟩ check store).1.status = 200 := by
  intro body check request store
  have found : (store.organization? "org_1").isSome = true := by decide +kernel
  have held : (store.member? "mem_2").map Member.organizationId = some "org_1" := by
    decide +kernel
  obtain ⟨organization, found⟩ := Option.isSome_iff_exists.mp found
  obtain ⟨former, held, own⟩ := Option.map_eq_some_iff.mp held
  have checks : check.operation? =
      some (.checkContract, [("name", ContractName.memberPatch)]) := by
    decide +kernel
  have asks : request.operation? =
      some (.updateMember, [("organizationId", "org_1"), ("memberId", "mem_2")]) := by
    decide +kernel
  have foretells := (foretold_run .default promotion).updates ⟨"org_5", "mem_5"⟩
    ⟨"org_6", "mem_6"⟩ check request "org_1" organization "mem_2" former found held own checks
    asks rfl
  exact ⟨former, held, foretells, by decide +kernel⟩

end Tenancy
