import Tenancy.Proofs.Contract.Lookup
import Tenancy.Proofs.Outcome
import Tenancy.Proofs.Service.Request
import Tenancy.Proofs.Store

/-!
# What handlers do

Over the catalogue every handler finds its contracts, reads what they let pass, and answers with
what they keep. `Effect` lists what can come of an action, and `Application.effect_perform` says
that nothing else can, as long as whoever is a member for a time has a time (`Store.Expiring`).
-/

namespace Tenancy

open Json Boundary Outcome

namespace Boundary

variable {α : Type} [Record α] {shape : Shape} {body : List UInt8}

theorem toRecord_eq_ok_iff {pruned : Value} {record : α} :
    toRecord α pruned = .ok record ↔ Record.read? pruned = some record := by
  unfold toRecord
  cases Record.read? (α := α) pruned <;> simp

theorem prune_eq_ok_iff {input : Option Value} {pruned : Value} :
    prune shape input = .ok pruned ↔ shape.prune? input = some pruned := by
  rw [prune, mapError_eq_ok_iff, Shape.checkAndPrune_eq_ok_iff]

/-- The record of a body is the record of what the shape makes of its document. -/
theorem extractRecord_eq_ok_iff {record : α} : extractRecord α shape body = .ok record ↔
    ∃ input pruned, parseBody body = .ok input ∧ shape.prune? input = some pruned ∧
      Record.read? pruned = some record := by
  simp only [extractRecord, extract, bind_eq_ok_iff, toRecord_eq_ok_iff, prune_eq_ok_iff]
  constructor
  · rintro ⟨pruned, ⟨input, parsed, accepted⟩, found⟩
    exact ⟨input, pruned, parsed, accepted, found⟩
  · rintro ⟨input, pruned, parsed, accepted, found⟩
    exact ⟨pruned, ⟨input, parsed, accepted⟩, found⟩

/-- What is wrong with a body is the fault of its sender. -/
theorem status_of_extract_eq_error {error : ServiceError}
    (refused : extract shape body = .error error) : error.status = 400 ∨ error.status = 422 := by
  rw [extract, bind_eq_error_iff] at refused
  rcases refused with malformed | ⟨input, -, rejected⟩
  · unfold parseBody at malformed
    split at malformed
    · exact nomatch malformed
    · split at malformed
      · exact nomatch malformed
      · cases malformed
        exact .inl rfl
  · obtain ⟨rejection, -, rfl⟩ := mapError_eq_error_iff.mp rejected
    exact .inr rfl

theorem status_of_extractRecord_eq_error (reads : shape.Reads (Record.read? (α := α)))
    {error : ServiceError} (refused : extractRecord α shape body = .error error) :
    error.status = 400 ∨ error.status = 422 := by
  rcases bind_eq_error_iff.mp refused with unfit | ⟨pruned, extracted, unread⟩
  · exact status_of_extract_eq_error unfit
  · obtain ⟨input, -, accepted⟩ := bind_eq_ok_iff.mp extracted
    obtain ⟨record, found⟩ := reads input pruned (prune_eq_ok_iff.mp accepted)
    exact nomatch (toRecord_eq_ok_iff.mpr found).symm.trans unread

theorem respond_eq_ok {record : α} (keeps : shape.Keeps (Record.toValue record)) :
    respond shape record = .ok (Record.toValue record) := by
  rw [respond, respondValue, mapError_eq_ok_iff, Shape.checkAndPrune_eq_ok_iff]
  exact keeps

end Boundary

namespace Application

variable (configuration : Configuration) {name : String} {shape : Shape}

theorem contract_standard (listed : (name, shape) ∈ Catalogue.contracts ++ Catalogue.wrapped) :
    (standard configuration).contract name = .ok shape := by
  rw [contract, standard, Registry.get_catalogue listed]
  rfl

/-- What is kept by the contract of an answer is answered. -/
theorem answer_standard {α : Type} [Record α]
    (listed : (name, shape) ∈ Catalogue.contracts ++ Catalogue.wrapped) (status : Nat) {record : α}
    (keeps : shape.Keeps (Record.toValue record)) :
    (standard configuration).answer status name record =
      .ok (.document status (Record.toValue record)) := by
  rw [answer, contract_standard configuration listed]
  exact bind_eq_ok_iff.mpr ⟨_, rfl, bind_eq_ok_iff.mpr ⟨_, respond_eq_ok keeps, rfl⟩⟩

theorem readPath_organization (id : String) :
    (standard configuration).readPath OrganizationPath ContractName.organizationPath
      [("organizationId", id)] = .ok ⟨id⟩ := by
  have listed : (ContractName.organizationPath, Catalogue.organizationPath.toShape) ∈
      Catalogue.contracts ++ Catalogue.wrapped := by simp [Catalogue.contracts]
  rw [readPath, contract_standard configuration listed]
  rfl

theorem readPath_member (owner id : String) :
    (standard configuration).readPath MemberPath ContractName.memberPath
      [("organizationId", owner), ("memberId", id)] = .ok ⟨owner, id⟩ := by
  have listed : (ContractName.memberPath, Catalogue.memberPath.toShape) ∈
      Catalogue.contracts ++ Catalogue.wrapped := by simp [Catalogue.contracts]
  rw [readPath, contract_standard configuration listed]
  rfl

/-- What can come of an action: the answer, and the store that holds from then on. -/
inductive Effect (ids : FreshIds) (store : Store) :
    Action → Parameters → Answer → Store → Prop where
  /-- The request is at fault. -/
  | refused {action : Action} {parameters : Parameters} {error : ServiceError} :
      error.status ≠ 500 → Effect ids store action parameters (.error error) store
  /-- Something of the store is shown. -/
  | told {action : Action} {parameters : Parameters} {value : Value} :
      action = .listOrganizations ∨ action = .getOrganization ∨ action = .listMembers →
      Effect ids store action parameters (.ok (.document 200 value)) store
  /-- The store is not looked at. -/
  | aside {action : Action} {parameters : Parameters} {answer : Answer} :
      action = .liveness ∨ action = .readiness ∨ action = .listContracts ∨
        action = .checkContract → Effect ids store action parameters answer store
  | created {parameters : Parameters} {request : CreateOrganization} {organization : Organization}
      {after : Store} : store.createOrganization ids.organization request = (organization, after) →
      Effect ids store .createOrganization parameters
        (.ok (.document 201 (Record.toValue (Envelope.success organization)))) after
  | invited {owner : String} {request : InviteMember} {view : MemberView} {after : Store} :
      request.HasExpiry → store.inviteMember owner ids.member request = (.ok view, after) →
      Effect ids store .inviteMember [("organizationId", owner)]
        (.ok (.document 201 (Record.toValue (Envelope.success view)))) after
  | updated {owner id : String} {patch : MemberPatch} {view : MemberView} {after : Store} :
      store.updateMember owner id patch = (.ok view, after) →
      Effect ids store .updateMember [("organizationId", owner), ("memberId", id)]
        (.ok (.document 200 (Record.toValue (Envelope.success view)))) after

theorem answer_organization (status : Nat) (organization : Organization) :
    (standard configuration).answer status ContractName.organizationEnvelope
        (Envelope.success organization) =
      .ok (.document status (Record.toValue (Envelope.success organization))) := by
  have listed : (ContractName.organizationEnvelope,
      (Catalogue.envelope Catalogue.organization.toShape).toShape) ∈
        Catalogue.contracts ++ Catalogue.wrapped := by simp [Catalogue.wrapped]
  apply answer_standard configuration listed
  exact Catalogue.keeps_envelope (Catalogue.keeps_organization organization)

theorem answer_member (status : Nat) {view : MemberView} (hasExpiry : view.member.HasExpiry) :
    (standard configuration).answer status ContractName.memberEnvelope (Envelope.success view) =
      .ok (.document status (Record.toValue (Envelope.success view))) := by
  have listed : (ContractName.memberEnvelope, (Catalogue.envelope Catalogue.memberView).toShape) ∈
      Catalogue.contracts ++ Catalogue.wrapped := by simp [Catalogue.wrapped]
  apply answer_standard configuration listed
  exact Catalogue.keeps_envelope (Catalogue.keeps_memberView view hasExpiry)

theorem listOrganizations_standard (store : Store) :
    (standard configuration).listOrganizations store =
      .ok (.document 200 (Record.toValue (Page.whole store.listOrganizations))) := by
  have listed : (ContractName.organizationPage,
      (Catalogue.page Catalogue.organization.toShape).toShape) ∈
        Catalogue.contracts ++ Catalogue.wrapped := by simp [Catalogue.wrapped]
  apply answer_standard configuration listed
  exact Catalogue.keeps_page fun organization _ => Catalogue.keeps_organization organization

theorem getOrganization_standard (id : String) (store : Store) :
    (standard configuration).getOrganization [("organizationId", id)] store =
      match store.organization? id with
      | some organization => .ok (.document 200 (Record.toValue (Envelope.success organization)))
      | none => .error (.ofStoreError (.organizationNotFound id)) := by
  rw [getOrganization, readPath_organization, ok_bind, Store.getOrganization]
  cases store.organization? id with
  | none => rfl
  | some organization => exact answer_organization configuration 200 organization

theorem listMembers_standard {store : Store} (expiring : store.Expiring) (id : String) :
    (standard configuration).listMembers [("organizationId", id)] store =
      match store.organization? id with
      | some organization => .ok (.document 200 (Record.toValue (Page.whole
          ((store.membersOf id).map fun member => MemberView.mk member organization.summary))))
      | none => .error (.ofStoreError (.organizationNotFound id)) := by
  have listed : (ContractName.memberPage, (Catalogue.page Catalogue.memberView).toShape) ∈
      Catalogue.contracts ++ Catalogue.wrapped := by simp [Catalogue.wrapped]
  rw [listMembers, readPath_organization, ok_bind, Store.listMembers, Store.getOrganization]
  cases store.organization? id with
  | none => rfl
  | some organization =>
      apply answer_standard configuration listed
      apply Catalogue.keeps_page
      intro view member
      obtain ⟨stored, kept, rfl⟩ := List.mem_map.mp member
      have listed : stored ∈ store.members.values := (List.mem_filter.mp kept).1
      obtain ⟨key, found⟩ := Dictionary.mem_values_iff.mp listed
      exact Catalogue.keeps_memberView _ (expiring key stored found)

theorem readBody_standard {α : Type} [Record α]
    (listed : (name, shape) ∈ Catalogue.contracts ++ Catalogue.wrapped) (body : List UInt8) :
    (standard configuration).readBody α name body = extractRecord α shape body := by
  rw [readBody, contract_standard configuration listed, ok_bind]

theorem effect_createOrganization (ids : FreshIds) (parameters : Parameters) (body : List UInt8)
    (store : Store) :
    Effect ids store .createOrganization parameters
      ((standard configuration).createOrganization ids body store).1
      ((standard configuration).createOrganization ids body store).2 := by
  have listed : (ContractName.createOrganization, Catalogue.createOrganization.toShape) ∈
      Catalogue.contracts ++ Catalogue.wrapped := by simp [Catalogue.contracts]
  rw [createOrganization, readBody_standard configuration listed]
  cases read : extractRecord CreateOrganization Catalogue.createOrganization.toShape body with
  | error error =>
      apply Effect.refused
      have status := status_of_extractRecord_eq_error Catalogue.reads_createOrganization read
      omega
  | ok request =>
      dsimp only
      rw [answer_organization]
      exact .created rfl

theorem status_ofStoreError (error : StoreError) :
    (ServiceError.ofStoreError error).status = 404 ∨
      (ServiceError.ofStoreError error).status = 409 := by
  cases error with
  | organizationNotFound id => exact .inl rfl
  | memberNotFound id => exact .inl rfl
  | duplicateMember email => exact .inr rfl

theorem effect_inviteMember (ids : FreshIds) (owner : String) (body : List UInt8) (store : Store) :
    Effect ids store .inviteMember [("organizationId", owner)]
      ((standard configuration).inviteMember ids [("organizationId", owner)] body store).1
      ((standard configuration).inviteMember ids [("organizationId", owner)] body store).2 := by
  have listed : (ContractName.inviteMember, Catalogue.inviteMember.toShape) ∈
      Catalogue.contracts ++ Catalogue.wrapped := by simp [Catalogue.contracts]
  rw [inviteMember, readPath_organization, ok_bind, readBody_standard configuration listed]
  cases read : extractRecord InviteMember Catalogue.inviteMember.toShape body with
  | error error =>
      apply Effect.refused
      have status := status_of_extractRecord_eq_error Catalogue.reads_inviteMember read
      omega
  | ok request =>
      have hasExpiry : request.HasExpiry := by
        obtain ⟨input, pruned, -, accepted, found⟩ := extractRecord_eq_ok_iff.mp read
        obtain ⟨other, same, hasExpiry⟩ := Catalogue.read_inviteMember accepted
        exact Option.some.inj (found.symm.trans same) ▸ hasExpiry
      rw [ok_bind]
      cases outcome : store.inviteMember owner ids.member request with
      | mk result after =>
          cases result with
          | error error =>
              obtain rfl := Store.eq_of_inviteMember_eq_error outcome
              simp only [pure, Except.pure, outcome]
              apply Effect.refused
              have status := status_ofStoreError error
              omega
          | ok view =>
              obtain ⟨organization, -, -, rfl, -⟩ := Store.inviteMember_eq_ok_iff.mp outcome
              simp only [pure, Except.pure, outcome]
              have ofView : (MemberView.mk (Store.invited owner ids.member request)
                organization.summary).member.HasExpiry := hasExpiry
              rw [answer_member configuration 201 ofView]
              exact .invited hasExpiry outcome

theorem effect_updateMember (ids : FreshIds) (owner id : String) (body : List UInt8)
    {store : Store} (expiring : store.Expiring) :
    Effect ids store .updateMember [("organizationId", owner), ("memberId", id)]
      ((standard configuration).updateMember [("organizationId", owner), ("memberId", id)] body
        store).1
      ((standard configuration).updateMember [("organizationId", owner), ("memberId", id)] body
        store).2 := by
  have listed : (ContractName.memberPatch, Catalogue.memberPatch.toShape) ∈
      Catalogue.contracts ++ Catalogue.wrapped := by simp [Catalogue.contracts]
  rw [updateMember, readPath_member, ok_bind, readBody_standard configuration listed]
  cases read : extractRecord MemberPatch Catalogue.memberPatch.toShape body with
  | error error =>
      apply Effect.refused
      have status := status_of_extractRecord_eq_error Catalogue.reads_memberPatch read
      omega
  | ok patch =>
      rw [ok_bind]
      cases outcome : store.updateMember owner id patch with
      | mk result after =>
          cases result with
          | error error =>
              obtain rfl := Store.eq_of_updateMember_eq_error outcome
              simp only [pure, Except.pure, outcome]
              apply Effect.refused
              have status := status_ofStoreError error
              omega
          | ok view =>
              obtain ⟨organization, member, -, held, -, rfl, -⟩ :=
                Store.updateMember_eq_ok_iff.mp outcome
              simp only [pure, Except.pure, outcome]
              rw [answer_member configuration 200 (expiring id member held)]
              exact .updated outcome

/-- Nothing else can come of an action that names its parameters. -/
theorem effect_perform {action : Action} {parameters : Parameters}
    (names : parameters.map Prod.fst = action.parameterNames) (ids : FreshIds)
    (body : List UInt8) {store : Store} (expiring : store.Expiring) :
    Effect ids store action parameters
      ((standard configuration).perform action ids parameters body store).1
      ((standard configuration).perform action ids parameters body store).2 := by
  cases action with
  | liveness | readiness | listContracts | checkContract => exact .aside (by simp)
  | listOrganizations =>
      rw [perform, listOrganizations_standard]
      exact .told (by simp)
  | createOrganization => exact effect_createOrganization configuration ids parameters body store
  | getOrganization =>
      obtain ⟨⟨_, id⟩, rfl, rfl⟩ := List.map_eq_singleton_iff.mp names
      rw [perform, getOrganization_standard]
      cases store.organization? id with
      | none => exact .refused (by simp [ServiceError.ofStoreError, ServiceError.status])
      | some organization => exact .told (by simp)
  | listMembers =>
      obtain ⟨⟨_, id⟩, rfl, rfl⟩ := List.map_eq_singleton_iff.mp names
      rw [perform, listMembers_standard configuration expiring]
      cases store.organization? id with
      | none => exact .refused (by simp [ServiceError.ofStoreError, ServiceError.status])
      | some organization => exact .told (by simp)
  | inviteMember =>
      obtain ⟨⟨_, owner⟩, rfl, rfl⟩ := List.map_eq_singleton_iff.mp names
      exact effect_inviteMember configuration ids owner body store
  | updateMember =>
      obtain ⟨⟨_, owner⟩, rest, rfl, rfl, later⟩ := List.map_eq_cons_iff.mp names
      obtain ⟨⟨_, id⟩, rfl, rfl⟩ := List.map_eq_singleton_iff.mp later
      exact effect_updateMember configuration ids owner id body expiring

theorem Effect.change {ids : FreshIds} {store after : Store} {action : Action}
    {parameters : Parameters} {answer : Answer}
    (effect : Effect ids store action parameters answer after) : store.Change ids after := by
  cases effect with
  | refused fault => exact .none
  | told reads => exact .none
  | aside other => exact .none
  | created made =>
      cases made
      exact .organization _
  | invited hasExpiry made =>
      obtain ⟨organization, -, -, -, rfl⟩ := Store.inviteMember_eq_ok_iff.mp made
      exact .member hasExpiry
  | updated made =>
      obtain ⟨organization, former, -, held, -, -, rfl⟩ := Store.updateMember_eq_ok_iff.mp made
      exact .patch _ held

end Application

end Tenancy
