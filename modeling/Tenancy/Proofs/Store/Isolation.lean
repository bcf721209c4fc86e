import Tenancy.Proofs.Store.Operation

/-!
# Isolation of organizations

The members of all organizations stand under ids in one dictionary, yet an operation on one
organization depends on that organization and its own members only, and changes nothing else
(`Store.isolated_operate`). A member of another organization is to it as one that does not exist.
-/

namespace Tenancy

/-- Dictionaries that agree on the values of one kind list these in the same order. -/
theorem Dictionary.filter_values_congr {α : Type} {left right : Dictionary α} (keeps : α → Bool)
    (same : ∀ key, (left.find? key).filter keeps = (right.find? key).filter keeps) :
    left.values.filter keeps = right.values.filter keeps := by
  have kept : (left.entries.filter fun entry => keeps entry.2) =
      right.entries.filter fun entry => keeps entry.2 := by
    apply (left.ascending.filter _).ext (right.ascending.filter _)
    intro key
    rw [Entries.find?_filter left.ascending.nodup, Entries.find?_filter right.ascending.nodup]
    exact same key
  rw [values, values, List.filter_map, List.filter_map]
  exact congrArg (List.map Prod.snd) kept

namespace Store

/-- The member under an id, if it belongs to an organization. -/
def memberOf? (store : Store) (owner id : String) : Option Member :=
  (store.member? id).filter (·.organizationId == owner)

/-- The member under an id, if it belongs to any other organization. -/
def memberBeside? (store : Store) (owner id : String) : Option Member :=
  (store.member? id).filter (·.organizationId != owner)

/-- Two stores hold the same organization under an id, with the same members. -/
structure AgreeOn (owner : String) (left right : Store) : Prop where
  organization : left.organization? owner = right.organization? owner
  members : ∀ id, left.memberOf? owner id = right.memberOf? owner id

/-- No organization changed, and no member of another organization than one. -/
structure KeepsOthers (owner : String) (store after : Store) : Prop where
  organizations : ∀ id, after.organization? id = store.organization? id
  members : ∀ id, after.memberBeside? owner id = store.memberBeside? owner id

variable {owner : String}

namespace AgreeOn

variable {left right : Store}

theorem getOrganization (agree : AgreeOn owner left right) :
    left.getOrganization owner = right.getOrganization owner := by
  rw [Store.getOrganization, Store.getOrganization, agree.organization]

theorem membersOf (agree : AgreeOn owner left right) :
    left.membersOf owner = right.membersOf owner :=
  Dictionary.filter_values_congr _ agree.members

theorem hasEmail (agree : AgreeOn owner left right) (email : String) :
    left.hasEmail owner email = right.hasEmail owner email := by
  rw [Store.hasEmail, Store.hasEmail, agree.membersOf]

theorem listMembers (agree : AgreeOn owner left right) :
    left.listMembers owner = right.listMembers owner := by
  rw [Store.listMembers, Store.listMembers, agree.getOrganization, agree.membersOf]

theorem withMember (agree : AgreeOn owner left right) (id : String) (member : Member) :
    AgreeOn owner (left.withMember id member) (right.withMember id member) where
  organization := agree.organization
  members sought := by
    rw [memberOf?, memberOf?, member?_withMember, member?_withMember]
    split
    · rfl
    · exact agree.members sought

theorem inviteMember (agree : AgreeOn owner left right) (id : String) (request : InviteMember) :
    (left.inviteMember owner id request).1 = (right.inviteMember owner id request).1 ∧
      AgreeOn owner (left.inviteMember owner id request).2
        (right.inviteMember owner id request).2 := by
  rw [Store.inviteMember, Store.inviteMember, agree.getOrganization, agree.hasEmail]
  cases right.getOrganization owner with
  | error reason => exact ⟨rfl, agree⟩
  | ok organization =>
      cases right.hasEmail owner request.email with
      | true => exact ⟨rfl, agree⟩
      | false => exact ⟨rfl, agree.withMember id _⟩

theorem updateMember (agree : AgreeOn owner left right) (id : String) (patch : MemberPatch) :
    (left.updateMember owner id patch).1 = (right.updateMember owner id patch).1 ∧
      AgreeOn owner (left.updateMember owner id patch).2
        (right.updateMember owner id patch).2 := by
  have sameMember := agree.members id
  rw [memberOf?, memberOf?] at sameMember
  rw [Store.updateMember, Store.updateMember, agree.getOrganization, sameMember]
  cases right.getOrganization owner with
  | error reason => exact ⟨rfl, agree⟩
  | ok organization =>
      cases (right.member? id).filter (·.organizationId == owner) with
      | none => exact ⟨rfl, agree⟩
      | some former => exact ⟨rfl, agree.withMember id _⟩

/-- Stores that agree on an organization answer alike, and agree afterwards. -/
theorem operate (agree : AgreeOn owner left right) (operation : Operation) :
    (left.operate owner operation).1 = (right.operate owner operation).1 ∧
      AgreeOn owner (left.operate owner operation).2 (right.operate owner operation).2 := by
  cases operation with
  | getOrganization => exact ⟨congrArg (Except.map _) agree.getOrganization, agree⟩
  | listMembers => exact ⟨congrArg (Except.map _) agree.listMembers, agree⟩
  | inviteMember id request =>
      obtain ⟨told, left⟩ := agree.inviteMember id request
      exact ⟨congrArg (Except.map _) told, left⟩
  | updateMember id patch =>
      obtain ⟨told, left⟩ := agree.updateMember id patch
      exact ⟨congrArg (Except.map _) told, left⟩

end AgreeOn

namespace KeepsOthers

variable {store : Store}

theorem refl (owner : String) (store : Store) : KeepsOthers owner store store :=
  ⟨fun _ => rfl, fun _ => rfl⟩

/-- A member takes no place of another organization's member. -/
theorem withMember {id : String} {member : Member} (vacant : store.memberBeside? owner id = none)
    (own : member.organizationId = owner) :
    KeepsOthers owner store (store.withMember id member) where
  organizations _ := rfl
  members sought := by
    rw [memberBeside?, member?_withMember]
    split
    · next same =>
        subst same
        simp [own, vacant]
    · rfl

end KeepsOthers

theorem Step.keepsOthers {store after : Store} {operation : Operation}
    (step : Step store owner operation after) (fresh : operation.Fresh store) :
    KeepsOthers owner store after := by
  cases step with
  | idle => exact .refl owner store
  | @invite id request organization belongs free =>
      have vacant : store.member? id = none := fresh
      exact .withMember (by rw [memberBeside?, vacant, Option.filter_none]) rfl
  | @update id patch former held own =>
      exact .withMember (by simp [memberBeside?, held, own]) own

/-- An operation on an organization tells the same on all stores that agree on the organization,
leaves them agreeing on it, and leaves whatever belongs to others. -/
theorem isolated_operate {left right : Store} (agree : AgreeOn owner left right)
    {operation : Operation} (freshLeft : operation.Fresh left)
    (freshRight : operation.Fresh right) :
    (left.operate owner operation).1 = (right.operate owner operation).1 ∧
      AgreeOn owner (left.operate owner operation).2 (right.operate owner operation).2 ∧
      KeepsOthers owner left (left.operate owner operation).2 ∧
      KeepsOthers owner right (right.operate owner operation).2 := by
  obtain ⟨told, agreeAfter⟩ := agree.operate operation
  exact ⟨told, agreeAfter, (step_operate left owner operation).keepsOthers freshLeft,
    (step_operate right owner operation).keepsOthers freshRight⟩

/-- An organization with one member. -/
def alone : Store :=
  (empty.createOrganization "org_1" ⟨"A", .free, .empty⟩).2.withMember "mem_1"
    (invited "org_1" "mem_1" ⟨"a@a", .owner, false, none, none⟩)

/-- The same organization beside another one, which has a member of its own. -/
def accompanied : Store :=
  (alone.createOrganization "org_2" ⟨"B", .team, .empty⟩).2.withMember "mem_2"
    (invited "org_2" "mem_2" ⟨"b@b", .admin, false, none, some "mem_1"⟩)

theorem agreeOn_accompanied : AgreeOn "org_1" alone accompanied where
  organization := by decide
  members id := by
    rw [accompanied, memberOf?, memberOf?, member?_withMember]
    split
    · next same =>
        subst same
        decide
    · rfl

/-- An invitation under the address of the other organization's member, in another case. -/
def newcomer : Operation :=
  .inviteMember "mem_3" ⟨"B@B", .viewer, false, none, none⟩

theorem isolated_operate_newcomer :
    AgreeOn "org_1" alone accompanied ∧ newcomer.Fresh alone ∧ newcomer.Fresh accompanied ∧
      (alone.operate "org_1" newcomer).1.isOk = true ∧
      (alone.operate "org_1" newcomer).1 = (accompanied.operate "org_1" newcomer).1 ∧
      KeepsOthers "org_1" accompanied (accompanied.operate "org_1" newcomer).2 := by
  have freshAlone : newcomer.Fresh alone := show alone.member? "mem_3" = none by decide
  have freshAccompanied : newcomer.Fresh accompanied :=
    show accompanied.member? "mem_3" = none by decide
  obtain ⟨told, -, -, others⟩ :=
    isolated_operate agreeOn_accompanied freshAlone freshAccompanied
  exact ⟨agreeOn_accompanied, freshAlone, freshAccompanied, by decide, told, others⟩

end Store

end Tenancy
