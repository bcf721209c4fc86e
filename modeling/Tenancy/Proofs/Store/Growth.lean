import Mathlib.Data.List.Induction
import Tenancy.Proofs.Store.Operation

/-!
# Growth of the store

What calls in any order make of an empty store. Every record stands under its own id, every member
belongs to a stored organization, and no organization has two members with one address
(`Store.Sound`). As long as no new id was handed out before, a store only grows: organizations stay
as they are, and members keep all but their role and activity (`Store.Extends`).
-/

namespace Tenancy

/-- The same membership, possibly in another role or not active any more. -/
structure Member.Continues (former later : Member) : Prop where
  id : later.id = former.id
  organizationId : later.organizationId = former.organizationId
  email : later.email = former.email
  temporary : later.temporary = former.temporary
  expiresAt : later.expiresAt = former.expiresAt
  invitedBy : later.invitedBy = former.invitedBy

namespace Member.Continues

theorem refl (member : Member) : member.Continues member :=
  ⟨rfl, rfl, rfl, rfl, rfl, rfl⟩

theorem trans {first middle last : Member} (former : first.Continues middle)
    (later : middle.Continues last) : first.Continues last where
  id := later.id.trans former.id
  organizationId := later.organizationId.trans former.organizationId
  email := later.email.trans former.email
  temporary := later.temporary.trans former.temporary
  expiresAt := later.expiresAt.trans former.expiresAt
  invitedBy := later.invitedBy.trans former.invitedBy

theorem patched (member : Member) (patch : MemberPatch) :
    member.Continues (Store.patched member patch) :=
  ⟨rfl, rfl, rfl, rfl, rfl, rfl⟩

end Member.Continues

namespace Store

/-- A call of the store. A creation comes with the id of the new organization. -/
inductive Call where
  | createOrganization (id : String) (request : CreateOrganization)
  | operate (owner : String) (operation : Operation)

/-- The store after a call. -/
def call (store : Store) : Call → Store
  | .createOrganization id request => (store.createOrganization id request).2
  | .operate owner operation => (store.operate owner operation).2

/-- The store after calls in their order, starting from the empty one. -/
def run (calls : List Call) : Store :=
  calls.foldl call empty

theorem run_append_call (earlier : List Call) (last : Call) :
    run (earlier ++ [last]) = (run earlier).call last := by
  rw [run, List.foldl_append, List.foldl_cons, List.foldl_nil, run]

/-- What holds of every store that calls have made. -/
structure Sound (store : Store) : Prop where
  organizations : ∀ id organization, store.organization? id = some organization →
    organization.id = id
  members : ∀ id member, store.member? id = some member → member.id = id
  homes : ∀ id member, store.member? id = some member →
    ∃ organization, store.organization? member.organizationId = some organization
  emails : ∀ id other member neighbour, store.member? id = some member →
    store.member? other = some neighbour → member.organizationId = neighbour.organizationId →
    Text.sameIgnoringCase member.email neighbour.email = true → id = other

/-- Nothing of a store is gone from a later one, and little of it has changed. -/
structure Extends (store later : Store) : Prop where
  organizations : ∀ id organization, store.organization? id = some organization →
    later.organization? id = some organization
  members : ∀ id former, store.member? id = some former →
    ∃ member, later.member? id = some member ∧ former.Continues member

variable {store : Store}

theorem organization?_createOrganization (store : Store) (id : String)
    (request : CreateOrganization) (sought : String) :
    (store.createOrganization id request).2.organization? sought =
      if id = sought then some (store.createOrganization id request).1
      else store.organization? sought :=
  Dictionary.find?_insert _ _ _ _

/-- An organization is the new one, or was there before. -/
theorem eq_or_organization?_of_createOrganization {id sought : String}
    {request : CreateOrganization} {found : Organization}
    (after : (store.createOrganization id request).2.organization? sought = some found) :
    (id = sought ∧ (store.createOrganization id request).1 = found) ∨
      store.organization? sought = some found :=
  Dictionary.eq_or_find?_of_insert after

theorem hasEmail_eq_false_iff {owner email : String} : store.hasEmail owner email = false ↔
    ∀ id member, store.member? id = some member → member.organizationId = owner →
      Text.sameIgnoringCase member.email email = false := by
  simp only [hasEmail, membersOf, List.any_eq_false, List.mem_filter, beq_iff_eq, and_imp,
    Bool.not_eq_true, Dictionary.mem_values_iff, forall_exists_index]
  exact forall_comm

/-! ### Soundness -/

namespace Sound

theorem empty : Store.empty.Sound := by
  refine ⟨?_, ?_, ?_, ?_⟩
  · exact fun _ _ found => nomatch found
  · exact fun _ _ found => nomatch found
  · exact fun _ _ found => nomatch found
  · exact fun _ _ _ _ found => nomatch found

theorem createOrganization (sound : store.Sound) (id : String) (request : CreateOrganization) :
    (store.createOrganization id request).2.Sound where
  organizations sought organization found := by
    obtain ⟨rfl, rfl⟩ | before := eq_or_organization?_of_createOrganization found
    · rfl
    · exact sound.organizations sought organization before
  members := sound.members
  homes sought member found := by
    rw [organization?_createOrganization]
    split
    · exact ⟨_, rfl⟩
    · exact sound.homes sought member found
  emails := sound.emails

/-- An address that was not taken in the organization is taken once afterwards. -/
theorem invite (sound : store.Sound) {owner id : String} {request : InviteMember}
    {organization : Organization} (belongs : store.organization? owner = some organization)
    (free : store.hasEmail owner request.email = false) :
    (store.withMember id (invited owner id request)).Sound := by
  rw [hasEmail_eq_false_iff] at free
  refine ⟨sound.organizations, ?_, ?_, ?_⟩
  · intro sought member found
    obtain ⟨rfl, rfl⟩ | before := eq_or_member?_of_withMember found
    · rfl
    · exact sound.members sought member before
  · intro sought member found
    obtain ⟨-, rfl⟩ | before := eq_or_member?_of_withMember found
    · exact ⟨organization, belongs⟩
    · exact sound.homes sought member before
  · intro sought other member neighbour found beside together same
    obtain ⟨rfl, rfl⟩ | before := eq_or_member?_of_withMember found
    · obtain ⟨rfl, -⟩ | earlier := eq_or_member?_of_withMember beside
      · rfl
      · have differs := free other neighbour earlier together.symm
        rw [Text.sameIgnoringCase_comm] at differs
        exact nomatch differs.symm.trans same
    · obtain ⟨-, rfl⟩ | earlier := eq_or_member?_of_withMember beside
      · exact nomatch (free sought member before together).symm.trans same
      · exact sound.emails sought other member neighbour before earlier together same

/-- A member that continues another one in its place breaks nothing. -/
theorem replace (sound : store.Sound) {id : String} {former later : Member}
    (held : store.member? id = some former) (continues : former.Continues later) :
    (store.withMember id later).Sound := by
  have before {sought : String} {member : Member}
      (found : (store.withMember id later).member? sought = some member) :
      ∃ earlier, store.member? sought = some earlier ∧ earlier.Continues member := by
    obtain ⟨rfl, rfl⟩ | stood := eq_or_member?_of_withMember found
    · exact ⟨former, held, continues⟩
    · exact ⟨member, stood, .refl member⟩
  refine ⟨sound.organizations, ?_, ?_, ?_⟩
  · intro sought member found
    obtain ⟨earlier, stood, continues⟩ := before found
    exact continues.id.trans (sound.members sought earlier stood)
  · intro sought member found
    obtain ⟨earlier, stood, continues⟩ := before found
    rw [continues.organizationId]
    exact sound.homes sought earlier stood
  · intro sought other member neighbour found beside together same
    obtain ⟨earlier, stood, continues⟩ := before found
    obtain ⟨former, stoodBeside, continuesBeside⟩ := before beside
    rw [continues.organizationId, continuesBeside.organizationId] at together
    rw [continues.email, continuesBeside.email] at same
    exact sound.emails sought other earlier former stood stoodBeside together same

theorem step {after : Store} {owner : String} {operation : Operation} (sound : store.Sound)
    (step : Step store owner operation after) : after.Sound := by
  cases step with
  | idle => exact sound
  | invite belongs free => exact sound.invite belongs free
  | update held own => exact sound.replace held (.patched _ _)

theorem call (sound : store.Sound) (call : Call) : (store.call call).Sound := by
  cases call with
  | createOrganization id request => exact sound.createOrganization id request
  | operate owner operation => exact sound.step (step_operate store owner operation)

end Sound

theorem sound_run (calls : List Call) : (run calls).Sound := by
  induction calls using List.reverseRecOn with
  | nil => exact .empty
  | append_singleton earlier last inductionHypothesis =>
      rw [run_append_call]
      exact inductionHypothesis.call last

/-! ### Growth -/

namespace Extends

theorem refl (store : Store) : store.Extends store :=
  ⟨fun _ _ found => found, fun _ member found => ⟨member, found, .refl member⟩⟩

theorem trans {first middle last : Store} (earlier : first.Extends middle)
    (later : middle.Extends last) : first.Extends last where
  organizations id organization found :=
    later.organizations id organization (earlier.organizations id organization found)
  members id former found := by
    obtain ⟨member, found, continues⟩ := earlier.members id former found
    obtain ⟨latest, found, goesOn⟩ := later.members id member found
    exact ⟨latest, found, continues.trans goesOn⟩

theorem createOrganization {id : String} (fresh : store.organization? id = none)
    (request : CreateOrganization) : store.Extends (store.createOrganization id request).2 where
  organizations sought organization found := by
    have different : id ≠ sought := by
      rintro rfl
      exact nomatch fresh.symm.trans found
    rw [organization?_createOrganization, if_neg different]
    exact found
  members sought member found := ⟨member, found, .refl member⟩

theorem withMember {id : String} {member : Member}
    (continues : ∀ former, store.member? id = some former → former.Continues member) :
    store.Extends (store.withMember id member) where
  organizations _ _ found := found
  members sought former found := by
    rw [member?_withMember]
    split
    · next same =>
        subst same
        exact ⟨member, rfl, continues former found⟩
    · exact ⟨former, found, .refl former⟩

end Extends

/-- The id of what a call may create is not in use. -/
def Call.Fresh (store : Store) : Call → Prop
  | .createOrganization id _ => store.organization? id = none
  | .operate _ operation => operation.Fresh store

theorem Step.extends {after : Store} {owner : String} {operation : Operation}
    (step : Step store owner operation after) (fresh : operation.Fresh store) :
    store.Extends after := by
  cases step with
  | idle => exact .refl store
  | invite belongs free =>
      have vacant : store.member? _ = none := fresh
      exact .withMember fun former held => nomatch vacant.symm.trans held
  | @update id patch former held own =>
      refine .withMember fun other found => ?_
      obtain rfl := Option.some.inj (held.symm.trans found)
      exact .patched former patch

theorem extends_call {call : Call} (fresh : call.Fresh store) :
    store.Extends (store.call call) := by
  cases call with
  | createOrganization id request => exact .createOrganization fresh request
  | operate owner operation => exact (step_operate store owner operation).extends fresh

/-! ### Ids that were handed out -/

def Operation.newMember? : Operation → Option String
  | .inviteMember id _ => some id
  | _ => none

namespace Call

def newOrganization? : Call → Option String
  | .createOrganization id _ => some id
  | .operate _ _ => none

def newMember? : Call → Option String
  | .createOrganization _ _ => none
  | .operate _ operation => operation.newMember?

end Call

/-- No id is handed out twice. -/
structure Unrepeated (calls : List Call) : Prop where
  organizations : (calls.filterMap Call.newOrganization?).Nodup
  members : (calls.filterMap Call.newMember?).Nodup

theorem Unrepeated.of_append {earlier later : List Call}
    (unrepeated : Unrepeated (earlier ++ later)) : Unrepeated earlier := by
  obtain ⟨organizations, members⟩ := unrepeated
  rw [List.filterMap_append] at organizations members
  exact ⟨(List.nodup_append.mp organizations).1, (List.nodup_append.mp members).1⟩

/-- Every id of a store was handed out with a call. -/
structure DrawnFrom (store : Store) (calls : List Call) : Prop where
  organizations : ∀ id organization, store.organization? id = some organization →
    id ∈ calls.filterMap Call.newOrganization?
  members : ∀ id member, store.member? id = some member → id ∈ calls.filterMap Call.newMember?

theorem Step.organization? {after : Store} {owner : String} {operation : Operation}
    (step : Step store owner operation after) (id : String) :
    after.organization? id = store.organization? id := by
  cases step with
  | idle => rfl
  | invite belongs free => rfl
  | update held own => rfl

theorem Step.member? {after : Store} {owner id : String} {operation : Operation} {member : Member}
    (step : Step store owner operation after) (found : after.member? id = some member) :
    operation.newMember? = some id ∨ ∃ former, store.member? id = some former := by
  cases step with
  | idle => exact .inr ⟨member, found⟩
  | invite belongs free =>
      obtain ⟨rfl, -⟩ | before := eq_or_member?_of_withMember found
      · exact .inl rfl
      · exact .inr ⟨member, before⟩
  | update held own =>
      obtain ⟨rfl, -⟩ | before := eq_or_member?_of_withMember found
      · exact .inr ⟨_, held⟩
      · exact .inr ⟨member, before⟩

theorem organization?_call {call : Call} {id : String} {organization : Organization}
    (found : (store.call call).organization? id = some organization) :
    call.newOrganization? = some id ∨ store.organization? id = some organization := by
  cases call with
  | createOrganization new request =>
      obtain ⟨rfl, -⟩ | before := eq_or_organization?_of_createOrganization found
      · exact .inl rfl
      · exact .inr before
  | operate owner operation =>
      exact .inr ((step_operate store owner operation).organization? id ▸ found)

theorem member?_call {call : Call} {id : String} {member : Member}
    (found : (store.call call).member? id = some member) :
    call.newMember? = some id ∨ ∃ former, store.member? id = some former := by
  cases call with
  | createOrganization new request => exact .inr ⟨member, found⟩
  | operate owner operation => exact (step_operate store owner operation).member? found

theorem drawnFrom_run (calls : List Call) : (run calls).DrawnFrom calls := by
  induction calls using List.reverseRecOn with
  | nil => exact ⟨fun _ _ found => (nomatch found), fun _ _ found => (nomatch found)⟩
  | append_singleton earlier last inductionHypothesis =>
      rw [run_append_call]
      constructor
      · intro id organization found
        rw [List.filterMap_append, List.mem_append]
        rcases organization?_call found with new | before
        · exact .inr (List.mem_filterMap.mpr ⟨last, List.mem_cons_self, new⟩)
        · exact .inl (inductionHypothesis.organizations id organization before)
      · intro id member found
        rw [List.filterMap_append, List.mem_append]
        rcases member?_call found with new | ⟨former, before⟩
        · exact .inr (List.mem_filterMap.mpr ⟨last, List.mem_cons_self, new⟩)
        · exact .inl (inductionHypothesis.members id former before)

/-- An id that was not handed out before is not in use. -/
theorem Unrepeated.fresh {earlier : List Call} {last : Call}
    (unrepeated : Unrepeated (earlier ++ [last])) : last.Fresh (run earlier) := by
  obtain ⟨organizations, members⟩ := unrepeated
  have drawn := drawnFrom_run earlier
  cases last with
  | createOrganization id request =>
      rw [List.filterMap_append, List.nodup_append] at organizations
      apply Option.eq_none_iff_forall_ne_some.mpr
      intro organization found
      exact organizations.2.2 id (drawn.organizations id organization found) id
        List.mem_cons_self rfl
  | operate owner operation =>
      cases operation with
      | inviteMember id request =>
          rw [List.filterMap_append, List.nodup_append] at members
          apply Option.eq_none_iff_forall_ne_some.mpr
          intro member found
          exact members.2.2 id (drawn.members id member found) id List.mem_cons_self rfl
      | getOrganization | listMembers | updateMember => trivial

theorem extends_run {earlier later : List Call} (unrepeated : Unrepeated (earlier ++ later)) :
    (run earlier).Extends (run (earlier ++ later)) := by
  induction later using List.reverseRecOn with
  | nil =>
      rw [List.append_nil]
      exact .refl _
  | append_singleton middle last inductionHypothesis =>
      rw [← List.append_assoc] at unrepeated ⊢
      rw [run_append_call]
      exact (inductionHypothesis unrepeated.of_append).trans (extends_call unrepeated.fresh)

/-- Whatever calls come in whatever order, the store is sound after them and has only grown since
any point among them, if no id is handed out twice. -/
theorem sound_and_extends_run {earlier later : List Call}
    (unrepeated : Unrepeated (earlier ++ later)) :
    (run (earlier ++ later)).Sound ∧ (run earlier).Extends (run (earlier ++ later)) :=
  ⟨sound_run (earlier ++ later), extends_run unrepeated⟩

/-- An organization with a member. -/
def founding : List Call :=
  [.createOrganization "org_1" ⟨"A", .free, .empty⟩,
    .operate "org_1" (.inviteMember "mem_1" ⟨"a@a", .viewer, false, none, none⟩)]

/-- The member's address is invited in vain, and the member is promoted. -/
def promoting : List Call :=
  [.operate "org_1" (.inviteMember "mem_2" ⟨"A@A", .viewer, false, none, none⟩),
    .operate "org_1" (.updateMember "mem_1" ⟨some .owner, none⟩)]

theorem sound_and_extends_run_promoting :
    Unrepeated (founding ++ promoting) ∧
      ((run (founding ++ promoting)).member? "mem_1").map Member.role = some .owner ∧
      (run (founding ++ promoting)).member? "mem_2" = none ∧
      (run (founding ++ promoting)).Sound ∧
      (run founding).Extends (run (founding ++ promoting)) := by
  have unrepeated : Unrepeated (founding ++ promoting) := ⟨by decide, by decide⟩
  exact ⟨unrepeated, by decide, by decide, sound_and_extends_run unrepeated⟩

end Store

end Tenancy
