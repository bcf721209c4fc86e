import Tenancy.Proofs.Service.Session

/-!
# What a history tells

Which exchanges created an organization, invited a member, or said what a member is, read off
requests and answers alone. `Tracks` relates such a history to a store, and every request keeps
them related as long as the ids it is handed are unused (`Tracks.turn`).
-/

namespace Tenancy

open Json Application

/-- What an answer says of the one thing it is about. -/
def Response.data (response : Response) : Value :=
  match response.content with
  | .document (.object entries) => (Entries.find? entries "data").getD .null
  | _ => .null

def Json.Value.id (value : Value) : String :=
  match value with
  | .object entries => ((Entries.find? entries "id").bind Value.text?).getD ""
  | _ => ""

namespace Exchange

def creates (exchange : Exchange) : Bool :=
  match exchange.request.operation? with
  | some (.createOrganization, _) => exchange.response.status == 201
  | _ => false

/-- Whether a member was invited into an organization. -/
def invitesInto (organization : String) (exchange : Exchange) : Bool :=
  exchange.request.operation? == some (.inviteMember, [("organizationId", organization)]) &&
    exchange.response.status == 201

/-- Whether the answer says what a member has become, by its invitation or by a change. -/
def settles (id : String) (exchange : Exchange) : Bool :=
  match exchange.request.operation? with
  | some (.inviteMember, _) =>
      exchange.response.status == 201 && exchange.response.data.id == id
  | some (.updateMember, parameters) =>
      exchange.response.status == 200 && parameter parameters "memberId" == id
  | _ => false

/-- Nothing was made or changed, as far as the exchange tells. -/
structure Idle (exchange : Exchange) : Prop where
  creates : exchange.creates = false
  invites : ∀ organization, exchange.invitesInto organization = false
  settles : ∀ id, exchange.settles id = false

variable {exchange : Exchange}

theorem idle_of_status (notOk : exchange.response.status ≠ 200)
    (notCreated : exchange.response.status ≠ 201) : exchange.Idle := by
  refine ⟨?_, ?_, ?_⟩
  · unfold creates
    split
    · exact beq_false_of_ne notCreated
    · rfl
  · intro organization
    rw [invitesInto, beq_false_of_ne notCreated, Bool.and_false]
  · intro id
    unfold settles
    split
    · rw [beq_false_of_ne notCreated, Bool.false_and]
    · rw [beq_false_of_ne notOk, Bool.false_and]
    · rfl

theorem idle_of_operation?_eq_none (idle : exchange.request.operation? = none) :
    exchange.Idle := by
  refine ⟨?_, ?_, ?_⟩
  · rw [creates, idle]
  · intro organization
    rw [invitesInto, idle]
    rfl
  · intro id
    rw [settles, idle]

theorem idle_of_operation?_eq_some {action : Action} {parameters : Parameters}
    (asks : exchange.request.operation? = some (action, parameters))
    (reads : action ∉ [.createOrganization, .inviteMember, .updateMember]) : exchange.Idle := by
  refine ⟨?_, ?_, ?_⟩
  · rw [creates, asks]
    cases action <;> first | rfl | simp at reads
  · intro organization
    rw [invitesInto, asks]
    cases action <;> first | rfl | simp at reads
  · intro id
    rw [settles, asks]
    cases action <;> first | rfl | simp at reads

end Exchange

namespace History

/-- The organizations as they were created. -/
def created (history : History) : List Value :=
  (history.filter Exchange.creates).map fun exchange => exchange.response.data

/-- The ids of the members invited into an organization. -/
def invited (history : History) (organization : String) : List String :=
  (history.filter (Exchange.invitesInto organization)).map fun exchange => exchange.response.data.id

/-- What was said last of a member. -/
def latest (history : History) (id : String) : Value :=
  match (history.filter (Exchange.settles id)).getLast? with
  | some exchange => exchange.response.data
  | none => .null

variable {history : History} {exchange : Exchange} {organization : String}

theorem created_append_of_creates (creates : exchange.creates = true) :
    created (history ++ [exchange]) = history.created ++ [exchange.response.data] := by
  simp [created, creates]

theorem created_append_of_not_creates (creates : exchange.creates = false) :
    created (history ++ [exchange]) = history.created := by
  simp [created, creates]

theorem invited_append_of_invites (invites : exchange.invitesInto organization = true) :
    invited (history ++ [exchange]) organization =
      history.invited organization ++ [exchange.response.data.id] := by
  simp [invited, invites]

theorem invited_append_of_not_invites (invites : exchange.invitesInto organization = false) :
    invited (history ++ [exchange]) organization = history.invited organization := by
  simp [invited, invites]

theorem latest_append_singleton (id : String) : latest (history ++ [exchange]) id =
    if exchange.settles id then exchange.response.data else history.latest id := by
  by_cases settles : exchange.settles id
  · simp [latest, settles]
  · simp [latest, settles]

end History

/-- How a store follows from a history. -/
structure Tracks (history : History) (store : Store) : Prop where
  organizations : (store.listOrganizations.map Record.toValue).Perm history.created
  ofOrganization : ∀ id organization, store.organization? id = some organization →
    organization.id = id
  members : ∀ owner, ((store.membersOf owner).map Member.id).Perm (history.invited owner)
  ofMember : ∀ id member, store.member? id = some member → member.id = id ∧
    ∃ organization, store.organization? member.organizationId = some organization ∧
      history.latest id = Record.toValue (MemberView.mk member organization.summary)

theorem tracks_nil : Tracks [] .empty := by
  refine ⟨.refl _, ?_, fun _ => .refl _, ?_⟩
  · intro id organization found
    exact nomatch found
  · intro id member found
    exact nomatch found

theorem Store.membersOf_insert (store : Store) (owner id : String) (member : Member) :
    ((store.member? id).toList.filter (·.organizationId == owner) ++
      Store.membersOf { store with members := store.members.insert id member } owner).Perm
        ([member].filter (·.organizationId == owner) ++ store.membersOf owner) := by
  have listed := (store.members.values_insert_perm id member).filter (·.organizationId == owner)
  rw [← List.singleton_append, List.filter_append, List.filter_append] at listed
  exact listed

namespace Tracks

variable {history : History} {exchange : Exchange} {store after : Store}

theorem idle (tracks : Tracks history store) (idle : exchange.Idle) :
    Tracks (history ++ [exchange]) store := by
  obtain ⟨creates, invites, settles⟩ := idle
  refine ⟨?_, tracks.ofOrganization, ?_, ?_⟩
  · rw [History.created_append_of_not_creates creates]
    exact tracks.organizations
  · intro owner
    rw [History.invited_append_of_not_invites (invites owner)]
    exact tracks.members owner
  · intro id member found
    rw [History.latest_append_singleton, settles, if_neg Bool.false_ne_true]
    exact tracks.ofMember id member found

/-- A new organization is one more, and has no members. -/
theorem create (tracks : Tracks history store) {id : String} {request : CreateOrganization}
    {organization : Organization}
    (made : store.createOrganization id request = (organization, after))
    (fresh : store.organization? id = none) (creates : exchange.creates = true)
    (invites : ∀ owner, exchange.invitesInto owner = false)
    (settles : ∀ id, exchange.settles id = false)
    (tells : exchange.response.data = Record.toValue organization) :
    Tracks (history ++ [exchange]) after := by
  cases made
  refine ⟨?_, ?_, ?_, ?_⟩
  · rw [History.created_append_of_creates creates, tells]
    have listed := store.organizations.values_insert_perm id
      ⟨id, request.name, request.plan, request.settings⟩
    rw [show store.organizations.find? id = none from fresh] at listed
    have grown := (listed.map Record.toValue).trans (tracks.organizations.cons _)
    exact grown.trans (List.perm_append_singleton _ _).symm
  · intro other organization found
    rw [Store.organization?, Dictionary.find?_insert] at found
    split at found
    · next same =>
        cases found
        exact same
    · exact tracks.ofOrganization other organization found
  · intro owner
    rw [History.invited_append_of_not_invites (invites owner)]
    exact tracks.members owner
  · intro other member found
    obtain ⟨own, organization, belongs, told⟩ := tracks.ofMember other member found
    rw [History.latest_append_singleton, settles]
    have different : id ≠ member.organizationId := by
      rintro rfl
      cases fresh.symm.trans belongs
    refine ⟨own, organization, ?_, told⟩
    rw [Store.organization?, Dictionary.find?_insert, if_neg different]
    exact belongs

/-- A new member is one more of its organization. -/
theorem invite (tracks : Tracks history store) {owner id : String} {request : InviteMember}
    {view : MemberView} (made : store.inviteMember owner id request = (.ok view, after))
    (fresh : store.member? id = none) (creates : exchange.creates = false)
    (invites : ∀ other, exchange.invitesInto other = (owner == other))
    (settles : ∀ other, exchange.settles other = (id == other))
    (tells : exchange.response.data = Record.toValue view)
    (names : exchange.response.data.id = id) : Tracks (history ++ [exchange]) after := by
  obtain ⟨organization, belongs, -, rfl, rfl⟩ := Store.inviteMember_eq_ok_iff.mp made
  refine ⟨?_, tracks.ofOrganization, ?_, ?_⟩
  · rw [History.created_append_of_not_creates creates]
    exact tracks.organizations
  · intro other
    have listed := (store.membersOf_insert other id (Store.invited owner id request)).map Member.id
    rw [fresh] at listed
    by_cases same : owner = other
    · subst same
      have grown : ((Store.membersOf { store with
          members := store.members.insert id (Store.invited owner id request) } owner).map
            Member.id).Perm (id :: (store.membersOf owner).map Member.id) := by
        simpa [Store.invited] using listed
      rw [History.invited_append_of_invites ((invites owner).trans (beq_self_eq_true owner)), names]
      exact (grown.trans ((tracks.members owner).cons id)).trans
        (List.perm_append_singleton _ _).symm
    · have kept : ((Store.membersOf { store with
          members := store.members.insert id (Store.invited owner id request) } other).map
            Member.id).Perm ((store.membersOf other).map Member.id) := by
        simpa [Store.invited, same] using listed
      rw [History.invited_append_of_not_invites ((invites other).trans (beq_false_of_ne same))]
      exact kept.trans (tracks.members other)
  · intro other member found
    rw [Store.member?, Dictionary.find?_insert] at found
    rw [History.latest_append_singleton, settles]
    by_cases same : id = other
    · subst same
      rw [if_pos rfl] at found
      cases found
      exact ⟨rfl, organization, belongs, by simpa using tells⟩
    · rw [if_neg same] at found
      obtain ⟨own, home, belongs, told⟩ := tracks.ofMember other member found
      exact ⟨own, home, belongs, by simpa [same] using told⟩

/-- A changed member stays where it was. -/
theorem update (tracks : Tracks history store) {owner id : String} {patch : MemberPatch}
    {view : MemberView} (made : store.updateMember owner id patch = (.ok view, after))
    (creates : exchange.creates = false) (invites : ∀ other, exchange.invitesInto other = false)
    (settles : ∀ other, exchange.settles other = (id == other))
    (tells : exchange.response.data = Record.toValue view) :
    Tracks (history ++ [exchange]) after := by
  obtain ⟨organization, former, belongs, held, isOwn, rfl, rfl⟩ :=
    Store.updateMember_eq_ok_iff.mp made
  refine ⟨?_, tracks.ofOrganization, ?_, ?_⟩
  · rw [History.created_append_of_not_creates creates]
    exact tracks.organizations
  · intro other
    have listed := (store.membersOf_insert other id (Store.patched former patch)).map Member.id
    rw [held] at listed
    rw [History.invited_append_of_not_invites (invites other)]
    refine List.Perm.trans ?_ (tracks.members other)
    by_cases same : owner = other
    · simpa [Store.patched, isOwn, same] using listed
    · simpa [Store.patched, isOwn, same] using listed
  · intro other member found
    rw [Store.member?, Dictionary.find?_insert] at found
    rw [History.latest_append_singleton, settles]
    by_cases same : id = other
    · subst same
      rw [if_pos rfl] at found
      cases found
      obtain ⟨own, home, atHome, -⟩ := tracks.ofMember id former held
      exact ⟨own, organization, isOwn ▸ belongs, by simpa using tells⟩
    · rw [if_neg same] at found
      obtain ⟨own, home, atHome, told⟩ := tracks.ofMember other member found
      exact ⟨own, home, atHome, by simpa [same] using told⟩

end Tracks

end Tenancy
