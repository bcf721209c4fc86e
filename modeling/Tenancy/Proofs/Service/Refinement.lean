import Tenancy.Proofs.Service.History

/-!
# Reads follow the history

Whoever only saw the requests and the answers knows what the service shows: every organization as
it was created, and every member as it was last answered (`Session.reflects_run`). Unused ids are
all that this takes of the environment.
-/

namespace Tenancy

open Json Application

theorem data_success {α : Type} [Record α] (status : Nat) (told : α) :
    (Response.document status (Record.toValue (Envelope.success told))).data =
      Record.toValue told := by
  rw [Catalogue.toValue_envelope]
  rfl

theorem id_canonical {entries : Object} (distinct : (Entries.keys entries).Nodup) {text : String}
    (listed : entries.find? "id" = some (.string text)) :
    (Value.object entries).canonical.id = text := by
  have found : (Value.document entries).find? "id" = some (.string text) := by
    rw [Value.find?_document distinct, listed]
    rfl
  show ((Entries.find? (Value.document entries) "id").bind Value.text?).getD "" = text
  rw [found]
  rfl

theorem id_toValue_organization (organization : Organization) :
    (Record.toValue organization).id = organization.id := by
  apply id_canonical
  · split <;> simp [Entries.keys]
  · rfl

theorem id_toValue_memberView (view : MemberView) :
    (Record.toValue view).id = view.member.id := by
  apply id_canonical view.keys_nodup
  rfl

theorem ServiceError.four_hundred_le_status (error : ServiceError) : 400 ≤ error.status := by
  cases error <;> simp [status]

/-- Every request keeps a history and its store together, if its ids are unused. -/
theorem Tracks.turn {history : History} {ids : FreshIds} {request : Request} {store after : Store}
    {response : Response} (tracks : Tracks history store)
    (turn : Turn ids request store response after)
    (freshOrganization : store.organization? ids.organization = none)
    (freshMember : store.member? ids.member = none) :
    Tracks (history ++ [⟨request, store, response, after⟩]) after := by
  cases turn with
  | unheard status idle => exact tracks.idle (Exchange.idle_of_operation?_eq_none idle)
  | tooLarge status asks =>
      exact tracks.idle (Exchange.idle_of_status (by simp [status]) (by simp [status]))
  | performed asks effect =>
      cases effect with
      | @refused _ _ error fault =>
          have status : (request.shown (settle (.error error))).status = error.status :=
            Request.status_shown _ _
          have above := error.four_hundred_le_status
          refine tracks.idle (Exchange.idle_of_status ?_ ?_)
          · exact status ▸ by omega
          · exact status ▸ by omega
      | told reads =>
          exact tracks.idle (Exchange.idle_of_operation?_eq_some asks
            (by rcases reads with rfl | rfl | rfl <;> decide))
      | aside other =>
          exact tracks.idle (Exchange.idle_of_operation?_eq_some asks
            (by rcases other with rfl | rfl | rfl | rfl <;> decide))
      | created made =>
          rw [settle, Request.shown_of_readsBody asks rfl]
          apply tracks.create made freshOrganization
          · simp [Exchange.creates, asks, Response.document]
          · simp [Exchange.invitesInto, asks]
          · simp [Exchange.settles, asks]
          · exact data_success 201 _
      | @invited owner _ view _ hasExpiry made =>
          rw [settle, Request.shown_of_readsBody asks rfl]
          have names : (Record.toValue view).id = ids.member := by
            obtain ⟨organization, -, -, rfl, -⟩ := Store.inviteMember_eq_ok_iff.mp made
            exact id_toValue_memberView _
          have told := data_success 201 view
          apply tracks.invite made freshMember
          · simp [Exchange.creates, asks]
          · simp [Exchange.invitesInto, asks, Response.document, beq_eq_decide]
          · intro other
            rw [Exchange.settles, asks]
            simp only [told, names]
            rfl
          · exact told
          · exact (congrArg Value.id told).trans names
      | updated made =>
          rw [settle, Request.shown_of_readsBody asks rfl]
          apply tracks.update made
          · simp [Exchange.creates, asks]
          · simp [Exchange.invitesInto, asks]
          · intro other
            rw [Exchange.settles, asks]
            rfl
          · exact data_success 200 _

/-- No organization and no member is handed an id that an earlier one could have. -/
structure UnusedIds (arrivals : List Arrival) : Prop where
  organizations : (arrivals.map fun arrival => arrival.ids.organization).Nodup
  members : (arrivals.map fun arrival => arrival.ids.member).Nodup

/-- Every id of a store was handed out with a request. -/
structure Store.Issued (store : Store) (arrivals : List Arrival) : Prop where
  organizations : ∀ id organization, store.organization? id = some organization →
    id ∈ arrivals.map fun arrival => arrival.ids.organization
  members : ∀ id member, store.member? id = some member →
    id ∈ arrivals.map fun arrival => arrival.ids.member

namespace Session

variable (configuration : Configuration)

theorem issued_run (arrivals : List Arrival) :
    (run (standard configuration) arrivals).store.Issued arrivals := by
  induction arrivals using List.reverseRecOn with
  | nil => exact ⟨fun _ _ found => (nomatch found), fun _ _ found => (nomatch found)⟩
  | append_singleton earlier last inductionHypothesis =>
      have turn := turn_serve configuration last.ids last.request
        (expiring_run configuration earlier)
      rw [run_append_singleton]
      constructor
      · intro id organization found
        rw [List.map_append, List.mem_append]
        rcases turn.change.organization? found with rfl | ⟨former, before⟩
        · exact .inr List.mem_cons_self
        · exact .inl (inductionHypothesis.organizations id former before)
      · intro id member found
        rw [List.map_append, List.mem_append]
        rcases turn.change.member? found with rfl | ⟨former, before⟩
        · exact .inr List.mem_cons_self
        · exact .inl (inductionHypothesis.members id former before)

theorem tracks_run {arrivals : List Arrival} (unused : UnusedIds arrivals) :
    Tracks (run (standard configuration) arrivals).history
      (run (standard configuration) arrivals).store := by
  induction arrivals using List.reverseRecOn with
  | nil => exact tracks_nil
  | append_singleton earlier last inductionHypothesis =>
      obtain ⟨organizations, members⟩ := unused
      rw [List.map_append, List.nodup_append] at organizations members
      have issued := issued_run configuration earlier
      have tracks := inductionHypothesis ⟨organizations.1, members.1⟩
      have turn := turn_serve configuration last.ids last.request
        (expiring_run configuration earlier)
      rw [run_append_singleton]
      apply tracks.turn turn
      · apply Option.eq_none_iff_forall_ne_some.mpr
        intro organization found
        have listed := issued.organizations last.ids.organization organization found
        exact organizations.2.2 _ listed _ List.mem_cons_self rfl
      · apply Option.eq_none_iff_forall_ne_some.mpr
        intro member found
        have listed := issued.members last.ids.member member found
        exact members.2.2 _ listed _ List.mem_cons_self rfl

end Session

/-- Whether a request reads what an action shows. -/
def Request.Gets (request : Request) (action : Action) (parameters : Parameters) : Prop :=
  request.method = "GET" ∧ request.operation? = some (action, parameters)

example : Request.Gets ⟨"GET", "/v1/organizations/org_1/members?page=2", []⟩ .listMembers
    [("organizationId", "org_1")] := by
  constructor <;> decide +kernel

theorem serve_of_gets (application : Application) (ids : FreshIds) {request : Request}
    {action : Action} {parameters : Parameters} (gets : request.Gets action parameters)
    (bodiless : action.readsBody = false) (store : Store) :
    (application.serve ids request store).1 =
      settle (application.perform action ids parameters request.body store).1 := by
  obtain ⟨isGet, asks⟩ := gets
  have whole (response : Response) : request.shown response = response := by
    rw [Request.shown, isGet, if_neg (by decide)]
  rw [serve_of_operation?_eq_some application ids store asks, bodiless,
    if_neg (fun refused => Bool.false_ne_true refused.1), whole]

/-- The document that lists items, with their number. -/
def listing (items : List Value) (total : Nat) : Value :=
  .object [("items", .array items), ("total", .ofNat total)]

def showing (data : Value) : Value :=
  .object [("data", data), ("ok", .bool true)]

/-- What is read is told by the history alone: every organization as it was created, its members as
they were last answered, and nothing under any other id. -/
structure Session.Reflects (application : Application) (session : Session) : Prop where
  organizations : ∀ ids request, request.Gets .listOrganizations [] →
    ∃ items, items.Perm session.history.created ∧
      (application.serve ids request session.store).1 =
        .document 200 (listing items (session.history.countP Exchange.creates))
  organization : ∀ creation ∈ session.history, creation.creates = true → ∀ ids request,
    request.Gets .getOrganization [("organizationId", creation.response.data.id)] →
      (application.serve ids request session.store).1 =
        .document 200 (showing creation.response.data)
  members : ∀ creation ∈ session.history, creation.creates = true → ∀ ids request,
    request.Gets .listMembers [("organizationId", creation.response.data.id)] →
      ∃ items, items.Perm ((session.history.invited creation.response.data.id).map
          session.history.latest) ∧
        (application.serve ids request session.store).1 = .document 200 (listing items
          (session.history.countP (Exchange.invitesInto creation.response.data.id)))
  elsewhere : ∀ id,
    (∀ creation ∈ session.history, creation.creates = true → creation.response.data.id ≠ id) →
      ∀ ids request, request.Gets .getOrganization [("organizationId", id)] ∨
          request.Gets .listMembers [("organizationId", id)] →
        (application.serve ids request session.store).1.status = 404

namespace Tracks

variable {configuration : Configuration} {session : Session}

theorem exists_organization (tracks : Tracks session.history session.store) {creation : Exchange}
    (member : creation ∈ session.history) (creates : creation.creates = true) :
    ∃ organization, Record.toValue organization = creation.response.data ∧
      session.store.organization? creation.response.data.id = some organization := by
  have listed : creation.response.data ∈ session.history.created :=
    List.mem_map.mpr ⟨creation, List.mem_filter.mpr ⟨member, creates⟩, rfl⟩
  obtain ⟨organization, stored, same⟩ := List.mem_map.mp (tracks.organizations.mem_iff.mpr listed)
  obtain ⟨key, found⟩ := Dictionary.mem_values_iff.mp stored
  refine ⟨organization, same, ?_⟩
  rw [← same, id_toValue_organization, tracks.ofOrganization key organization found]
  exact found

theorem organization?_eq_none (tracks : Tracks session.history session.store) {id : String}
    (unknown : ∀ creation ∈ session.history, creation.creates = true →
      creation.response.data.id ≠ id) : session.store.organization? id = none := by
  apply Option.eq_none_iff_forall_ne_some.mpr
  intro organization found
  have stored : organization ∈ session.store.listOrganizations :=
    Dictionary.mem_values_iff.mpr ⟨id, found⟩
  have listed := tracks.organizations.mem_iff.mp (List.mem_map_of_mem (f := Record.toValue) stored)
  obtain ⟨creation, kept, same⟩ := List.mem_map.mp listed
  obtain ⟨member, creates⟩ := List.mem_filter.mp kept
  refine unknown creation member creates ?_
  rw [same, id_toValue_organization, tracks.ofOrganization id organization found]

/-- The members of an organization are shown as they were last answered. -/
theorem members_perm (tracks : Tracks session.history session.store) {id : String}
    {organization : Organization} (found : session.store.organization? id = some organization) :
    (((session.store.membersOf id).map fun member =>
      MemberView.mk member organization.summary).map Record.toValue).Perm
        ((session.history.invited id).map session.history.latest) := by
  have told : ((session.store.membersOf id).map fun member =>
      MemberView.mk member organization.summary).map Record.toValue =
        ((session.store.membersOf id).map Member.id).map session.history.latest := by
    rw [List.map_map, List.map_map]
    apply List.map_congr_left
    intro member listed
    obtain ⟨stored, own⟩ := List.mem_filter.mp listed
    obtain ⟨key, held⟩ := Dictionary.mem_values_iff.mp stored
    obtain ⟨isKey, home, belongs, latest⟩ := tracks.ofMember key member held
    obtain rfl : organization = home := by
      rw [eq_of_beq own] at belongs
      exact Option.some.inj (found.symm.trans belongs)
    rw [Function.comp_apply, Function.comp_apply, isKey, latest]
  rw [told]
  exact (tracks.members id).map _

theorem reflects (tracks : Tracks session.history session.store)
    (expiring : session.store.Expiring) : session.Reflects (standard configuration) where
  organizations ids request gets := by
    rw [serve_of_gets _ ids gets rfl, perform, listOrganizations_standard, settle,
      Catalogue.toValue_page]
    have total : session.store.listOrganizations.length =
        session.history.countP Exchange.creates := by
      simpa [History.created, List.countP_eq_length_filter] using tracks.organizations.length_eq
    exact ⟨_, tracks.organizations, by rw [total, listing]⟩
  organization creation member creates ids request gets := by
    obtain ⟨organization, same, found⟩ := tracks.exists_organization member creates
    rw [serve_of_gets _ ids gets rfl, perform, getOrganization_standard, found, ← same]
    rfl
  members creation member creates ids request gets := by
    obtain ⟨organization, same, found⟩ := tracks.exists_organization member creates
    rw [serve_of_gets _ ids gets rfl, perform, listMembers_standard configuration expiring, found]
    dsimp only
    rw [settle, Catalogue.toValue_page]
    have total : (session.store.membersOf creation.response.data.id).length =
        session.history.countP (Exchange.invitesInto creation.response.data.id) := by
      simpa [History.invited, List.countP_eq_length_filter] using
        (tracks.members creation.response.data.id).length_eq
    exact ⟨_, tracks.members_perm found, by rw [List.length_map, total, listing]⟩
  elsewhere id unknown ids request gets := by
    have missing := tracks.organization?_eq_none unknown
    rcases gets with gets | gets
    · rw [serve_of_gets _ ids gets rfl, perform, getOrganization_standard, missing]
      rfl
    · rw [serve_of_gets _ ids gets rfl, perform, listMembers_standard configuration expiring,
        missing]
      rfl

end Tracks

/-- Whatever is requested, reads follow the history, if no id is handed out twice. -/
theorem Session.reflects_run (configuration : Configuration) {arrivals : List Arrival}
    (unused : UnusedIds arrivals) :
    (run (standard configuration) arrivals).Reflects (standard configuration) :=
  (tracks_run configuration unused).reflects (expiring_run configuration arrivals)

/-- The promoted member as it is printed. -/
def Session.promoted : String :=
  "\x7b\"active\":true,\"email\":\"a@b\",\"id\":\"mem_2\",\"invitedBy\":null," ++
    "\"organization\":\x7b\"id\":\"org_1\",\"name\":\"A\"\x7d,\"organizationId\":\"org_1\"," ++
    "\"role\":\"admin\",\"temporary\":false\x7d"

/-- After the promotion the one member is listed with the role it was given. -/
theorem Session.reflects_run_promotion :
    let session := run (standard .default) promotion
    UnusedIds promotion ∧
      (session.history.map fun exchange => exchange.response.status) = [201, 201, 200, 409] ∧
      session.Reflects (standard .default) ∧
      ∀ ids, ∃ item, ((standard .default).serve ids
          ⟨"GET", "/v1/organizations/org_1/members", []⟩ session.store).1 =
            .document 200 (listing [item] 1) ∧
        item.compact = promoted := by
  intro session
  have unused : UnusedIds promotion := ⟨by decide, by decide⟩
  have reflects : session.Reflects (standard .default) := reflects_run .default unused
  -- evaluated at once, since each evaluation goes through the whole run
  have told : (session.history.map fun exchange => exchange.response.status) =
        [201, 201, 200, 409] ∧
      (∃ creation ∈ session.history, creation.creates = true ∧
        creation.response.data.id = "org_1") ∧
      session.history.invited "org_1" = ["mem_2"] ∧
      session.history.countP (Exchange.invitesInto "org_1") = 1 ∧
      (session.history.latest "mem_2").compact = promoted := by
    decide +kernel
  obtain ⟨statuses, ⟨creation, member, creates, named⟩, invited, counted, printed⟩ := told
  refine ⟨unused, statuses, reflects, fun ids => ?_⟩
  have gets : Request.Gets ⟨"GET", "/v1/organizations/org_1/members", []⟩ .listMembers
      [("organizationId", creation.response.data.id)] := by
    rw [named]
    exact ⟨rfl, by decide +kernel⟩
  obtain ⟨items, permuted, answered⟩ := reflects.members creation member creates ids _ gets
  rw [named, invited, List.map_singleton, List.perm_singleton] at permuted
  rw [named, counted, permuted] at answered
  exact ⟨_, answered, printed⟩

end Tenancy
