import Tenancy.Proofs.Record.Reading
import Tenancy.Proofs.Record.Writing

/-!
# Written records are read back

Reading the document of a record gives the record (`Record.Restored`). A document holds the fields
that were written, whatever their order (`Record.fields?_canonical`), and each kind of field is read
back from what was written for it, so that a record is restored field by field.
-/

namespace Tenancy

open Json Json.Value Shape

namespace Record

/-- The record is read back from its document. -/
def Restored {α : Type} [Record α] (record : α) : Prop :=
  read? (toValue record) = some record

theorem fields?_canonical {entries : Object} (distinct : (Entries.keys entries).Nodup)
    (names : List String) : fields? names (Value.object entries).canonical =
      some (names.map fun name => (entries.find? name).map canonical) := by
  have found (name : String) :
      Entries.find? (document entries) name = (entries.find? name).map canonical :=
    find?_document distinct name
  exact congrArg (fun find => some (names.map find)) (funext found)

/-! ### Kinds of fields -/

theorem optional_text (text : Option String) :
    optional text? (text.map Value.string) = some text := by
  cases text <;> rfl

theorem optional_textOrNull (text : Option String) :
    optional text? (some (textOrNull text)) = some text := by
  cases text <;> rfl

theorem optional_flag (flag : Option Bool) :
    optional flag? (flag.map Value.bool) = some flag := by
  cases flag <;> rfl

theorem restored_role (role : Role) : Restored role := by
  cases role <;> rfl

theorem optional_role (role : Option Role) :
    optional read? (role.map toValue) = some role := by
  cases role with
  | none => rfl
  | some role => cases role <;> rfl

theorem restored_plan (plan : Plan) : Restored plan := by
  cases plan <;> rfl

theorem restored_settings (settings : Settings) : Restored settings := by
  have entries : (settings.entries.map fun entry => (entry.1, write entry.2)).mapM
      (fun entry => (read? entry.2).map fun (value : SettingValue) => (entry.1, value)) =
        some settings.entries := by
    rw [mapM_eq_some_iff, List.forall₂_map_left_iff]
    apply List.forall₂_same.mpr
    rintro ⟨key, value⟩ -
    cases value <;> rfl
  rw [Restored, toValue, Catalogue.canonical_settings]
  exact Option.map_eq_some_iff.mpr
    ⟨_, entries, Dictionary.ext settings.ascending.sorted_eq⟩

/-- Settings that are left out when there are none. -/
theorem defaulted_settings (settings : Settings) :
    defaulted .empty read? (if settings.isEmpty then none else some (toValue settings)) =
      some settings := by
  by_cases none : settings.isEmpty
  · rw [if_pos none]
    exact congrArg some (Dictionary.ext (List.isEmpty_iff.mp none).symm)
  · rw [if_neg none]
    exact restored_settings settings

theorem list?_toValue {α : Type} [Record α] {items : List α}
    (restored : ∀ item ∈ items, Restored item) :
    list? read? (.array (items.map toValue)) = some items := by
  rw [list?, mapM_eq_some_iff, List.forall₂_map_left_iff]
  exact List.forall₂_same.mpr restored

/-! ### Records -/

theorem restored_organization (organization : Organization) : Restored organization := by
  have fields : fields? ["id", "name", "plan", "settings"] (toValue organization) = some
      [some (.string organization.id), some (.string organization.name),
        some (toValue organization.plan),
        if organization.settings.isEmpty then none else some (toValue organization.settings)] := by
    refine (fields?_canonical ?_ _).trans ?_
    · split <;> simp [Entries.keys]
    · by_cases none : organization.settings.isEmpty
      · simp [none, Entries.find?_cons, canonical, toValue]
      · simp [none, Entries.find?_cons, canonical, toValue]
  simp only [Restored, read?, fields]
  exact read_next rfl (read_next rfl (read_next (restored_plan organization.plan)
    (read_next (defaulted_settings organization.settings) rfl)))

theorem restored_createOrganization (request : CreateOrganization) : Restored request := by
  have fields : fields? ["name", "plan", "settings"] (toValue request) = some
      [some (.string request.name), some (toValue request.plan),
        some (toValue request.settings)] := by
    refine (fields?_canonical ?_ _).trans ?_
    · simp [Entries.keys]
    · simp [Entries.find?_cons, canonical, toValue]
  simp only [Restored, read?, fields]
  exact read_next rfl (read_next (restored_plan request.plan)
    (read_next (restored_settings request.settings) rfl))

theorem restored_organizationSummary (summary : OrganizationSummary) : Restored summary := rfl

theorem restored_organizationPath (path : OrganizationPath) : Restored path := rfl

theorem restored_memberPath (path : MemberPath) : Restored path := rfl

/-- The fields of a member are read back, however its role is read. -/
theorem ofFields?_entries {role? : Value → Option Role}
    (readsRole : ∀ role, role? (toValue role) = some role) (member : Member) :
    Member.ofFields? role? (Member.fieldNames.map fun name =>
      (Entries.find? member.entries name).map canonical) = some member := by
  have fields : (Member.fieldNames.map fun name =>
      (Entries.find? member.entries name).map canonical) =
        [some (.string member.id), some (.string member.organizationId),
          some (.string member.email), some (toValue member.role), some (.bool member.active),
          some (.bool member.temporary), member.expiresAt.map .string,
          some (textOrNull member.invitedBy)] := by
    have found := congrArg (List.map (Option.map canonical)) member.map_find?_entries
    rw [List.map_map] at found
    refine found.trans ?_
    cases member.expiresAt <;> cases member.invitedBy <;> rfl
  rw [fields]
  exact read_next rfl (read_next rfl (read_next rfl (read_next (readsRole member.role)
    (read_next rfl (read_next rfl (read_next (optional_text member.expiresAt)
      (read_next (optional_textOrNull member.invitedBy) rfl)))))))

theorem restored_member (member : Member) : Restored member := by
  have fields := fields?_canonical member.keys_entries_nodup Member.fieldNames
  have entries : toValue member = (Value.object member.entries).canonical := rfl
  simp only [Restored, read?, entries, fields]
  exact ofFields?_entries restored_role member

theorem readBeside?_toValue (role : Role) : Role.readBeside? (toValue role) = some role := by
  cases role <;> rfl

theorem restored_memberView (view : MemberView) : Restored view := by
  have found := find?_document view.keys_nodup
  have ofMember : (Member.fieldNames.map (Entries.find? (document (view.member.entries ++
      [("organization", write view.organization)])))) = Member.fieldNames.map fun name =>
        (Entries.find? view.member.entries name).map canonical := by
    apply List.map_congr_left
    intro name listed
    have different : "organization" ≠ name := by
      rintro rfl
      exact absurd listed (by decide)
    rw [found, Entries.find?_append, Entries.find?_cons, if_neg different, Entries.find?_nil,
      Option.or_none]
  have ofOrganization : Entries.find? (document (view.member.entries ++
      [("organization", write view.organization)])) "organization" =
        some (toValue view.organization) := by
    rw [found, Entries.find?_append, view.member.find?_organization]
    rfl
  have entries : toValue view = .object (document (view.member.entries ++
      [("organization", write view.organization)])) := rfl
  simp only [Restored, read?, entries, ofMember, ofOrganization]
  exact read_next (ofFields?_entries readBeside?_toValue view.member)
    (read_next (restored_organizationSummary view.organization) rfl)

theorem restored_inviteMember (request : InviteMember) : Restored request := by
  have fields : fields? ["email", "role", "temporary", "expiresAt", "invitedBy"]
      (toValue request) = some [some (.string request.email), some (toValue request.role),
        some (.bool request.temporary), request.expiresAt.map .string,
        some (textOrNull request.invitedBy)] := by
    obtain ⟨email, role, temporary, expiresAt, invitedBy⟩ := request
    refine (fields?_canonical ?_ _).trans ?_
    · cases expiresAt <;> simp [Entries.keys, entryIfSome]
    · cases expiresAt <;> cases invitedBy <;> rfl
  simp only [Restored, read?, fields]
  exact read_next rfl (read_next (restored_role request.role) (read_next rfl
    (read_next (optional_text request.expiresAt)
      (read_next (optional_textOrNull request.invitedBy) rfl))))

theorem restored_memberPatch (patch : MemberPatch) : Restored patch := by
  have fields : fields? ["role", "active"] (toValue patch) =
      some [patch.role.map toValue, patch.active.map .bool] := by
    obtain ⟨role, active⟩ := patch
    refine (fields?_canonical ?_ _).trans ?_
    · cases role <;> cases active <;> simp [Entries.keys, entryIfSome]
    · cases role <;> cases active <;> rfl
  simp only [Restored, read?, fields]
  exact read_next (optional_role patch.role) (read_next (optional_flag patch.active) rfl)

section Wrappers

variable {α : Type} [Record α]

theorem restored_page {page : Page α} (restored : ∀ item ∈ page.items, Restored item) :
    Restored page := by
  have fields : fields? ["items", "total", "cursor"] (toValue page) =
      some [some (.array (page.items.map toValue)), some (.ofNat page.total),
        page.cursor.map .string] := by
    obtain ⟨items, total, cursor⟩ := page
    refine (fields?_canonical ?_ _).trans ?_
    · cases cursor <;> simp [Entries.keys]
    · rw [← canonicalItems_map_write]
      cases cursor <;> rfl
  simp only [Restored, read?, fields]
  exact read_next (list?_toValue restored) (read_next rfl
    (read_next (optional_text page.cursor) rfl))

theorem restored_envelope {envelope : Envelope α} (restored : Restored envelope.data) :
    Restored envelope := by
  have fields : fields? ["ok", "data"] (toValue envelope) =
      some [some (.bool envelope.ok), some (toValue envelope.data)] := by
    refine (fields?_canonical ?_ _).trans rfl
    simp [Entries.keys]
  simp only [Restored, read?, fields]
  exact read_next rfl (read_next restored rfl)

end Wrappers

end Record

end Tenancy
