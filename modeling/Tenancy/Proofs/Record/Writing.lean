import Tenancy.Contract.Catalogue
import Tenancy.Proofs.Shape.Pruning
import Tenancy.Record.Member
import Tenancy.Record.Wrapper

/-!
# Written records pass their contracts

A contract keeps the documents of its records: they pass it, and unchanged (`Shape.Keeps`).
Records are written field by field, so an object shape is compared with the entries as they were
listed, before the keys were put in order (`Shape.keeps_canonical`).
-/

namespace Tenancy

open Json

namespace Json.Value

theorem canonicalItems_eq_map (items : List Value) :
    canonicalItems items = items.map canonical := by
  induction items with
  | nil => rfl
  | cons item rest inductionHypothesis => rw [canonicalItems, inductionHypothesis, List.map_cons]

theorem keys_canonicalEntries (entries : Object) :
    Entries.keys (canonicalEntries entries) = Entries.keys entries := by
  induction entries with
  | nil => rfl
  | cons entry rest inductionHypothesis => exact congrArg (entry.1 :: ·) inductionHypothesis

theorem find?_canonicalEntries (entries : Object) (key : String) :
    Entries.find? (canonicalEntries entries) key = (entries.find? key).map canonical := by
  induction entries with
  | nil => rfl
  | cons entry rest inductionHypothesis =>
      rw [canonicalEntries, Entries.find?_cons, Entries.find?_cons, inductionHypothesis]
      split <;> rfl

theorem canonicalEntries_append (left right : Object) :
    canonicalEntries (left ++ right) = canonicalEntries left ++ canonicalEntries right := by
  induction left with
  | nil => rfl
  | cons entry rest inductionHypothesis => exact congrArg (_ :: ·) inductionHypothesis

theorem canonical_object_eq_self {entries : Object} (ascending : Entries.Ascending entries)
    (ordered : ∀ entry ∈ entries, entry.2.canonical = entry.2) :
    (Value.object entries).canonical = .object entries := by
  have same : canonicalEntries entries = entries := by
    clear ascending
    induction entries with
    | nil => rfl
    | cons entry rest inductionHypothesis =>
        obtain ⟨first, later⟩ := List.forall_mem_cons.mp ordered
        rw [canonicalEntries, first, inductionHypothesis later]
  rw [canonical, same, ascending.sorted_eq]

/-- The entries of a written object, as its document holds them. -/
def document (entries : Object) : Object :=
  Entries.sorted (canonicalEntries entries)

theorem document_append_singleton (entries : Object) (entry : String × Value) :
    document (entries ++ [entry]) = Entries.merge (document entries) (document [entry]) := by
  rw [document, canonicalEntries_append, Entries.sorted, Entries.merge_append]
  rfl

variable {entries : Object}

theorem find?_document (distinct : (Entries.keys entries).Nodup) (key : String) :
    (document entries).find? key = (entries.find? key).map canonical := by
  rw [document, Entries.find?_sorted (by rwa [keys_canonicalEntries]), find?_canonicalEntries]

theorem mem_keys_document_iff (distinct : (Entries.keys entries).Nodup) {key : String} :
    key ∈ Entries.keys (document entries) ↔ key ∈ Entries.keys entries := by
  rw [← Decidable.not_iff_not, ← Entries.find?_eq_none_iff, ← Entries.find?_eq_none_iff,
    find?_document distinct, Option.map_eq_none_iff]

end Json.Value

namespace Shape

/-- A shape keeps a value that it accepts unchanged. -/
def Keeps (shape : Shape) (value : Value) : Prop :=
  shape.prune? (some value) = some value

/-- What an object shape makes of a written object, told by the entries as they were listed. -/
theorem prunes_document {fields : List (Field Shape)} {entries kept : Object}
    (distinct : (Entries.keys entries).Nodup) (keptDistinct : (Entries.keys kept).Nodup)
    (declared : ∀ name ∈ Entries.keys kept, name ∈ fields.map Field.name)
    (same : ∀ field ∈ fields, kept.find? field.name = entries.find? field.name)
    (free : ∀ field ∈ fields, entries.find? field.name = none →
      field.requiredness.holds none (Value.document entries) = false)
    (keeps : ∀ field ∈ fields, ∀ value, entries.find? field.name = some value →
      field.shape.Keeps value.canonical) :
    Prunes fields (Value.document entries) (Value.document kept) where
  ascending := Entries.ascending_sorted _
  declared name listed := declared name ((Value.mem_keys_document_iff keptDistinct).mp listed)
  ofField field member := by
    have found := Value.find?_document distinct field.name
    have left := (Value.find?_document keptDistinct field.name).trans
      (congrArg _ (same field member))
    cases listed : entries.find? field.name with
    | none =>
        rw [listed] at found left
        exact .absent found (free field member listed) left
    | some value =>
        rw [listed] at found left
        exact .present found (keeps field member value listed) left

theorem keeps_canonical {object : ObjectShape} {entries : Object}
    (distinct : (Entries.keys entries).Nodup)
    (declared : ∀ name ∈ Entries.keys entries, name ∈ object.names)
    (free : ∀ field ∈ object.fields, entries.find? field.name = none →
      field.requiredness.holds none (Value.document entries) = false)
    (keeps : ∀ field ∈ object.fields, ∀ value, entries.find? field.name = some value →
      field.shape.Keeps value.canonical) :
    object.toShape.Keeps (Value.object entries).canonical :=
  (prune?_object_eq_some_iff object.distinct).mpr
    ⟨_, _, rfl, prunes_document distinct distinct declared (fun _ _ => rfl) free keeps, rfl⟩

/-- Two object shapes accept together what both accept, and give it merged. -/
theorem prune?_intersection_pair {left right : ObjectShape} {whole first second : Object}
    (ofLeft : Prunes left.fields whole first) (ofRight : Prunes right.fields whole second) :
    (intersection [left.toShape, right.toShape]).prune? (some (.object whole)) =
      some (.object (Entries.merge first second)) := by
  have leftAccepts := (prune?_object_eq_some_iff left.distinct).mpr ⟨_, _, rfl, ofLeft, rfl⟩
  have rightAccepts := (prune?_object_eq_some_iff right.distinct).mpr ⟨_, _, rfl, ofRight, rfl⟩
  exact prune?_intersection_eq_some_iff.mpr
    ⟨_, .cons leftAccepts (.cons rightAccepts .nil), rfl⟩

theorem keeps_string (text : String) : Shape.string.Keeps (.string text) := rfl

theorem keeps_number (number : Number) : Shape.number.Keeps (.number number) := rfl

theorem keeps_boolean (flag : Bool) : Shape.boolean.Keeps (.bool flag) := rfl

/-- An object shape that declares texts only keeps a document that lists one for each. -/
theorem keeps_texts {object : ObjectShape} (texts : List (String × String))
    (fields : object.fields = texts.map fun (name, _) => .required name string) :
    object.toShape.Keeps
      (Value.object (texts.map fun (name, text) => (name, .string text))).canonical := by
  have keys : Entries.keys (texts.map fun (name, text) => (name, Value.string text)) =
      object.names := by
    rw [ObjectShape.names, fields, Entries.keys, List.map_map, List.map_map]
    rfl
  apply keeps_canonical
  · exact keys ▸ object.distinct
  · exact fun name listed => keys ▸ listed
  · intro field declared absent
    have listed : field.name ∈ object.names := List.mem_map_of_mem declared
    exact absurd (keys ▸ listed) (Entries.find?_eq_none_iff.mp absent)
  · intro field declared value found
    rw [fields] at declared
    obtain ⟨_, -, rfl⟩ := List.mem_map.mp declared
    obtain ⟨_, -, same⟩ := List.mem_map.mp (Entries.mem_of_find?_eq_some found)
    obtain rfl := congrArg Prod.snd same
    rfl

theorem keeps_arrayOf {element : Shape} {items : List Value}
    (keeps : ∀ item ∈ items, element.Keeps item) :
    (arrayOf element).Keeps (.array items) :=
  prune?_arrayOf_eq_some_iff.mpr ⟨_, _, rfl, List.forall₂_same.mpr keeps, rfl⟩

end Shape

theorem Record.canonicalItems_map_write {α : Type} [Record α] (items : List α) :
    Value.canonicalItems (items.map write) = items.map toValue := by
  rw [Value.canonicalItems_eq_map, List.map_map]
  rfl

namespace Member

/-- What is temporary says when it ends. -/
def HasExpiry (member : Member) : Prop :=
  member.temporary = true → member.expiresAt.isSome = true

theorem keys_entries_sublist (member : Member) :
    (Entries.keys member.entries).Sublist fieldNames := by
  cases ends : member.expiresAt with
  | none => simp [entries, Entries.keys, entryIfSome, ends, fieldNames]
  | some text => simp [entries, Entries.keys, entryIfSome, ends, fieldNames]

theorem keys_entries_nodup (member : Member) : (Entries.keys member.entries).Nodup :=
  List.Nodup.sublist member.keys_entries_sublist (by decide)

theorem map_find?_entries (member : Member) : fieldNames.map (Entries.find? member.entries) =
    [some (.string member.id), some (.string member.organizationId), some (.string member.email),
      some (Record.write member.role), some (.bool member.active), some (.bool member.temporary),
      member.expiresAt.map .string, some (textOrNull member.invitedBy)] := by
  obtain ⟨id, organizationId, email, role, active, temporary, expiresAt, invitedBy⟩ := member
  cases expiresAt <;> rfl

/-- A member's own entries leave the name of its organization free. -/
theorem find?_organization (member : Member) :
    Entries.find? member.entries "organization" = none :=
  Entries.find?_eq_none_iff.mpr fun listed =>
    absurd (member.keys_entries_sublist.subset listed) (by decide)

theorem find?_entryIfSome (name : String) (field : Option Value) (key : String) :
    Entries.find? (entryIfSome name field) key = if name = key then field else none := by
  cases field <;> simp [entryIfSome, Entries.find?_cons]

end Member

theorem MemberView.keys_nodup (view : MemberView) : (Entries.keys (view.member.entries ++
    [("organization", Record.write view.organization)])).Nodup := by
  have listed : (Entries.keys (view.member.entries ++
      [("organization", Record.write view.organization)])).Sublist
        (Member.fieldNames ++ ["organization"]) := by
    rw [Entries.keys, List.map_append]
    exact view.member.keys_entries_sublist.append (.refl _)
  exact listed.nodup (by decide)

namespace Catalogue

open Shape Json.Value

theorem keeps_plan (tier : Plan) : plan.Keeps (Record.write tier) := by
  cases tier <;> rfl

theorem keeps_role (granted : Role) : role.Keeps (Record.write granted) := by
  cases granted <;> rfl

theorem canonical_settings (values : Settings) :
    (Record.write values).canonical = Record.write values := by
  apply canonical_object_eq_self
  · simpa [Entries.Ascending, Entries.keys, Function.comp_def] using values.ascending
  · intro entry member
    obtain ⟨⟨key, value⟩, -, rfl⟩ := List.mem_map.mp member
    cases value <;> rfl

theorem keeps_settings (values : Settings) : settings.Keeps (Record.write values) := by
  apply prune?_mapOf_eq_some_iff.mpr
  refine ⟨_, _, rfl, List.forall₂_same.mpr ?_, rfl⟩
  rintro entry member
  obtain ⟨⟨key, value⟩, -, rfl⟩ := List.mem_map.mp member
  refine ⟨?_, rfl⟩
  cases value <;> rfl

theorem keeps_organization (stored : Organization) :
    organization.toShape.Keeps (Record.toValue stored) := by
  apply keeps_canonical
  · split <;> simp [Entries.keys]
  · split <;> simp [Entries.keys, ObjectShape.names, organization, Field.required, Field.optional]
  · simp [organization, Entries.find?_cons, Field.required, Field.optional, Requiredness.holds]
  · have ofPlan : plan.Keeps (Record.write stored.plan).canonical := keeps_plan stored.plan
    have ofSettings : settings.Keeps (Record.write stored.settings).canonical :=
      (canonical_settings stored.settings).symm ▸ keeps_settings stored.settings
    split <;> simp [organization, Field.required, Field.optional, Entries.find?_cons,
      Value.canonical, keeps_string, ofPlan, ofSettings]

theorem keeps_organizationSummary (summary : OrganizationSummary) :
    organizationSummary.toShape.Keeps (Record.toValue summary) :=
  keeps_texts [("id", summary.id), ("name", summary.name)] rfl

/-- The end of a membership is asked for exactly if the membership is said to be for a time. -/
theorem holds_expiry {whole : Object} {flag : Bool}
    (found : whole.find? "temporary" = some (.bool flag)) :
    expiry.requiredness.holds none whole = flag := by
  cases flag <;>
    simp [expiry, Field.requiredIf, Requiredness.holds, siblingEquals, found, Value.deepEqual]

/-- The contract of a member takes its entries, whatever else is listed beside them. -/
theorem prunes_member {stored : Member} (hasExpiry : stored.HasExpiry) {beside : Object}
    (distinct : (Entries.keys (stored.entries ++ beside)).Nodup)
    (apart : ∀ name ∈ Member.fieldNames, Entries.find? beside name = none) :
    Prunes member.fields (Value.document (stored.entries ++ beside))
      (Value.document stored.entries) := by
  have find?_eq {name : String} (declared : name ∈ Member.fieldNames) :
      Entries.find? (stored.entries ++ beside) name = Entries.find? stored.entries name := by
    rw [Entries.find?_append, apart name declared, Option.or_none]
  have found := stored.map_find?_entries
  simp only [Member.fieldNames, List.map_cons, List.cons.injEq] at found
  apply prunes_document distinct stored.keys_entries_nodup
  · intro name listed
    exact stored.keys_entries_sublist.subset listed
  · intro field declared
    exact (find?_eq (List.mem_map_of_mem (f := Field.name) declared)).symm
  · intro field declared
    rw [find?_eq (List.mem_map_of_mem (f := Field.name) declared)]
    have ofTemporary : (Value.document (stored.entries ++ beside)).find? "temporary" =
        some (.bool stored.temporary) := by
      rw [Value.find?_document distinct, find?_eq (by simp [Member.fieldNames])]
      rfl
    have asleep : stored.expiresAt = none →
        expiry.requiredness.holds none (Value.document (stored.entries ++ beside)) = false := by
      intro endless
      rw [holds_expiry ofTemporary]
      simpa [Member.HasExpiry, endless] using hasExpiry
    revert field
    simpa [member, expiry, Field.required, Field.optional, Field.requiredIf, found] using asleep
  · intro field declared
    rw [find?_eq (List.mem_map_of_mem (f := Field.name) declared)]
    have ofRole : role.Keeps (Record.write stored.role).canonical := keeps_role stored.role
    have ofInviter : Shape.string.nullable.Keeps (textOrNull stored.invitedBy).canonical := by
      cases stored.invitedBy <;> rfl
    revert field
    simp [member, expiry, Field.required, Field.optional, Field.requiredIf, found, keeps_string,
      keeps_boolean, Value.canonical, ofRole, ofInviter]

/-- A view passes as long as its member says when it ends, if it does. -/
theorem keeps_memberView (view : MemberView) (hasExpiry : view.member.HasExpiry) :
    memberView.Keeps (Record.toValue view) := by
  have distinct := view.keys_nodup
  have ofMember := prunes_member hasExpiry distinct
    (by simp [Member.fieldNames, Entries.find?_cons])
  have ofOrganization : Prunes memberOrganization.fields
      (Value.document (view.member.entries ++ [("organization", Record.write view.organization)]))
      (Value.document [("organization", Record.write view.organization)]) := by
    have absent := view.member.find?_organization
    have ofSummary : organizationSummary.toShape.Keeps (Record.write view.organization).canonical :=
      keeps_organizationSummary view.organization
    apply prunes_document distinct (by simp [Entries.keys])
    · simp [memberOrganization, Field.required, Entries.keys]
    · simp [memberOrganization, Field.required, Entries.find?_append, absent]
    · simp [memberOrganization, Field.required, Entries.find?_append, absent, Entries.find?_cons]
    · simp [memberOrganization, Field.required, Entries.find?_append, absent, Entries.find?_cons,
        ofSummary]
  have accepted := prune?_intersection_pair ofMember ofOrganization
  rw [← Value.document_append_singleton] at accepted
  exact accepted

section Wrappers

variable {α : Type} [Record α]

theorem toValue_page (items : List α) : Record.toValue (Page.whole items) =
    .object [("items", .array (items.map Record.toValue)), ("total", .ofNat items.length)] := by
  rw [← Record.canonicalItems_map_write]
  rfl

theorem toValue_envelope (data : α) : Record.toValue (Envelope.success data) =
    .object [("data", Record.toValue data), ("ok", .bool true)] :=
  rfl

theorem keeps_page {shape : Shape} {shown : Page α}
    (keeps : ∀ item ∈ shown.items, shape.Keeps (Record.toValue item)) :
    (page shape).toShape.Keeps (Record.toValue shown) := by
  obtain ⟨items, total, cursor⟩ := shown
  have ofItems : (arrayOf shape).Keeps (.array (canonicalItems (items.map Record.write))) := by
    rw [Record.canonicalItems_map_write]
    exact keeps_arrayOf (List.forall_mem_map.mpr keeps)
  have ofCursor (text : String) : Shape.string.nullable.Keeps (.string text) := rfl
  apply keeps_canonical
  · cases cursor <;> simp [Entries.keys]
  · cases cursor <;> simp [Entries.keys, ObjectShape.names, page, Field.required, Field.optional]
  · cases cursor <;>
      simp [Entries.find?_cons, page, Field.required, Field.optional, Requiredness.holds]
  · cases cursor <;> simp [Entries.find?_cons, page, Field.required, Field.optional, ofItems,
      ofCursor, Value.ofNat, canonical, keeps_number]

theorem keeps_envelope {shape : Shape} {data : α} (keeps : shape.Keeps (Record.toValue data)) :
    (envelope shape).toShape.Keeps (Record.toValue (Envelope.success data)) := by
  have ofData : shape.Keeps (Record.write data).canonical := keeps
  apply keeps_canonical
  · simp [Entries.keys]
  · simp [Entries.keys, ObjectShape.names, envelope, Field.required]
  · simp [Entries.find?_cons, envelope, Field.required]
  · have ofFlag : (literal (.bool true)).Keeps (.bool true) := rfl
    simp [Entries.find?_cons, envelope, Field.required, Envelope.success, ofData, canonical, ofFlag]

end Wrappers

end Catalogue

end Tenancy
