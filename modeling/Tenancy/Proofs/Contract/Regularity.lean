import Tenancy.Proofs.Contract.Resolution
import Tenancy.Proofs.Shape.Idempotence

/-!
# The catalogue is regular

Every shape that a contract expression stands for is regular, so what a contract of the service has
accepted passes that contract again unchanged.
-/

namespace Tenancy

open Json

attribute [simp] Requiredness.Regular.required Requiredness.Regular.optional

namespace Catalogue

open Shape

@[simp]
theorem regular_string : Regular .string := .leaf (.kind _)

@[simp]
theorem regular_number : Regular .number := .leaf (.kind _)

@[simp]
theorem regular_boolean : Regular .boolean := .leaf (.kind _)

@[simp]
theorem regular_nullable_string : Regular (.nullable .string) := .nullable regular_string

@[simp]
theorem regular_plan : Regular plan := .leaf (.enumeration _ _ _)

@[simp]
theorem regular_role : Regular role := .leaf (.enumeration _ _ _)

@[simp]
theorem regular_settings : Regular settings := by
  apply Regular.mapOf
  apply Regular.union
  simp only [List.forall_mem_cons]
  exact ⟨.kind _, .kind _, .kind _, List.forall_mem_nil _⟩

@[simp]
theorem regular_expiry : expiry.shape.Regular ∧ expiry.requiredness.Regular :=
  ⟨regular_string, .requiredIf _ trivial⟩

theorem regular_organization : Regular organization.toShape := by
  apply Regular.object <;> simp [organization, Field.required, Field.optional]

theorem regular_createOrganization : Regular createOrganization.toShape := by
  apply Regular.object <;> simp [createOrganization, Field.required, Field.optional]

@[simp]
theorem regular_organizationSummary : Regular organizationSummary.toShape := by
  apply Regular.object <;> simp [organizationSummary, Field.required]

theorem regular_organizationPath : Regular organizationPath.toShape := by
  apply Regular.object <;> simp [organizationPath, Field.required]

theorem regular_member : Regular member.toShape := by
  apply Regular.object <;> simp [member, Field.required, Field.optional]

/-- The two parts of a member's view declare no common name, so merging them loses nothing. -/
theorem regular_memberView : Regular memberView := by
  apply Regular.intersection [member, memberOrganization]
  · simp
  · simp [ObjectShape.Apart, ObjectShape.names, member, memberOrganization, expiry, Field.required,
      Field.optional, Field.requiredIf]
  · simp [member, memberOrganization, Field.required, Field.optional]
  · simp [member, memberOrganization, Field.required, Field.optional]

theorem regular_inviteMember : Regular inviteMember.toShape := by
  apply Regular.object <;> simp [inviteMember, Field.required, Field.optional]

theorem regular_memberPatch : Regular memberPatch.toShape := by
  apply Regular.object <;> simp [memberPatch, Field.optional]

theorem regular_memberPath : Regular memberPath.toShape := by
  apply Regular.object <;> simp [memberPath, Field.required]

theorem regular_page {item : Shape} (regular : Regular item) : Regular (page item).toShape := by
  apply Regular.object <;> simp [page, Field.required, Field.optional, regular.arrayOf]

theorem regular_envelope {data : Shape} (regular : Regular data) :
    Regular (envelope data).toShape := by
  have literal : Regular (.literal (.bool true)) := .leaf (.literal _)
  apply Regular.object <;> simp [envelope, Field.required, literal, regular]

theorem regular_contracts : ∀ contract ∈ contracts, contract.2.Regular := by
  simp only [contracts, List.forall_mem_cons]
  exact ⟨regular_string, regular_number, regular_boolean, .leaf (.kind _), .leaf (.kind _),
    regular_plan, regular_settings, regular_organization, regular_createOrganization,
    regular_organizationSummary, regular_organizationPath, regular_role, regular_member,
    regular_memberView, regular_inviteMember, regular_memberPatch, regular_memberPath,
    List.forall_mem_nil _⟩

end Catalogue

theorem Registry.holds_regular_catalogue : Registry.catalogue.Holds Shape.Regular :=
  holds_catalogue Catalogue.regular_contracts (fun _ => Catalogue.regular_page)
    fun _ => Catalogue.regular_envelope

/-- Regular shapes give back what they accepted, at any place, and the catalogue resolves
expressions to nothing but regular shapes. -/
theorem regular_idempotent_and_catalogue_regular :
    (∀ shape : Shape, shape.Regular → ∀ input path pruned,
      shape.validate input path = .ok pruned →
        ∀ place, shape.validate (some pruned) place = .ok pruned) ∧
    ∀ source resolution, Registry.catalogue.resolve source = .ok resolution →
      resolution.shape.Regular := by
  constructor
  · intro shape regular input path pruned accepted place
    rw [Shape.validate_eq_ok_iff] at accepted ⊢
    exact regular.prune?_again accepted
  · intro source resolution resolved
    exact Registry.holds_regular_catalogue.resolve resolved

/-- A body with an undeclared key and a role in capitals. -/
theorem regular_idempotent_inviteMember :
    Catalogue.inviteMember.toShape.Regular ∧
      Catalogue.inviteMember.toShape.validate (some (.object [("email", .string "a@b"),
        ("extra", .null), ("role", .string "OWNER"), ("temporary", .bool false)])) .root =
          .ok (.object [("email", .string "a@b"), ("role", .string "owner"),
            ("temporary", .bool false)]) ∧
      Catalogue.inviteMember.toShape.validate (some (.object [("email", .string "a@b"),
        ("role", .string "owner"), ("temporary", .bool false)])) .root =
          .ok (.object [("email", .string "a@b"), ("role", .string "owner"),
            ("temporary", .bool false)]) :=
  ⟨Catalogue.regular_inviteMember, rfl,
    regular_idempotent_and_catalogue_regular.1 _ Catalogue.regular_inviteMember
      (some (.object [("email", .string "a@b"), ("extra", .null), ("role", .string "OWNER"),
        ("temporary", .bool false)])) .root _ rfl _⟩

end Tenancy
