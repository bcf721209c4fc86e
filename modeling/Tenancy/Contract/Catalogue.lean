import Tenancy.Contract.Registry

/-!
# The catalogue

The contracts of the service: organizations, members, the bodies and path parameters of requests, and
the wrappers of answers. `Registry.catalogue` holds them all, with the wrapped contracts that routes
use registered under their expressions.
-/

namespace Tenancy

open Json

namespace ContractName

def organization := "organization"
def createOrganization := "create_organization"
def organizationSummary := "organization_summary"
def organizationPath := "organization_path"
def member := "member"
def memberView := "member_view"
def inviteMember := "invite_member"
def memberPatch := "member_patch"
def memberPath := "member_path"
def organizationPage := "page<organization>"
def memberPage := "page<member_view>"
def organizationEnvelope := "envelope<organization>"
def memberEnvelope := "envelope<member_view>"

end ContractName

namespace Catalogue

def plan : Shape :=
  .enumeration "plan" [.string "free", .string "team", .string "enterprise"] false

/-- Settings of an organization: any keys, scalar values. -/
def settings : Shape :=
  .mapOf (.union false [.string, .number, .boolean])

def organization : ObjectShape where
  fields := [.required "id" .string, .required "name" .string, .required "plan" plan,
    .optional "settings" settings]
  distinct := by decide

def createOrganization : ObjectShape where
  fields := [.required "name" .string, .optional "plan" plan, .optional "settings" settings]
  distinct := by decide

/-- As much of an organization as labels what belongs to it. -/
def organizationSummary : ObjectShape where
  fields := [.required "id" .string, .required "name" .string]
  distinct := by decide

def organizationPath : ObjectShape where
  fields := [.required "organizationId" .string]
  distinct := by decide

/-- The roles of members, in any case. -/
def role : Shape :=
  .enumeration "role" [.string "owner", .string "admin", .string "member", .string "viewer"] true

/-- What is temporary has to say when it ends. -/
def expiry : Field Shape :=
  .requiredIf "expiresAt" .string (siblingEquals "temporary" (.bool true))

def member : ObjectShape where
  fields := [.required "id" .string, .required "organizationId" .string,
    .required "email" .string, .required "role" role, .required "active" .boolean,
    .optional "temporary" .boolean, expiry, .optional "invitedBy" (.nullable .string)]
  distinct := by decide

/-- The part of a member's view that shows its organization. -/
def memberOrganization : ObjectShape where
  fields := [.required "organization" organizationSummary.toShape]
  distinct := by decide

/-- A membership with the organization it belongs to. -/
def memberView : Shape :=
  .intersection [member.toShape, memberOrganization.toShape]

def inviteMember : ObjectShape where
  fields := [.required "email" .string, .required "role" role, .required "temporary" .boolean,
    expiry, .optional "invitedBy" (.nullable .string)]
  distinct := by decide

def memberPatch : ObjectShape where
  fields := [.optional "role" role, .optional "active" .boolean]
  distinct := by decide

def memberPath : ObjectShape where
  fields := [.required "organizationId" .string, .required "memberId" .string]
  distinct := by decide

/-- One page of a listing. -/
def page (item : Shape) : ObjectShape where
  fields := [.required "items" (.arrayOf item), .required "total" .number,
    .optional "cursor" (.nullable .string)]
  distinct := by simp [Field.required, Field.optional]

/-- The answer about a single thing. -/
def envelope (data : Shape) : ObjectShape where
  fields := [.required "ok" (.literal (.bool true)), .required "data" data]
  distinct := by simp [Field.required]

def pageGeneric : Generic :=
  .unary "page" fun item => .ok (page item).toShape

def envelopeGeneric : Generic :=
  .unary "envelope" fun data => .ok (envelope data).toShape

def contracts : List (String × Shape) :=
  [("string", .string), ("number", .number), ("boolean", .boolean), ("null", .null),
    ("nothing", .nothing), ("plan", plan), ("settings", settings),
    (ContractName.organization, organization.toShape),
    (ContractName.createOrganization, createOrganization.toShape),
    (ContractName.organizationSummary, organizationSummary.toShape),
    (ContractName.organizationPath, organizationPath.toShape),
    ("role", role), (ContractName.member, member.toShape), (ContractName.memberView, memberView),
    (ContractName.inviteMember, inviteMember.toShape),
    (ContractName.memberPatch, memberPatch.toShape),
    (ContractName.memberPath, memberPath.toShape)]

/-- The wrapped contracts that routes answer with, by expression. -/
def wrapped : List (String × Shape) :=
  [(ContractName.organizationPage, (page organization.toShape).toShape),
    (ContractName.memberPage, (page memberView).toShape),
    (ContractName.organizationEnvelope, (envelope organization.toShape).toShape),
    (ContractName.memberEnvelope, (envelope memberView).toShape)]

end Catalogue

def Registry.plain : Registry :=
  (Catalogue.contracts.foldl (fun registry (name, shape) => registry.register name shape) empty)
    |>.registerGeneric Catalogue.pageGeneric
    |>.registerGeneric Catalogue.envelopeGeneric

def Registry.catalogue : Registry :=
  Catalogue.wrapped.foldl (fun registry (name, shape) => registry.register name shape) plain

end Tenancy
