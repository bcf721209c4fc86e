import Tenancy.Record.Basic

/-!
# Organizations

The records of organizations: what is stored, what creates one, and the summary that labels what
belongs to one.
-/

namespace Tenancy

open Json

inductive Plan where
  | free
  | team
  | enterprise
  deriving DecidableEq, Repr

namespace Plan

def name : Plan → String
  | free => "free"
  | team => "team"
  | enterprise => "enterprise"

def ofName? (name : String) : Option Plan :=
  [free, team, enterprise].find? (·.name == name)

end Plan

instance : Record Plan where
  write plan := .string plan.name
  read? value := (Record.choice? value).bind Plan.ofName?

inductive SettingValue where
  | flag (value : Bool)
  | number (value : Number)
  | text (value : String)
  deriving DecidableEq

instance : Record SettingValue where
  write
    | .flag value => .bool value
    | .number value => .number value
    | .text value => .string value
  read?
    | .bool value => some (.flag value)
    | .number value => some (.number value)
    | .string value => some (.text value)
    | _ => none

abbrev Settings := Dictionary SettingValue

instance : Record Settings where
  write settings := .object (settings.entries.map fun (key, value) => (key, Record.write value))
  read? := Record.dictionary? Record.read?

structure Organization where
  id : String
  name : String
  plan : Plan
  settings : Settings
  deriving DecidableEq

instance : Record Organization where
  write organization := .object
    ([("id", .string organization.id), ("name", .string organization.name),
      ("plan", Record.write organization.plan)] ++
      if organization.settings.isEmpty then []
      else [("settings", Record.write organization.settings)])
  read? value :=
    match Record.fields? ["id", "name", "plan", "settings"] value with
    | some [id, name, plan, settings] => do
        return {
          id := ← Record.required Record.text? id
          name := ← Record.required Record.text? name
          plan := ← Record.required Record.read? plan
          settings := ← Record.defaulted .empty Record.read? settings }
    | _ => none

structure CreateOrganization where
  name : String
  plan : Plan
  settings : Settings
  deriving DecidableEq

instance : Record CreateOrganization where
  write request := .object
    [("name", .string request.name), ("plan", Record.write request.plan),
      ("settings", Record.write request.settings)]
  read? value :=
    match Record.fields? ["name", "plan", "settings"] value with
    | some [name, plan, settings] => do
        return {
          name := ← Record.required Record.text? name
          plan := ← Record.defaulted .free Record.read? plan
          settings := ← Record.defaulted .empty Record.read? settings }
    | _ => none

/-- What labels an organization where something belongs to it. -/
structure OrganizationSummary where
  id : String
  name : String
  deriving DecidableEq

def Organization.summary (organization : Organization) : OrganizationSummary :=
  ⟨organization.id, organization.name⟩

instance : Record OrganizationSummary where
  write summary := .object [("id", .string summary.id), ("name", .string summary.name)]
  read? value :=
    match Record.fields? ["id", "name"] value with
    | some [id, name] => do
        return {
          id := ← Record.required Record.text? id
          name := ← Record.required Record.text? name }
    | _ => none

structure OrganizationPath where
  organizationId : String
  deriving DecidableEq

instance : Record OrganizationPath where
  write path := .object [("organizationId", .string path.organizationId)]
  read? value :=
    match Record.fields? ["organizationId"] value with
    | some [organizationId] => do
        return { organizationId := ← Record.required Record.text? organizationId }
    | _ => none

end Tenancy
