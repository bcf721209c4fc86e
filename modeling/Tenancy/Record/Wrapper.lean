import Tenancy.Record.Basic
import Tenancy.Shape.Diagnostic

/-!
# Wrappers

The records that answers wrap other records in, and the records of rejections.
-/

namespace Tenancy

open Json

structure Page (α : Type) where
  items : List α
  total : Nat
  cursor : Option String
  deriving DecidableEq

/-- The page that lists everything. -/
def Page.whole {α : Type} (items : List α) : Page α :=
  ⟨items, items.length, none⟩

instance {α : Type} [Record α] : Record (Page α) where
  write page := .object
    ([("items", .array (page.items.map Record.write)), ("total", .ofNat page.total)] ++
      match page.cursor with
      | some cursor => [("cursor", .string cursor)]
      | none => [])
  read? value :=
    match Record.fields? ["items", "total", "cursor"] value with
    | some [items, total, cursor] => do
        return {
          items := ← Record.required (Record.list? Record.read?) items
          total := ← Record.required Record.count? total
          cursor := ← Record.optional Record.text? cursor }
    | _ => none

structure Envelope (α : Type) where
  ok : Bool
  data : α
  deriving DecidableEq

def Envelope.success {α : Type} (data : α) : Envelope α :=
  ⟨true, data⟩

instance {α : Type} [Record α] : Record (Envelope α) where
  write envelope := .object
    [("ok", .bool envelope.ok), ("data", Record.write envelope.data)]
  read? value :=
    match Record.fields? ["ok", "data"] value with
    | some [ok, data] => do
        return {
          ok := ← Record.required Record.flag? ok
          data := ← Record.required Record.read? data }
    | _ => none

instance : Record PropertyError where
  write error := .object
    [("property", .string error.property), ("message", .string error.message)]
  read? value :=
    match Record.fields? ["property", "message"] value with
    | some [property, message] => do
        return {
          property := ← Record.required Record.text? property
          message := ← Record.required Record.text? message }
    | _ => none

instance : Record Rejection where
  write rejection := .object
    [("errors", .array (rejection.errors.map Record.write)),
      ("message", .string rejection.message)]
  read? value :=
    match Record.fields? ["errors", "message"] value with
    | some [errors, message] => do
        return {
          errors := ← Record.required (Record.list? Record.read?) errors
          message := ← Record.required Record.text? message }
    | _ => none

end Tenancy
