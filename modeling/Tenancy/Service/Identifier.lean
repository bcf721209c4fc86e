import Tenancy.Text.Hexadecimal

/-!
# Identifiers

An id is the kind of thing it names and 128 bits in hexadecimal. The service is handed unused ids with
each request; it never makes them up.
-/

namespace Tenancy

def organizationId (number : Nat) : String :=
  String.ofList ("org_".toList ++ Text.hexDigits 32 number)

def memberId (number : Nat) : String :=
  String.ofList ("mem_".toList ++ Text.hexDigits 32 number)

/-- The ids that a request may give to what it creates. -/
structure FreshIds where
  organization : String
  member : String
  deriving DecidableEq, Repr

end Tenancy
