/-!
# System errors

Why the system refuses to read a file, with the numbers and descriptions that POSIX systems give.
-/

namespace Tenancy

inductive SystemError where
  | notPermitted
  | noEntry
  | inputOutput
  | noDevice
  | accessDenied
  | notDirectory
  | isDirectory
  | tooManyFiles
  | nameTooLong
  | tooManyLinks
  | other (description : String)
  deriving DecidableEq, Repr

namespace SystemError

def numbered : List (Nat × SystemError) :=
  [(1, notPermitted), (2, noEntry), (5, inputOutput), (6, noDevice), (13, accessDenied),
    (20, notDirectory), (21, isDirectory), (24, tooManyFiles), (36, nameTooLong),
    (40, tooManyLinks)]

/-- The error of a number; one that is not listed keeps its description. -/
def ofNumber (number : Nat) (description : String) : SystemError :=
  (numbered.lookup number).getD (.other s!"{description} (os error {number})")

def message : SystemError → String
  | notPermitted => "Operation not permitted (os error 1)"
  | noEntry => "No such file or directory (os error 2)"
  | inputOutput => "Input/output error (os error 5)"
  | noDevice => "No such device or address (os error 6)"
  | accessDenied => "Permission denied (os error 13)"
  | notDirectory => "Not a directory (os error 20)"
  | isDirectory => "Is a directory (os error 21)"
  | tooManyFiles => "Too many open files (os error 24)"
  | nameTooLong => "File name too long (os error 36)"
  | tooManyLinks => "Too many levels of symbolic links (os error 40)"
  | other description => description

end SystemError

end Tenancy
