import JvmMethod.Diagnostic

/-!
# Reading a fragment

A fragment is a text in UTF-8.  It cannot be read if the operating system does
not give its bytes, or if its bytes are no such text.
-/

namespace JvmMethod

/-- Why a fragment could not be read. -/
inductive ReadFault where
  | notFound
  | denied
  | notDirectory
  | isDirectory
  | nameTooLong
  | other (code : Nat) (message : String)
  /-- The bytes are no text in UTF-8. -/
  | notText
  deriving DecidableEq

/-- The text that bytes stand for. -/
def textOfBytes (bytes : ByteArray) : Except ReadFault String :=
  match String.fromUTF8? bytes with
  | some text => .ok text
  | none => .error .notText

/-- An error of the operating system as data: its number, kind and wording. -/
def systemDiagnostic (code : Nat) (kind message : String) : String :=
  diagnosticWith "Os"
    [("code", toString code), ("kind", kind), ("message", quoted message)]

/-- A read fault as data. -/
def ReadFault.diagnostic : ReadFault → String
  | .notFound => systemDiagnostic 2 "NotFound" "No such file or directory"
  | .denied => systemDiagnostic 13 "PermissionDenied" "Permission denied"
  | .notDirectory => systemDiagnostic 20 "NotADirectory" "Not a directory"
  | .isDirectory => systemDiagnostic 21 "IsADirectory" "Is a directory"
  | .nameTooLong => systemDiagnostic 36 "InvalidFilename" "File name too long"
  | .other code message => systemDiagnostic code "Uncategorized" message
  | .notText =>
      diagnosticWith "Error"
        [("kind", "InvalidData"),
          ("message", quoted "stream did not contain valid UTF-8")]

/-- The wording of a read fault. -/
def ReadFault.message : ReadFault → String
  | .notFound => "No such file or directory (os error 2)"
  | .denied => "Permission denied (os error 13)"
  | .notDirectory => "Not a directory (os error 20)"
  | .isDirectory => "Is a directory (os error 21)"
  | .nameTooLong => "File name too long (os error 36)"
  | .other code message => message ++ " (os error " ++ toString code ++ ")"
  | .notText => "stream did not contain valid UTF-8"

end JvmMethod
