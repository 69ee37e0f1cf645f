import JvmMethod.Assembly
import JvmMethod.Text.Quoted

/-!
# Faults for the log

Where `message` words a fault for a reader, its *diagnostic* shows it as data:
the name of the cause, and every detail under its own name, with texts quoted.
The command line reports its failures in this form.
-/

namespace JvmMethod

/-- A cause with a single detail that has no name. -/
def diagnosticOf (cause detail : String) : String :=
  cause ++ "(" ++ detail ++ ")"

/-- A cause with named details. -/
def diagnosticWith (cause : String) (details : List (String × String)) :
    String :=
  cause ++ " \x7b " ++
    String.intercalate ", "
      (details.map fun (name, detail) => name ++ ": " ++ detail) ++ " \x7d"

/-- A fault as data. -/
def Fault.diagnostic : Fault → String
  | .io text => diagnosticOf "IoError" (quoted text)
  | .voidLocal => "VoidLocal"
  | .localSlotInterference expected found =>
      diagnosticWith "LocalSlotInterference"
        [("expected", toString expected.toNat),
          ("found", toString found.toNat)]
  | .localsOverflow => "LocalsOverflow"
  | .unboundLabel label => diagnosticOf "UnboundLabel" label.text
  | .labelAlreadyBound label => diagnosticOf "LabelAlreadyBound" label.text
  | .branchOffsetOverflow label offset =>
      diagnosticWith "BranchOffsetOverflow"
        [("label", label.text), ("offset", toString offset)]
  | .methodCodeOverflow length =>
      diagnosticOf "MethodCodeOverflow" (toString length)
  | .invalidLocalScope start stop =>
      diagnosticWith "InvalidLocalScope"
        [("start", start.text), ("end", stop.text)]
  | .invalidSwitch low count =>
      diagnosticWith "InvalidSwitch"
        [("low", toString low.toInt), ("count", toString count)]
  | .badDescriptor text => diagnosticOf "BadDescriptor" (quoted text)
  | .malformedName text => diagnosticOf "MalformedName" (quoted text)

/-- An assembly fault as data. -/
def AssemblyFault.diagnostic (fault : AssemblyFault) : String :=
  diagnosticWith "Assembly"
    [("line", toString fault.line), ("message", quoted fault.cause.message)]

end JvmMethod
