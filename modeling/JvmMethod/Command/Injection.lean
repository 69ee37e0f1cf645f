import JvmMethod.Command.Reading
import JvmMethod.Command.Settings
import JvmMethod.Element.Text
import JvmMethod.LocalShift
import JvmMethod.Structured

/-!
# Putting a fragment into a method

The host method has its parameters and a number of `int` locals behind them.
The elements of the fragment go into it with their own locals moved behind
those, inside a block if that is wanted.

The report of a finished method has the number of its slots, its code in
hexadecimal, and the offset of every label that the fragment names.  With a
buffered terminal, the elements of the method come first, also if the method
cannot be finished.
-/

namespace JvmMethod

/-- Why a fragment could not be put into a method. -/
inductive InjectionFault where
  | read (cause : ReadFault)
  | assembly (cause : AssemblyFault)
  | method (cause : Fault)
  deriving DecidableEq

/-- An injection fault as data. -/
def InjectionFault.diagnostic : InjectionFault → String
  | .read cause => diagnosticOf "Io" cause.diagnostic
  | .assembly cause => cause.diagnostic
  | .method cause => diagnosticOf "Jvm" cause.diagnostic

/-- The wording of an injection fault. -/
def InjectionFault.message : InjectionFault → String
  | .read cause => "IO - " ++ cause.message
  | .assembly cause => cause.message
  | .method cause => "JVM - " ++ cause.message

/-- The lines of a report, and why there are no more of them. -/
structure Report where
  lines : List String
  fault? : Option InjectionFault := none
  deriving DecidableEq

/-- A report of nothing but a fault. -/
def Report.ofFault (fault : InjectionFault) : Report :=
  { lines := [], fault? := some fault }

/-- The terminal for the host method. -/
def Settings.terminal (settings : Settings) : Except Fault Terminal :=
  if settings.buffered then
    (Buffered.ofMethod settings.flags settings.descriptor).map .buffered
  else (Direct.ofMethod settings.flags settings.descriptor).map .direct

/-- Allocates a number of `int` locals. -/
def allocateInts {ω : Type} : Nat → Build ω Unit
  | 0 => pure ()
  | count + 1 => do
      let _ ← Build.allocate .int
      allocateInts count

/-- Pushes the elements of a fragment behind the locals of the host. -/
def Settings.injection (settings : Settings) (elements : List Element) :
    Build LocalShift Unit := do
  allocateInts settings.hostLocals.toNat
  let fragment := Build.transformElements elements LocalShift.transform
  if settings.block then Build.block fragment else fragment

/-- A byte as two hexadecimal digits. -/
def hexByte (byte : UInt8) : String :=
  let digits := Nat.toDigits 16 byte.toNat
  String.ofList (List.replicate (2 - digits.length) '0' ++ digits)

/-- The lines for a finished method. -/
def bodyLines (names : LabelNames) (body : MethodBody) : List String :=
  ("max_locals: " ++ toString body.maxLocals.toNat) ::
  ("code: " ++ String.intercalate " " (body.code.toList.map hexByte)) ::
  names.entries.toList.map fun (name, label) =>
    name ++ ": " ++
      match body.labelOffset? label with
      | some offset => toString offset.toNat
      | none => "unbound"

/-- The lines for the elements that a terminal keeps. -/
def elementLines : Terminal → List String
  | .direct _ => []
  | .buffered state =>
      state.elements.toList.map fun element => "    " ++ Element.text element

/-- Puts a fragment into a method, up to the terminal with all elements. -/
def Settings.build (settings : Settings) (fragment : String) :
    Except InjectionFault (LabelNames × Terminal) := do
  let terminal ← settings.terminal.mapError .method
  let shift ←
    (LocalShift.ofMethod settings.flags settings.descriptor).mapError .method
  match (assemble fragment).run terminal {} with
  | (.error fault, _, _) => throw (.assembly fault)
  | (.ok elements, terminal, names) =>
      match (settings.injection elements.toList).run.run terminal shift with
      | (.error fault, _, _) => throw (.method fault)
      | (.ok (), terminal, _) => return (names, terminal)

/-- Puts a fragment into a method and reports on it. -/
def Settings.inject (settings : Settings) (fragment : String) : Report :=
  match settings.build fragment with
  | .error fault => .ofFault fault
  | .ok (names, terminal) =>
      match terminal.finish with
      | .error fault =>
          { lines := elementLines terminal, fault? := some (.method fault) }
      | .ok body =>
          { lines := elementLines terminal ++ bodyLines names body }

/-- The report, given what reading the fragment gave. -/
def Settings.report (settings : Settings) : Except ReadFault String → Report
  | .error fault => .ofFault (.read fault)
  | .ok fragment => settings.inject fragment

/-- The line that tells a fault. -/
def InjectionFault.line (fault : InjectionFault) : String :=
  "Error: " ++ fault.diagnostic

/-- The line that tells the version. -/
def versionLine : String :=
  "Locals shifter 0.1.0"

end JvmMethod
