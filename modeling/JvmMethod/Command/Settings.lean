import JvmMethod.Command.Arguments
import JvmMethod.Locals

/-!
# Settings

What the options mean: which method the fragment is put into, and where to find
the fragment.
-/

namespace JvmMethod

/-- Where a fragment comes from. -/
inductive FragmentSource where
  | standardInput
  | file (path : String)
  deriving DecidableEq

/-- What fragment to put into what method. -/
structure Settings where
  source : FragmentSource
  /-- The access flags of the host method. -/
  flags : AccessFlags
  /-- The descriptor of the host method. -/
  descriptor : MethodDescriptor
  /-- How many locals the host has, behind its parameters. -/
  hostLocals : UInt16 := 0
  /-- Keep elements, and encode them at the end. -/
  buffered : Bool := false
  /-- Put the fragment into a block. -/
  block : Bool := false
  deriving DecidableEq

/-- Where the fragment named by an argument is.  A dash is the standard
input. -/
def FragmentSource.ofArgument (fragment : String) : FragmentSource :=
  if fragment = "-" then .standardInput else .file fragment

/-- The settings for a fragment and a public method. -/
def Settings.ofMethod (fragment descriptor : String) (isStatic : Bool) :
    Except Fault Settings := do
  let source := FragmentSource.ofArgument fragment
  let flags :=
    if isStatic then AccessFlags.accPublic.union .accStatic else .accPublic
  let descriptor ←
    (MethodDescriptor.ofString descriptor).mapError DescriptorFault.toFault
  return { source, flags, descriptor }

/-- The settings that the options choose. -/
def Options.settings (options : Options) : Except Fault Settings := do
  let settings ←
    Settings.ofMethod options.fragment options.descriptor options.isStatic
  return { settings with
    hostLocals := options.hostLocals
    buffered := options.buffered
    block := options.block }

end JvmMethod
