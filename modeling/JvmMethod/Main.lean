import JvmMethod.Command.Injection

/-!
# The program

Reads the fragment, puts it into the host method and prints the report.  The
program ends with 0 if the method was finished, with 1 if something went wrong,
and with 2 if the arguments cannot be accepted.
-/

namespace JvmMethod

/-- Reads a stream to its end. -/
partial def readToEnd (stream : IO.FS.Stream) (bytes : ByteArray) :
    IO ByteArray := do
  let more ← stream.read 65536
  if more.isEmpty then return bytes else readToEnd stream (bytes ++ more)

/-- The number of an error of the operating system, which may come with its
sign turned. -/
def systemCode (code : UInt32) : Nat :=
  min code.toNat (0 - code).toNat

/-- A failure of the operating system as a read fault. -/
def readFaultOf (failure : IO.Error) : ReadFault :=
  match failure with
  | .noFileOrDirectory .. => .notFound
  | .permissionDenied .. => .denied
  | .inappropriateType _ code _ =>
      if systemCode code = 21 then .isDirectory else .notDirectory
  | .invalidArgument (some _) code details =>
      if systemCode code = 36 then .nameTooLong
      else .other (systemCode code) details
  | other => .other 5 (toString other)

/-- The bytes of a fragment. -/
def readBytes : FragmentSource → IO ByteArray
  | .standardInput => do readToEnd (← IO.getStdin) .empty
  | .file path => IO.FS.readBinFile path

/-- The text of a fragment. -/
def readFragment (source : FragmentSource) :
    IO (Except ReadFault String) := do
  try
    return textOfBytes (← readBytes source)
  catch failure => return .error (readFaultOf failure)

/-- Prints a report, and tells how the program ends. -/
def printReport (report : Report) : IO UInt32 := do
  for line in report.lines do
    IO.println line
  match report.fault? with
  | none => return 0
  | some fault =>
      IO.eprintln fault.line
      return 1

/-- What the program prints when it is asked for help. -/
def usage : String :=
  "Inject a bytecode fragment into a host method, moving its locals to fresh slots

Usage: locals-shifter [OPTIONS] [FRAGMENT]

Arguments:
  [FRAGMENT]  Fragment to inject, one element per line (- for stdin) [default: -]

Options:
      --descriptor <DESCRIPTOR>  Descriptor of the host method [default: ()V]
      --static                   Host method is static
      --host-locals <N>          Number of int locals of the host [default: 0]
      --buffered                 Buffer elements and encode them at the end
      --block                    Inject the fragment inside a block
  -h, --help                     Print help
  -V, --version                  Print version"

end JvmMethod

open JvmMethod in
def main (arguments : List String) : IO UInt32 := do
  match invocation arguments with
  | .rejected =>
      IO.eprintln usage
      return 2
  | .version =>
      IO.println versionLine
      return 0
  | .help =>
      IO.println usage
      return 0
  | .inject options =>
      match options.settings with
      | .error fault => printReport (.ofFault (.method fault))
      | .ok settings =>
          printReport (settings.report (← readFragment settings.source))
