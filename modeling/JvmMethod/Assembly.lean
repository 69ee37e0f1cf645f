import JvmMethod.Assembly.Line
import JvmMethod.Script

/-!
# Assembly text

A fragment of code is written with one element on a line.  Its labels have
names, and a name gets a new label of the method body the first time that it is
met.  Fragments that are read one after the other with the same `LabelNames`
share their names.

Reading stops at the first line that is wrong.  Names that were met up to then
keep their labels.
-/

namespace JvmMethod

/-- The names that were met, with their labels, in the order in which they were
first met. -/
structure LabelNames where
  entries : Array (String × Label) := #[]
  deriving DecidableEq

namespace LabelNames

/-- The label of a name that was met. -/
def find? (names : LabelNames) (name : String) : Option Label :=
  (names.entries.find? fun entry => entry.1 == name).map Prod.snd

/-- Notes the label of a name that was not met before. -/
def add (names : LabelNames) (name : String) (label : Label) : LabelNames :=
  { names with entries := names.entries.push (name, label) }

end LabelNames

/-- Why a text is no assembly, and on which line. -/
structure AssemblyFault where
  line : Nat
  cause : LineFault
  deriving DecidableEq

/-- The wording of an assembly fault. -/
def AssemblyFault.message (fault : AssemblyFault) : String :=
  "line " ++ toString fault.line ++ " - " ++ fault.cause.message

/-- The label of a name, which is a new one if the name was not met before. -/
def labelNamed (name : String) : Script LabelNames Label :=
  .read fun names =>
    match names.find? name with
    | some label => .done label
    | none =>
        .ask .freshLabel fun label =>
          .change (fun names => names.add name label) (.done label)

/-- Gives labels to names, in order. -/
def meetNames : List String → Script LabelNames Unit
  | [] => .done ()
  | name :: names => (labelNamed name).bind fun _ => meetNames names

/-- The elements of some lines, of which the first has a given number, after
the elements in front of them. -/
def assembleLines (number : Nat) (elements : Array Element) :
    List (List Char) →
      Script LabelNames (Except AssemblyFault (Array Element))
  | [] => .done (.ok elements)
  | line :: lines =>
      match readLine line with
      | (.ok none, _) => assembleLines (number + 1) elements lines
      | (.ok (some element), _) =>
          (element.mapM labelNamed).bind fun element =>
            assembleLines (number + 1) (elements.push element) lines
      | (.error cause, mentioned) =>
          (meetNames mentioned).bind fun () =>
            .done (.error { line := number, cause })

/-- The elements of a text. -/
def assemble (source : String) :
    Script LabelNames (Except AssemblyFault (Array Element)) :=
  assembleLines 1 #[] (partsAt '\n' source.toList)

end JvmMethod
