import JvmMethod.Command.Reading
import JvmMethod.Text.Parts

/-!
# Files by their paths

A fragment in a file is named by a path, and a path is a way through a tree of
directories.  It starts at the working directory, or at the root of the tree if
it begins with a slash, and takes one step for each of its parts.  Here is what
reading the file at the end of the way gives, and which fault is met first if
the way does not end at a file.

The program itself takes no such step: it asks the operating system for the file
and gets the bytes or a fault.  `Place.read` stands for the system there.  With a
tree of directories that is given as data, `Settings.report` can be evaluated for
every path, without a file and without a system.
-/

namespace JvmMethod

/-- What has a name in a directory. -/
inductive Entry where
  | file (bytes : ByteArray)
  | directory (entries : List (String × Entry))

/-- A directory, seen from within: what it holds, and what the directories
above it hold, the nearest first. -/
structure Place where
  entries : List (String × Entry)
  above : List (List (String × Entry)) := []

namespace Place

/-- The directory above.  There is none above the root, and a step up from
there stays there. -/
def parent (place : Place) : Place :=
  match place.above with
  | [] => place
  | entries :: above => { entries, above }

/-- The root of the tree that a directory is in. -/
def root (place : Place) : Place :=
  { entries := place.above.getLast?.getD place.entries }

/-- The longest name that an entry can have, in bytes. -/
def nameLimit : Nat := 255

/-- The longest path that is looked at, in bytes. -/
def pathLimit : Nat := 4095

/-- The bytes of the file at the end of a way.  An empty step and a dot stay
where they are, two dots go up, and a file is where the way has to end. -/
def follow (place : Place) : List String → Except ReadFault ByteArray
  | [] => .error .isDirectory
  | step :: steps =>
      if step = "" ∨ step = "." then place.follow steps
      else if step = ".." then place.parent.follow steps
      else if nameLimit < step.utf8ByteSize then .error .nameTooLong
      else
        match place.entries.lookup step with
        | none => .error .notFound
        | some (.directory entries) =>
            follow { entries, above := place.entries :: place.above } steps
        | some (.file bytes) =>
            if steps.isEmpty then .ok bytes else .error .notDirectory

/-- The bytes of the file with a path.  An empty path names nothing. -/
def read (place : Place) (path : String) : Except ReadFault ByteArray :=
  if pathLimit < path.utf8ByteSize then .error .nameTooLong
  else
    let steps := (partsAt '/' path.toList).map String.ofList
    match path.toList with
    | [] => .error .notFound
    | '/' :: _ => place.root.follow steps
    | _ => place.follow steps

end Place

end JvmMethod
