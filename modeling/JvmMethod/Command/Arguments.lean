import JvmMethod.Text.Numeral

/-!
# The command line

The arguments say what method a fragment is put into and where the fragment is.
They are looked at from left to right, and the first that settles the matter
does: one that asks for the version or for help, or one that cannot be accepted.

An option is given once at most.  Its value is attached with `=`, or is the next
argument, which then does not look like an option.  Behind `--` nothing looks
like an option.
-/

namespace JvmMethod

/-- What the arguments chose. -/
structure Options where
  descriptor : String := "()V"
  isStatic : Bool := false
  hostLocals : UInt16 := 0
  buffered : Bool := false
  block : Bool := false
  fragment : String := "-"
  deriving DecidableEq

/-- What the command line asks for. -/
inductive Invocation where
  | inject (options : Options)
  | version
  | help
  | rejected
  deriving DecidableEq

/-- The options that have a value. -/
inductive ValueOption where
  | descriptor
  | hostLocals
  deriving DecidableEq

/-- The options that have none. -/
inductive Switch where
  | isStatic
  | buffered
  | block
  | version
  | help
  deriving DecidableEq

/-- What the arguments up to now gave. -/
structure Given where
  descriptor? : Option String := none
  hostLocals? : Option UInt16 := none
  isStatic : Bool := false
  buffered : Bool := false
  block : Bool := false
  fragment? : Option String := none
  deriving DecidableEq

namespace Given

/-- The options, where those that were not given have their usual value. -/
def options (given : Given) : Options where
  descriptor := given.descriptor?.getD "()V"
  isStatic := given.isStatic
  hostLocals := given.hostLocals?.getD 0
  buffered := given.buffered
  block := given.block
  fragment := given.fragment?.getD "-"

/-- A number of host locals: a number with an optional sign, from 0 to
65535. -/
def readHostLocals? (text : String) : Option UInt16 :=
  (signed? text.toList).bind fun number =>
    if 0 ≤ number ∧ number ≤ 65535 then some (UInt16.ofNat number.toNat)
    else none

/-- Takes in the value of an option, or ends the matter. -/
def setValue (given : Given) (option : ValueOption) (value : String) :
    Except Invocation Given :=
  match option with
  | .descriptor =>
      if given.descriptor?.isSome then .error .rejected
      else .ok { given with descriptor? := some value }
  | .hostLocals =>
      match readHostLocals? value with
      | none => .error .rejected
      | some number =>
          if given.hostLocals?.isSome then .error .rejected
          else .ok { given with hostLocals? := some number }

/-- Takes in an option without a value, or ends the matter. -/
def setSwitch (given : Given) : Switch → Except Invocation Given
  | .isStatic =>
      if given.isStatic then .error .rejected
      else .ok { given with isStatic := true }
  | .buffered =>
      if given.buffered then .error .rejected
      else .ok { given with buffered := true }
  | .block =>
      if given.block then .error .rejected
      else .ok { given with block := true }
  | .version => .error .version
  | .help => .error .help

/-- Takes in an argument that is no option, or ends the matter. -/
def setFragment (given : Given) (fragment : String) :
    Except Invocation Given :=
  if given.fragment?.isSome then .error .rejected
  else .ok { given with fragment? := some fragment }

end Given

/-- How an argument looks. -/
inductive ArgumentForm where
  /-- A lone `--`. -/
  | separator
  /-- An option with a value, which may be attached. -/
  | value (option : ValueOption) (attached? : Option String)
  | switch (switch : Switch)
  /-- An option that is not known, or has a value that it must not have. -/
  | unknown
  /-- No option at all. -/
  | plain

/-- How an option with a long name looks, behind its two dashes. -/
def longForm (text : List Char) : ArgumentForm :=
  let name := String.ofList (text.takeWhile (· != '='))
  let attached? :=
    match text.dropWhile (· != '=') with
    | [] => none
    | _ :: value => some (String.ofList value)
  match name, attached? with
  | "descriptor", attached? => .value .descriptor attached?
  | "host-locals", attached? => .value .hostLocals attached?
  | "static", none => .switch .isStatic
  | "buffered", none => .switch .buffered
  | "block", none => .switch .block
  | "version", none => .switch .version
  | "help", none => .switch .help
  | _, _ => .unknown

/-- How an argument looks.  A lone dash is no option.  Of options with a letter
for a name, the first settles the matter. -/
def argumentForm (argument : String) : ArgumentForm :=
  match argument.toList with
  | ['-'] => .plain
  | ['-', '-'] => .separator
  | '-' :: '-' :: text => longForm text
  | '-' :: 'V' :: _ => .switch .version
  | '-' :: 'h' :: _ => .switch .help
  | '-' :: _ => .unknown
  | _ => .plain

/-- Takes in the arguments behind `--`. -/
def takePlain (given : Given) : List String → Except Invocation Given
  | [] => .ok given
  | argument :: arguments => do
      takePlain (← given.setFragment argument) arguments

/-- Takes in arguments, or stops at the one that settles the matter. -/
def takeArguments (given : Given) : List String → Except Invocation Given
  | [] => .ok given
  | argument :: arguments =>
      match argumentForm argument with
      | .separator => takePlain given arguments
      | .value option (some value) => do
          takeArguments (← given.setValue option value) arguments
      | .value option none =>
          match arguments with
          | [] => .error .rejected
          | value :: arguments =>
              match argumentForm value with
              | .plain => do
                  takeArguments (← given.setValue option value) arguments
              | _ => .error .rejected
      | .switch switch => do
          takeArguments (← given.setSwitch switch) arguments
      | .unknown => .error .rejected
      | .plain => do takeArguments (← given.setFragment argument) arguments

/-- What the arguments ask for. -/
def invocation (arguments : List String) : Invocation :=
  match takeArguments {} arguments with
  | .ok given => .inject given.options
  | .error invocation => invocation

end JvmMethod
