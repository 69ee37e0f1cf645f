import JvmMethod.Script

/-!
# Transforms

A transform decides for every element what is pushed instead: the element
itself, something else, more, or nothing.  It does so with a builder at hand, so
it may also ask for labels and local slots, and it has hooks for before the
first and after the last element.

* `Script.through` is the layer of a transform: pushes become what the transform
  makes of them.
* `Transform.andThen` feeds what one transform pushes into another.  The hooks
  nest: the second transform starts before the first and ends after it.
* `Transform.acceptAll` changes nothing.
-/

namespace JvmMethod

variable {ω σ α : Type}

/-- What to do with a stream of elements. -/
structure Transform (ω : Type) where
  accept : Element → Build ω Unit
  atStart : Build ω Unit := pure ()
  atEnd : Build ω Unit := pure ()

/-- Runs a script over a layer in which every push becomes a script of its
own. -/
def Script.through (layer : Layer)
    (accept : Element → Script ω (Except Fault Unit)) :
    Script ω α → Script ω α
  | .done result => .done result
  | .ask (.push element) next =>
      (accept element).bind fun answer => (next answer).through layer accept
  | .ask .layers next =>
      .ask .layers fun layers =>
        (next (layer :: layers)).through layer accept
  | .ask request next =>
      .ask request fun answer => (next answer).through layer accept
  | .read next => .read fun state => (next state).through layer accept
  | .change f next => .change f (next.through layer accept)

namespace Transform

/-- Works on the input of a transform. -/
def input (transform : Transform ω) (layer : Layer) (body : Build ω α) :
    Build ω α :=
  ExceptT.mk
    (body.run.through layer fun element => (transform.accept element).run)

/-- The transform that pushes everything as it is. -/
def acceptAll : Transform ω where
  accept := Build.push

/-- The transform whose output goes through another one. -/
def andThen (first second : Transform ω) : Transform ω where
  accept element := second.input .transforming (first.accept element)
  atStart := do
    second.atStart
    second.input .transforming first.atStart
  atEnd := do
    second.input .transforming first.atEnd
    second.atEnd

/-- Lets a transform that knows a part of the state work on the whole. -/
def zoom (focus : Focus ω σ) (transform : Transform σ) : Transform ω where
  accept element := (transform.accept element).zoom focus
  atStart := transform.atStart.zoom focus
  atEnd := transform.atEnd.zoom focus

end Transform

end JvmMethod
