/-!
# Labels

A label is a handle for a position in a method body.  It is handed out before
the position is known, so that code may branch forward, and it is placed later
(or never).  Labels of one method are numbered densely from zero.

The number has no bound here.  A table of labels knows the numbers below its size,
and hands out its size next, so 32 bits are enough for every number in a method with
fewer than `2 ^ 32` labels.
-/

namespace JvmMethod

/-- A label of a method body, known by its number. -/
structure Label where
  index : Nat
  deriving DecidableEq

/-- How a label is written: `l0`, `l1`, … -/
def Label.text (label : Label) : String :=
  "l" ++ toString label.index

end JvmMethod
