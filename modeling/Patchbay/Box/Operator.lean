import Patchbay.Atom.Basic
import Patchbay.Signal.Sample

/-!
# Operators

The operations that boxes apply, to numbers in messages and to samples. A sum or product of two
integers is an integer and wraps around; any other is computed in doubles. Samples stay samples.
-/

namespace Patchbay

/-- An operation on two operands. -/
inductive Operator where
  | add
  | multiply
deriving DecidableEq, Repr, Inhabited

namespace Operator

/-- Apply an operation to two numbers. -/
def apply (operator : Operator) : Atom → Atom → Atom
  | .long a, .long b =>
    .long (match operator with
      | .add => a + b
      | .multiply => a * b)
  | a, b =>
    .double (match operator with
      | .add => a.toDouble + b.toDouble
      | .multiply => a.toDouble * b.toDouble)

/-- Apply an operation to two samples. -/
def applySample (operator : Operator) (a b : Sample) : Sample :=
  match operator with
  | .add => a.add b
  | .multiply => a.multiply b

/-- The operand that changes nothing. -/
def neutral : Operator → Sample
  | .add => .zero
  | .multiply => .one

end Operator

end Patchbay
