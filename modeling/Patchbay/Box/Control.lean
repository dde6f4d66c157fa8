import Patchbay.Box.Operator
import Patchbay.Box.Reaction

/-!
# Control boxes

Arithmetic, printing and passing on.
-/

namespace Patchbay

/-- A control box with its state. -/
inductive Control where
  /-- Combine each number with the right operand, and remember the last result. -/
  | arithmetic (operator : Operator) (right last : Atom)
  /-- Print each message behind a label. -/
  | print (label : String)
  /-- Pass each message on. -/
  | pass
deriving Inhabited

namespace Control

/-- Plan an arithmetic box; its argument is the right operand. -/
def planArithmetic (operator : Operator) (site : Site) : Plan Control :=
  let argument := site.argument 0
  { inlets := [.control "left operand, outputs", (Inlet.control "right operand").cold]
    outlets := [.control "result"]
    state := fun _ =>
      .arithmetic operator (if argument.isNumber then argument else .long 0) (.long 0) }

/-- Plan a printing box; its arguments are the label. -/
def planPrint (site : Site) : Plan Control :=
  { inlets := [.control "anything to print"]
    state := fun _ =>
      .print (if site.arguments.isEmpty then "print"
        else String.ofList (Words.write site.arguments)) }

/-- Plan a box that passes messages on. -/
def planPass : Plan Control :=
  { inlets := [.control "anything"]
    outlets := [.control "the same message"]
    state := fun _ => .pass }

/-- The line that a printing box prints. -/
def printed (label : String) (atoms : List Atom) : String :=
  String.ofList (label.toList ++ ": ".toList ++ Words.write atoms)

/-- React to a message. The left inlet of an arithmetic box takes numbers, of which the second is
the right operand, and a bang, which repeats the last result. -/
def receive (here : Surroundings) (inlet : Nat) (atoms : List Atom) (control : Control) :
    Reaction Control :=
  match control, atoms with
  | .print label, _ =>
    { state := control, sheet := here.sheet, effects := [.print (printed label atoms)] }
  | .pass, _ => { state := control, sheet := here.sheet, effects := [.send 0 atoms] }
  | .arithmetic _ _ _, [] => .ignore control here.sheet
  | .arithmetic operator right last, first :: rest =>
    if inlet = 1 then
      if first.isNumber then
        { state := .arithmetic operator first last, sheet := here.sheet }
      else .ignore control here.sheet
    else if first.isWord "bang" then
      { state := control, sheet := here.sheet, effects := [.send 0 [last]] }
    else if first.isNumber then
      let right := match rest.head?.filter Atom.isNumber with
        | some second => second
        | none => right
      let result := operator.apply first right
      { state := .arithmetic operator right result, sheet := here.sheet
        effects := [.send 0 [result]] }
    else .ignore control here.sheet

end Control

end Patchbay
