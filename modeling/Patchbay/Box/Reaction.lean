import Patchbay.Attribute.Sheet
import Patchbay.Wiring
import Patchbay.Timeline.Basic

/-!
# Reactions

What a box does on a message or on a tick of its clock. It changes its own state at once and then
asks for effects, which are carried out in order; each is finished, with all that follows from it,
before the next begins. So a box that hears from itself on the way finds its new state.
-/

namespace Patchbay

/-- An edit that a box asks of the patch it is in. -/
inductive Edit where
  | remove (id : Nat)
  | connect (source outlet target inlet : Nat)
  | disconnect (source outlet target inlet : Nat)
  | create (words : List Atom)
  | clear
deriving Inhabited

/-- Something that a box asks for. -/
inductive Effect where
  /-- Send a message out of an outlet of the box. -/
  | send (outlet : Nat) (atoms : List Atom)
  /-- Broadcast a message on the beacon of a number. -/
  | broadcast (beacon : Nat) (atoms : List Atom)
  /-- Print a line. -/
  | print (line : String)
  /-- Have the box ticked after a wait, by the clock of the given generation. -/
  | tickAfter (clock wait : Nat)
  /-- Edit the patch. -/
  | edit (edit : Edit)
deriving Inhabited

/-- Whether a message was understood: known at once, or decided by the first effect. -/
inductive Verdict where
  | known (understood : Bool)
  | asFirstEffect
deriving DecidableEq, Repr, Inhabited

/-- The reaction of a box with states in `M`. -/
structure Reaction (M : Type) where
  state : M
  sheet : Sheet
  effects : List Effect := []
  verdict : Verdict := .known true
deriving Inhabited

namespace Reaction

variable {M : Type}

/-- Do nothing, and understand nothing. -/
def ignore (state : M) (sheet : Sheet) : Reaction M := ⟨state, sheet, [], .known false⟩

/-- View a reaction with states in another type. -/
def map {N : Type} (f : M → N) (reaction : Reaction M) : Reaction N :=
  { reaction with state := f reaction.state }

end Reaction

/-- What a box knows when it reacts. -/
structure Surroundings where
  id : Nat
  /-- Whether the box is in its patch. -/
  alive : Bool
  now : Nat
  sheet : Sheet
deriving Inhabited

/-- What a box being built is given. -/
structure Site where
  /-- The name it is created under. -/
  name : String
  arguments : List Atom
  /-- The keys of the description it is created from. -/
  keys : List String
  id : Nat
deriving Inhabited

/-- What a box being built needs from the studio, whose number it is then told. -/
inductive Service where
  | none
  /-- The beacon of a name, to broadcast on. -/
  | speak (beacon : String)
  /-- The beacon of a name, to be bound to. -/
  | listen (beacon : String)
  | clock
deriving DecidableEq, Repr, Inhabited

/-- The plan of a box: its inlets and outlets, its attributes besides the common ones, and its
state, given the number of the service it needs. -/
structure Plan (M : Type) where
  inlets : List Inlet := []
  outlets : List Outlet := []
  attributes : List Attribute := []
  service : Service := .none
  state : Nat → M

namespace Site

/-- A creation argument, or nothing. -/
def argument (site : Site) (index : Nat) : Atom := site.arguments[index]?.getD .undefined

/-- A numeric creation argument. -/
def number? (site : Site) (index : Nat) : Option Float :=
  let atom := site.argument index
  if atom.isNumber then some atom.toDouble else none

end Site

/-- The message that starts things. -/
def bang : Atom := .symbol "bang"

/-- Decide whether an atom is a given word. -/
def Atom.isWord (word : String) : Atom → Bool
  | .symbol text => text == word
  | _ => false

end Patchbay
