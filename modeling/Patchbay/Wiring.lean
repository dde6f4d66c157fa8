/-!
# Inlets, outlets and wires

Boxes are wired from outlets to inlets. An outlet puts out messages or a signal; an inlet takes
messages, a signal or both. A wire is possible when the inlet takes what the outlet puts out.
-/

namespace Patchbay

/-- What an inlet takes. -/
inductive InletKind where
  | control
  | signal
  | both
deriving DecidableEq, Repr, Inhabited

/-- The short name of a kind of inlet. -/
def InletKind.name : InletKind → String
  | control => "control"
  | signal => "signal"
  | both => "both"

/-- An input of a box. A message at a hot inlet makes the box put something out. -/
structure Inlet where
  kind : InletKind
  hot : Bool
  description : String
deriving DecidableEq, Repr, Inhabited

/-- An output of a box. -/
structure Outlet where
  signal : Bool
  description : String
deriving DecidableEq, Repr, Inhabited

namespace Inlet

/-- A hot inlet for messages. -/
def control (description : String) : Inlet := ⟨.control, true, description⟩

/-- A hot inlet for a signal. -/
def signal (description : String) : Inlet := ⟨.signal, true, description⟩

/-- A hot inlet for messages or a signal. -/
def both (description : String) : Inlet := ⟨.both, true, description⟩

/-- The same inlet, but cold. -/
def cold (inlet : Inlet) : Inlet := { inlet with hot := false }

/-- Decide whether messages may arrive. -/
def takesControl (inlet : Inlet) : Bool := inlet.kind != .signal

/-- Decide whether a signal may arrive. -/
def takesSignal (inlet : Inlet) : Bool := inlet.kind != .control

/-- Decide whether the inlet takes what an outlet puts out. -/
def accepts (inlet : Inlet) (outlet : Outlet) : Bool :=
  if outlet.signal then inlet.takesSignal else inlet.takesControl

end Inlet

namespace Outlet

/-- An outlet for messages. -/
def control (description : String) : Outlet := ⟨false, description⟩

/-- An outlet for a signal. -/
def audio (description : String) : Outlet := ⟨true, description⟩

/-- The short name of what the outlet puts out. -/
def kindName (outlet : Outlet) : String := if outlet.signal then "signal" else "control"

end Outlet

/-- A wire from an outlet of one box to an inlet of another. -/
structure Connection where
  source : Nat
  outlet : Nat
  target : Nat
  inlet : Nat
  signal : Bool
deriving DecidableEq, Repr, Inhabited

namespace Connection

/-- Decide whether the wire ends at a box. -/
def touches (connection : Connection) (id : Nat) : Bool :=
  connection.source == id || connection.target == id

/-- Decide whether the wire joins the given outlet and inlet. -/
def joins (connection : Connection) (source outlet target inlet : Nat) : Bool :=
  connection.source == source && connection.outlet == outlet && connection.target == target &&
    connection.inlet == inlet

end Connection

end Patchbay
