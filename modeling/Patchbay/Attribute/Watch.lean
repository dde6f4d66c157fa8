import Patchbay.Attribute.Sheet

/-!
# Watched sheets

A sheet of attributes with listeners. A listener hears of the attributes it has asked for, or of
all. The listeners of a change are settled before the first one is called; each call may set
attributes in turn, and those changes are announced before the next listener is called.

Nothing keeps two listeners from answering each other for ever, so a run has a limit on how deeply
announcements nest, and one that exceeds it has no result.
-/

namespace Patchbay

/-- A listener with the attributes it asked for; an empty list asks for all. -/
structure Binding (L : Type) where
  listener : L
  names : List String
deriving Repr, Inhabited

/-- One call of a listener, with the attribute's value at that moment. -/
structure Call (L : Type) where
  listener : L
  name : String
  change : Change
  value : List Atom
deriving Inhabited

/-- A sheet of attributes with its listeners in the order of binding. -/
structure Watch (L : Type) where
  sheet : Sheet := []
  bindings : List (Binding L) := []
deriving Inhabited

namespace Watch

/-- What a step has come to: the sheet and the calls made, in order. -/
structure Run (L : Type) where
  sheet : Sheet
  calls : List (Call L)
deriving Inhabited

/-- The value of an attribute at this point. -/
def Run.value {L : Type} (run : Run L) (name : String) : List Atom := run.sheet.value name

end Watch

/-- What listeners do when called: the values that they set, in order. They may go by all that has
happened in the step so far. -/
abbrev Reactions (L : Type) := L → String → Change → Watch.Run L → List (String × List Atom)

namespace Watch

variable {L : Type}

/-- Decide whether a listener asked for an attribute. -/
def wants (binding : Binding L) (name : String) : Bool :=
  binding.names.isEmpty || binding.names.contains name

/-- The listeners that a change of an attribute is announced to. -/
def targets (watch : Watch L) (name : String) : List L :=
  (watch.bindings.filter fun binding => wants binding name).map Binding.listener

/-- Bind a listener; one that is bound already keeps its place and gets the new names. -/
def bind [DecidableEq L] (watch : Watch L) (listener : L) (names : List String) : Watch L :=
  if watch.bindings.any fun binding => binding.listener = listener then
    { watch with bindings := watch.bindings.map fun binding =>
        if binding.listener = listener then { binding with names } else binding }
  else { watch with bindings := watch.bindings ++ [⟨listener, names⟩] }

/-- Unbind a listener. -/
def unbind [DecidableEq L] (watch : Watch L) (listener : L) : Watch L :=
  { watch with bindings := watch.bindings.filter fun binding => binding.listener ≠ listener }

mutual

/-- Announce a change to a list of listeners, one after the other. -/
def announce (watch : Watch L) (react : Reactions L) (depth : Nat) (name : String)
    (change : Change) : List L → Run L → Option (Run L)
  | [], run => some run
  | listener :: rest, run =>
    match depth with
    | 0 => none
    | depth + 1 =>
      let called : Run L :=
        { run with calls := run.calls ++ [⟨listener, name, change, run.sheet.value name⟩] }
      (storeAll watch react depth (react listener name change called) called).bind
        fun run => announce watch react (depth + 1) name change rest run
termination_by listeners => (depth, 0, listeners.length)

/-- Store several values as a listener does, announcing each change. -/
def storeAll (watch : Watch L) (react : Reactions L) (depth : Nat) :
    List (String × List Atom) → Run L → Option (Run L)
  | [], run => some run
  | (name, atoms) :: rest, run =>
    (attempt watch react depth name atoms false run).bind
      fun (run, _) => storeAll watch react depth rest run
termination_by requests => (depth, 2, requests.length)

/-- Store a value and announce the change; the flag tells whether there was one. -/
def attempt (watch : Watch L) (react : Reactions L) (depth : Nat) (name : String)
    (atoms : List Atom) (force : Bool) (run : Run L) : Option (Run L × Bool) :=
  match run.sheet.store? name atoms force with
  | none => some (run, false)
  | some sheet =>
    if sheet.reports name then
      (announce watch react depth name .value (watch.targets name) { run with sheet }).map
        fun run => (run, true)
    else some ({ run with sheet }, true)
termination_by (depth, 1, 0)

end

/-- How deeply announcements may nest. -/
def depthLimit : Nat := 4096

/-- Store a value as an operation does. -/
def put (watch : Watch L) (react : Reactions L) (name : String) (atoms : List Atom) (force : Bool)
    (run : Run L) (limit : Nat := depthLimit) : Option (Run L × Bool) :=
  attempt watch react limit name atoms force run

/-- What an operation on a watched sheet gives: the watched sheet afterwards, the calls made and
whether anything changed. -/
structure Outcome (L : Type) where
  watch : Watch L
  calls : List (Call L)
  changed : Bool
deriving Inhabited

/-- The outcome of a run. -/
def outcome (watch : Watch L) (result : Run L × Bool) : Outcome L :=
  ⟨{ watch with sheet := result.1.sheet }, result.1.calls, result.2⟩

/-- The run that starts from the sheet as it is. -/
def start (watch : Watch L) : Run L := ⟨watch.sheet, []⟩

/-- Set the value of an attribute. -/
def set (watch : Watch L) (react : Reactions L) (name : String) (atoms : List Atom)
    (limit : Nat := depthLimit) : Option (Outcome L) :=
  (put watch react name atoms false watch.start limit).map watch.outcome

/-- Go back to the default of an attribute. -/
def reset (watch : Watch L) (react : Reactions L) (name : String) (limit : Nat := depthLimit) :
    Option (Outcome L) :=
  match watch.sheet.get? name with
  | none => some (watch.outcome (watch.start, false))
  | some attr => (put watch react name attr.default true watch.start limit).map watch.outcome

/-- Go back to all defaults, in the order of declaration. -/
def resetAll (watch : Watch L) (react : Reactions L) (limit : Nat := depthLimit) :
    Option (Outcome L) :=
  (watch.sheet.keys.foldlM (fun (run : Run L) name =>
    match run.sheet.get? name with
    | none => some run
    | some attr => (put watch react name attr.default true run limit).map Prod.fst) watch.start).map
  fun run => watch.outcome (run, true)

/-- Set or clear flags of an attribute; such a change is announced even if the attribute is
silent. -/
def setFlags (watch : Watch L) (react : Reactions L) (name : String) (flags : Flags) (on : Bool)
    (limit : Nat := depthLimit) : Option (Outcome L) :=
  match watch.sheet.setFlags? name flags on with
  | none => some (watch.outcome (watch.start, false))
  | some sheet =>
    (announce watch react limit name .behavior (watch.targets name) ⟨sheet, []⟩).map
      fun run => watch.outcome (run, true)

/-- Restore the attributes that a dico has, with their frozen snapshots. -/
def restore (watch : Watch L) (react : Reactions L) (dico : Dico) (all : Bool)
    (limit : Nat := depthLimit) : Option (Outcome L) :=
  ((watch.sheet.restored dico all).foldlM (fun (run : Run L) name =>
    (put watch react name (dico.get name) true run limit).map fun (run, _) =>
      if (Sheet.frozenNames dico).contains name then
        { run with sheet := run.sheet.freeze name true }
      else run) watch.start).map
  fun run => watch.outcome (run, true)

end Watch

end Patchbay
