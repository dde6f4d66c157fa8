import Patchbay.Keyed

/-!
# TOML documents

A document is a table of keys with values, where a value may be a table again. Tables come about in
several ways: by a header, by being on the path of a longer header, by a dotted key, or in one line
between braces. The way matters, because no table may be defined twice, and a table made in one way
cannot always be added to in another.
-/

namespace Patchbay.Toml

/-- How a table came about. -/
inductive Origin where
  /-- It was on the path of a header and has no header of its own yet. -/
  | implied
  /-- It was on the path of a dotted key. -/
  | dotted
  /-- It has a header, or is the document itself. -/
  | defined
deriving DecidableEq, Repr, Inhabited

/-- A value in a document. -/
inductive Node where
  | text (value : String)
  | integer (value : Int64)
  | decimal (value : Float)
  | boolean (value : Bool)
  /-- A date, a time, or both, as it is written. -/
  | moment (written : String)
  | array (items : List Node)
  /-- A table in one line, which is complete. -/
  | inline (entries : List (String × Node))
  | table (origin : Origin) (entries : List (String × Node))
  /-- Several tables under headers of one name, in order. -/
  | tables (all : List (List (String × Node)))
deriving Inhabited

/-- The entries of a table. -/
abbrev Entries := Keyed Node

/-- Change the table at the end of a path. Tables that are missing on the way are made, with the
given origin. A path leads through the last of several tables of one name. Dotted keys may not lead
through a table that has a header. -/
def descend (making : Origin) (change : Origin → Entries → Option Entries) :
    List String → Origin → Entries → Option Entries
  | [], origin, entries => change origin entries
  | key :: path, _, entries =>
    let put (node : Node) : Entries := entries.set key node
    match entries.get? key with
    | none => (descend making change path making []).map fun inner => put (.table making inner)
    | some (.table origin inner) =>
      if making = .dotted ∧ origin = .defined then none
      else (descend making change path origin inner).map fun inner => put (.table origin inner)
    | some (.tables all) =>
      match all.getLast? with
      | none => none
      | some last =>
        (descend making change path .defined last).map fun last =>
          put (.tables (all.dropLast ++ [last]))
    | some _ => none

/-- Store a value under a dotted key of a table. The table that the key ends in must have come about
by dotted keys, or be the given table itself. -/
def store (key : List String) (value : Node) (origin : Origin) (entries : Entries) :
    Option Entries :=
  match key.getLast? with
  | none => none
  | some last =>
    let path := key.dropLast
    let change (origin : Origin) (entries : Entries) : Option Entries :=
      if (origin == .dotted) == path.isEmpty || entries.has last then none
      else some (entries.set last value)
    descend .dotted change path origin entries

/-- Open the table of a header. -/
def openTable (header : List String) (document : Entries) : Option Entries :=
  match header.getLast? with
  | none => none
  | some last =>
    let change (_ : Origin) (entries : Entries) : Option Entries :=
      match entries.get? last with
      | none => some (entries.set last (.table .defined []))
      | some (.table .implied inner) => some (entries.set last (.table .defined inner))
      | some _ => none
    descend .implied change header.dropLast .defined document

/-- Open one more table of a header of which there may be several. -/
def openNext (header : List String) (document : Entries) : Option Entries :=
  match header.getLast? with
  | none => none
  | some last =>
    let change (_ : Origin) (entries : Entries) : Option Entries :=
      match entries.get? last with
      | none => some (entries.set last (.tables [[]]))
      | some (.tables all) => some (entries.set last (.tables (all ++ [[]])))
      | some _ => none
    descend .implied change header.dropLast .defined document

end Patchbay.Toml
