/-!
# Keyed entries in insertion order

A list of entries with a name each, kept in the order in which the names first appeared. Storing
under a name that is present replaces the value where it stands; a new name goes to the end.
-/

namespace Patchbay

/-- Entries with their keys, in insertion order. -/
abbrev Keyed (α : Type) := List (String × α)

namespace Keyed

variable {α : Type}

/-- The value stored under a key. -/
def get? : Keyed α → String → Option α
  | [], _ => none
  | (name, value) :: rest, key => if name = key then some value else get? rest key

/-- Decide whether a key has an entry. -/
def has (entries : Keyed α) (key : String) : Bool := (entries.get? key).isSome

/-- The keys in order. -/
def keys (entries : Keyed α) : List String := entries.map Prod.fst

/-- Store a value under a key: in its place if the key is present, at the end otherwise. -/
def set : Keyed α → String → α → Keyed α
  | [], key, value => [(key, value)]
  | (name, old) :: rest, key, value =>
    if name = key then (name, value) :: rest else (name, old) :: set rest key value

/-- Change the value stored under a key, if there is one. -/
def modify : Keyed α → String → (α → α) → Keyed α
  | [], _, _ => []
  | (name, value) :: rest, key, change =>
    if name = key then (name, change value) :: rest else (name, value) :: modify rest key change

/-- Remove the entry of a key; the others keep their order. -/
def erase : Keyed α → String → Keyed α
  | [], _ => []
  | (name, value) :: rest, key =>
    if name = key then rest else (name, value) :: erase rest key

/-- Store every entry of `more` in order. -/
def merge (entries more : Keyed α) : Keyed α :=
  more.foldl (fun entries entry => entries.set entry.1 entry.2) entries

/-- Store a list of entries in order, starting from none; a repeated key keeps its first place and
its last value. -/
def ofList (entries : List (String × α)) : Keyed α := merge [] entries

/-- A key just stored holds the stored value. -/
theorem get?_set_self (entries : Keyed α) (key : String) (value : α) :
    (entries.set key value).get? key = some value := by
  induction entries with
  | nil => simp [set, get?]
  | cons entry rest ih =>
    obtain ⟨name, old⟩ := entry
    by_cases h : name = key <;> simp [set, get?, h, ih]

/-- Storing under one key leaves the others alone. -/
theorem get?_set_of_ne (entries : Keyed α) {key other : String} (value : α) (h : key ≠ other) :
    (entries.set key value).get? other = entries.get? other := by
  induction entries with
  | nil => simp [set, get?, h]
  | cons entry rest ih =>
    obtain ⟨name, old⟩ := entry
    by_cases hn : name = key
    · subst hn; simp [set, get?, h]
    · simp [set, get?, hn, ih]

end Keyed

end Patchbay
