import Patchbay.Box.Machine

/-!
# Catalogs

The names under which boxes can be built. The first registration of a name stays. An alias stands
for what its target stands for when the alias is made, and is not listed among the descriptions.
-/

namespace Patchbay

/-- The category of a box in listings. -/
inductive Category where
  | control
  | signal
  | timing
  | communication
deriving DecidableEq, Repr, Inhabited

/-- The name of a category. -/
def Category.name : Category → String
  | control => "Control"
  | signal => "Signal"
  | timing => "Timing"
  | communication => "Communication"

/-- The description of a box that can be built. -/
structure Descriptor where
  name : String
  description : String
  category : Category
deriving DecidableEq, Repr, Inhabited

/-- What a name stands for. -/
structure Registration where
  descriptor : Descriptor
  model : Model
  aliasOf? : Option String := none
deriving DecidableEq, Repr, Inhabited

/-- Registrations by name, in order. -/
abbrev Catalog := Keyed Registration

namespace Catalog

/-- Register a box under the name in its description; nothing if the name is taken. -/
def register? (catalog : Catalog) (descriptor : Descriptor) (model : Model) : Option Catalog :=
  if catalog.has descriptor.name then none
  else some (catalog.set descriptor.name { descriptor, model })

/-- Make a name stand for what another stands for; nothing if the name is taken or the other is not
known. -/
def alias? (catalog : Catalog) (name target : String) : Option Catalog :=
  if catalog.has name then none
  else (catalog.get? target).map fun registration =>
    catalog.set name { registration with aliasOf? := some target }

/-- The description of a name; an alias has that of its target. -/
def descriptor? (catalog : Catalog) (name : String) : Option Descriptor :=
  (catalog.get? name).map Registration.descriptor

/-- The descriptions of everything registered, without aliases. -/
def descriptors (catalog : Catalog) : List Descriptor :=
  ((catalog.map Prod.snd).filter fun registration => registration.aliasOf?.isNone).map
    Registration.descriptor

/-- The descriptions in one category. -/
def inCategory (catalog : Catalog) (category : Category) : List Descriptor :=
  catalog.descriptors.filter fun descriptor => descriptor.category = category

/-- The boxes that every studio knows. -/
def builtins : List (Descriptor × Model) := [
  (⟨"+", "Adds the right operand to the left", .control⟩, .plus),
  (⟨"*", "Multiplies the left operand by the right", .control⟩, .times),
  (⟨"print", "Logs messages to the console", .control⟩, .print),
  (⟨"pass", "Outputs what it receives", .control⟩, .pass),
  (⟨"send", "Broadcasts messages on a named beacon", .communication⟩, .speaker),
  (⟨"receive", "Outputs messages broadcast on a named beacon", .communication⟩, .hearer),
  (⟨"delay", "Bangs after a delay", .timing⟩, .delay),
  (⟨"metro", "Bangs repeatedly", .timing⟩, .metro),
  (⟨"sig~", "Converts a number to a constant signal", .signal⟩, .constant),
  (⟨"osc~", "Cosine oscillator", .signal⟩, .oscillator),
  (⟨"*~", "Multiplies signals", .signal⟩, .timesSignal),
  (⟨"+~", "Adds signals", .signal⟩, .plusSignal),
  (⟨"adc~", "Reads external input channels", .signal⟩, .input),
  (⟨"dac~", "Writes external output channels", .signal⟩, .output)]

/-- Short names for boxes that every studio knows. -/
def shortNames : List (String × String) := [("s", "send"), ("r", "receive")]

/-- Register what every studio knows, and count the names that this adds. -/
def addBuiltins (catalog : Catalog) : Catalog × Nat :=
  let named := builtins.foldl (fun (catalog, added) (descriptor, model) =>
    match catalog.register? descriptor model with
    | some catalog => (catalog, added + 1)
    | none => (catalog, added)) (catalog, 0)
  shortNames.foldl (fun (catalog, added) (name, target) =>
    match catalog.alias? name target with
    | some catalog => (catalog, added + 1)
    | none => (catalog, added)) named

/-- The catalog of what every studio knows. -/
def standard : Catalog := (addBuiltins []).1

/-- The description of a box for trying things out. -/
def benchDescriptor (name : String) (category : Category) : Descriptor :=
  ⟨name, "test object", category⟩

/-- The bench boxes. -/
def benchModels : List (String × Model) :=
  [("idle~", .idle), ("twin~", .twin), ("late~", .late), ("agent", .agent), ("panel", .panel)]

/-- The standard catalog with the bench boxes. -/
def withBench : Catalog :=
  benchModels.foldl (fun catalog (name, model) =>
    (catalog.register? (benchDescriptor name .control) model).getD catalog) standard

end Catalog

end Patchbay
