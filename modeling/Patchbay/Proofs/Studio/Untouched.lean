import Patchbay.Proofs.Number.ReadBack
import Patchbay.Proofs.Patch.Counterpart
import Patchbay.Proofs.Studio.Loading

/-!
# Boxes as they were built

The states that boxes are given when they are built from finite numbers and symbols. A number that is
written in the text of a box comes back exactly, so that two boxes with the same text which are as they
were built compute the same signals. Boxes stay so while a patch is edited that does not run: edits only
take boxes away, or change their attributes.
-/

namespace Patchbay

/-- Decide whether an atom is a finite number or a symbol. -/
def Atom.isPlain : Atom → Bool
  | .long _ | .symbol _ => true
  | .double x _ => x.isFinite
  | .undefined | .bool _ | .vector _ | .dico _ _ => false

namespace Atom

/-- Every double is read back from its numeral, so that no atom is lost. -/
theorem readsBack_eq_true (atom : Atom) : atom.readsBack = true := by
  cases atom with
  | double x minus => exact decide_eq_true (Numeral.readsBack x)
  | undefined | bool | long | symbol | vector | dico => rfl

/-- This is so for everything that is inside an atom. -/
theorem every_readsBack (atom : Atom) : atom.every Atom.readsBack = true := by
  induction atom using Atom.induction with
  | undefined | bool | long | symbol => rfl
  | double x minus => exact readsBack_eq_true (.double x minus)
  | vector items ih => exact every_vector.mpr ⟨rfl, ih⟩
  | dico entries identity ih => exact every_dico.mpr ⟨rfl, ih⟩

/-- A finite number or a symbol is one token. -/
theorem token_of_isPlain {atom : Atom} (h : atom.isPlain = true) : Words.Token atom := by
  cases atom with
  | long n => exact .long n
  | symbol text => exact .symbol text
  | double x minus => exact .double x minus
  | undefined | bool | vector | dico => cases h

/-- It is still one when it is read back. -/
theorem isPlain_reread {atom : Atom} (h : atom.isPlain = true) :
    (Words.reread atom).isPlain = true := by
  cases atom with
  | long | symbol => rfl
  | double x minus =>
    rcases Words.ofWord_atomDouble h (Numeral.readsBack x) with hdouble | ⟨n, hlong, -⟩
    · rw [Words.reread, hdouble]
      exact h
    · rw [Words.reread, hlong]
      rfl
  | undefined | bool | vector | dico => cases h

end Atom

/-! ### States -/

namespace Audio

/-- A finite number or a symbol that is read back gives the same sample, or none as before. -/
theorem sampleOf?_reread {atom : Atom} (h : atom.isPlain = true) :
    sampleOf? (Words.reread atom) = sampleOf? atom := by
  cases atom with
  | long | symbol => rfl
  | double x minus =>
    have hnumber : (Atom.double x minus).isMinusNaN = false := by
      rw [Atom.isMinusNaN, Double.isNaN_of_isFinite h, Bool.and_false]
    have hsample : sampleOf? (.double x minus) = some (.ofDouble x) := by
      rw [sampleOf?, hnumber]
      rfl
    rw [hsample, Words.reread]
    rcases Words.ofWord_atomDouble h (Numeral.readsBack x) with hdouble | ⟨n, hlong, hvalue⟩
    · rw [hdouble]
      rfl
    · rw [hlong, ← hvalue]
      rfl
  | undefined | bool | vector | dico => cases h

/-- So does an argument of a box. -/
theorem sampleArgument_reread {site later : Site}
    (hplain : ∀ atom ∈ site.arguments, atom.isPlain = true)
    (hlater : later.arguments = site.arguments.map Words.reread) (index : Nat) (other : Sample) :
    sampleArgument later index other = sampleArgument site index other := by
  rw [sampleArgument, sampleArgument, Site.argument_reread hlater, Site.argument]
  cases hatom : site.arguments[index]? with
  | none => rfl
  | some atom => rw [Option.getD_some, sampleOf?_reread (hplain atom (List.mem_of_getElem? hatom))]

end Audio

/-- Arguments that are finite numbers and symbols, read back, build a box with a state that computes the
same signals, whatever the services that the boxes are given. -/
theorem Model.agrees_reread {model : Model} {site later : Site} {plan again : Plan Machine}
    (hbuiltin : model.isBuiltin = true) (hplan : model.plan site = .ok plan)
    (hagain : model.plan later = .ok again)
    (hplain : ∀ atom ∈ site.arguments, atom.isPlain = true)
    (hlater : later.arguments = site.arguments.map Words.reread) (service number : Nat) :
    (again.state service).Agrees (plan.state number) := by
  have hargument := Audio.sampleArgument_reread hplain hlater 0
  cases model with
  | plus | times | print | pass | delay | metro =>
    obtain rfl := Except.ok.inj hplan
    obtain rfl := Except.ok.inj hagain
    exact Or.inr ⟨rfl, rfl⟩
  | constant | oscillator | timesSignal | plusSignal =>
    obtain rfl := Except.ok.inj hplan
    obtain rfl := Except.ok.inj hagain
    simp only [Plan.map, Audio.planConstant, Audio.planOscillator, Audio.planCombine, hargument]
    exact Or.inl rfl
  | speaker | hearer =>
    obtain ⟨before, hbefore, rfl⟩ := exists_of_map_eq_ok hplan
    obtain ⟨after, hafter, rfl⟩ := exists_of_map_eq_ok hagain
    exact Or.inr ⟨rfl, rfl⟩
  | input | output =>
    obtain ⟨before, hbefore, rfl⟩ := exists_of_map_eq_ok hplan
    obtain ⟨channels, hchannels, rfl⟩ := exists_of_map_eq_ok hbefore
    simp only [Model.plan, Audio.planInput, Audio.planOutput,
      Audio.channels_reread hchannels hlater] at hagain
    obtain rfl := Except.ok.inj hagain
    exact Or.inl rfl
  | idle | twin | late | agent | panel => exact absurd hbuiltin (by decide)

/-! ### Boxes as they were built -/

/-- A box is as it was built, by what its name stands for and from arguments that are finite numbers and
symbols. -/
def Box.Untouched (catalog : Catalog) (box : Box) : Prop :=
  ∃ registration site plan number, catalog.get? box.name = some registration ∧
    registration.model.plan site = .ok plan ∧
    (∀ atom ∈ site.arguments, atom.isPlain = true) ∧
    box.text = String.ofList (Words.write (.symbol box.name :: site.arguments)) ∧
    box.machine = plan.state number

/-- The text of a box that is as it was built is read as its name and its arguments. -/
theorem Box.read_text {box : Box} {site : Site}
    (hplain : ∀ atom ∈ site.arguments, atom.isPlain = true)
    (htext : box.text = String.ofList (Words.write (.symbol box.name :: site.arguments))) :
    Words.read box.text.toList = .symbol box.name :: site.arguments.map Words.reread := by
  have htokens : ∀ atom ∈ Atom.symbol box.name :: site.arguments, Words.Token atom :=
    List.forall_mem_cons.mpr ⟨.symbol _, fun atom hatom => Atom.token_of_isPlain (hplain atom hatom)⟩
  rw [htext, String.toList_ofList, Words.read_write htokens, List.map_cons, Words.reread]

namespace Box.Untouched

variable {catalog : Catalog} {copy box : Box}

/-- What is spoken in its text are finite numbers and symbols. -/
theorem isPlain_read (h : box.Untouched catalog) :
    ∀ atom ∈ Words.read box.text.toList, atom.isPlain = true := by
  obtain ⟨_, site, _, _, -, -, hplain, htext, -⟩ := h
  rw [Box.read_text hplain htext, List.forall_mem_cons, List.forall_mem_map]
  exact ⟨rfl, fun atom hatom => Atom.isPlain_reread (hplain atom hatom)⟩

/-- Two boxes with the same text that are as they were built compute the same signals: both compute what
their text does when it is read once more. -/
theorem agrees (hcopy : copy.Untouched catalog) (hbox : box.Untouched catalog)
    (htext : copy.text = box.text) (hbuiltin : box.isBuiltin catalog = true) :
    copy.machine.Agrees box.machine := by
  obtain ⟨registration, site, plan, number, hget, hplan, hplain, hspoken, hmachine⟩ := hbox
  obtain ⟨registrationCopy, siteCopy, planCopy, service, hgetCopy, hplanCopy, hplainCopy, hspokenCopy,
    hmachineCopy⟩ := hcopy
  have hread := Box.read_text hplainCopy hspokenCopy
  rw [htext, Box.read_text hplain hspoken] at hread
  obtain ⟨hname, harguments⟩ := List.cons.inj hread
  rw [← Atom.symbol.inj hname, hget] at hgetCopy
  obtain rfl := Option.some.inj hgetCopy
  rw [Box.isBuiltin, hget, Option.any_some] at hbuiltin
  let again : Site := ⟨box.name, site.arguments.map Words.reread, [], 0⟩
  obtain ⟨planAgain, hagain, -⟩ := Model.plan_reread hbuiltin hplan (rfl : again.arguments = _)
  have hfirst := Model.agrees_reread hbuiltin hplan hagain hplain rfl 0 number
  have hsecond := Model.agrees_reread hbuiltin hplanCopy hagain hplainCopy harguments 0 service
  rw [hmachine, hmachineCopy]
  exact hsecond.symm.trans hfirst

end Box.Untouched

/-- Copies of boxes compute the same signals as they do if all of them are as they were built. -/
theorem Box.counterparts_of_copies {catalog : Catalog} {place : Nat → Nat} {copies boxes : List Box}
    (h : List.Forall₂ (Copy place) copies boxes) (hcopies : ∀ copy ∈ copies, copy.Untouched catalog)
    (hboxes : ∀ box ∈ boxes, box.Untouched catalog)
    (hbuiltin : ∀ box ∈ boxes, box.isBuiltin catalog = true) :
    List.Forall₂ (Counterpart place) copies boxes := by
  induction h with
  | nil => exact .nil
  | cons hcopy _ ih =>
    rw [List.forall_mem_cons] at hcopies hboxes hbuiltin
    have hagrees := hcopies.1.agrees hboxes.1 hcopy.text hbuiltin.1
    exact .cons ⟨hcopy.id, hcopy.inlets, hcopy.outlets, hagrees⟩
      (ih hcopies.2 hboxes.2 hbuiltin.2)

/-! ### Patches as they were built -/

namespace Patch

/-- The boxes of a patch are as they were built, and signal processing is in a given state. -/
structure Untouched (catalog : Catalog) (engine : Engine) (patch : Patch) : Prop where
  boxes : ∀ box ∈ patch.boxes, box.Untouched catalog
  engine : patch.engine = engine

/-- A patch holds only boxes that another holds, maybe with other attributes, and signal processing is in
the same state. -/
structure Holds (patch later : Patch) : Prop where
  boxes : ∀ box ∈ later.boxes, ∃ old ∈ patch.boxes, ∃ sheet, box = { old with sheet }
  engine : later.engine = patch.engine

variable {catalog : Catalog} {engine : Engine} {patch later : Patch}

/-- A patch holds what it holds. -/
theorem Holds.of_subset (hboxes : later.boxes ⊆ patch.boxes) (hengine : later.engine = patch.engine) :
    patch.Holds later :=
  ⟨fun box hbox => ⟨box, hboxes hbox, box.sheet, rfl⟩, hengine⟩

/-- In a patch that has not been started all boxes have places of their own. -/
theorem Wired.placed (h : patch.Wired) (hfits : patch.Fits)
    (hnone : patch.engine.chain? = none) (start : Nat) : patch.Placed (patch.placeFrom start) where
  apart := (h.finds hfits start).apart
  nodup := h.nodup
  wires wire hwire := (h.sits wire hwire).ends
  steps := by
    rw [hnone]
    rintro _ ⟨⟩

/-- Attributes do not tell whether a box is as it was built. -/
theorem Holds.untouched (h : patch.Holds later) (huntouched : patch.Untouched catalog engine) :
    later.Untouched catalog engine where
  boxes := by
    intro box hbox
    obtain ⟨old, hold, sheet, rfl⟩ := h.boxes box hbox
    exact huntouched.boxes old hold
  engine := h.engine.trans huntouched.engine

/-- Unless signal processing runs there is no chain to be made anew. -/
theorem rebuildIf_of_idle (patch : Patch) (h : patch.engine.running = false) (signal : Bool) :
    patch.rebuildIf signal = patch := by
  unfold rebuildIf rebuild
  rw [h]
  cases signal <;> rfl

/-- A change of the attributes of a box leaves the patch with what it holds. -/
theorem holds_updateSheet (patch : Patch) (id : Nat) (change : Box → Sheet) :
    patch.Holds (patch.updateBox id fun box => { box with sheet := change box }) := by
  refine ⟨fun box hbox => ?_, rfl⟩
  obtain ⟨old, hold, rfl⟩ := List.mem_map.mp hbox
  by_cases hid : old.id = id
  · exact ⟨old, hold, change old, if_pos hid⟩
  · exact ⟨old, hold, old.sheet, if_neg hid⟩

/-- Removing a box, while signal processing does not run, leaves nothing but other boxes. -/
theorem holds_remove (hidle : patch.engine.running = false) {id : Nat}
    (h : patch.remove id = .ok later) : patch.Holds later := by
  obtain ⟨box, -, rfl⟩ := remove_eq_ok h
  rw [rebuildIf_of_idle (patch.without id) hidle]
  exact .of_subset List.filter_sublist.subset rfl

/-- Removing all of them leaves none. -/
theorem holds_clear (hidle : patch.engine.running = false) : patch.Holds patch.clear := by
  have hsame := rebuildIf_of_idle { patch with boxes := [], connections := [] } hidle true
  rw [clear, hsame]
  exact .of_subset (List.nil_subset _) rfl

/-- Drawing a wire leaves the boxes as they are. -/
theorem holds_connect (hidle : patch.engine.running = false) {source outlet target inlet : Nat}
    (h : patch.connect source outlet target inlet = .ok later) : patch.Holds later := by
  obtain ⟨signal, -, rfl⟩ := connect_eq_ok h
  rw [rebuildIf_of_idle (patch.withWire _) hidle]
  exact .of_subset (List.Subset.refl _) rfl

/-- So does taking one away. -/
theorem holds_disconnect (hidle : patch.engine.running = false) {source outlet target inlet : Nat}
    (h : patch.disconnect source outlet target inlet = .ok later) : patch.Holds later := by
  obtain ⟨wire, -, rfl⟩ := disconnect_eq_ok h
  rw [rebuildIf_of_idle (patch.withoutWire _ _ _ _) hidle]
  exact .of_subset (List.Subset.refl _) rfl

/-- Putting in a box that is as it was built leaves all of them so. -/
theorem Untouched.install (h : patch.Untouched catalog engine)
    (hidle : patch.engine.running = false) {box : Box} (hbox : box.Untouched catalog) :
    (patch.install box).Untouched catalog engine := by
  have hsame := rebuildIf_of_idle { patch with boxes := patch.boxes ++ [box] } hidle box.hasSignals
  rw [Patch.install, hsame]
  exact ⟨List.forall_mem_append.mpr ⟨h.boxes, List.forall_mem_singleton.mpr hbox⟩, h.engine⟩

end Patch

end Patchbay
