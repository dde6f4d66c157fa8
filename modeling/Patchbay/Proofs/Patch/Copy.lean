import Patchbay.Proofs.Studio.Revision

/-!
# Copies of boxes and wires

A patch with other numbers for its boxes, and what it takes for another patch to be saved like it: boxes
that are copies of its boxes one by one, and the same wires between them. Wires that sit between boxes
can be drawn between their copies.
-/

namespace Patchbay

/-- The places of different numbers are different. -/
def Apart (place : Nat → Nat) (ids : List Nat) : Prop :=
  ∀ first ∈ ids, ∀ second ∈ ids, place first = place second → first = second

/-- The wire between boxes that have other numbers. -/
def Connection.renumber (place : Nat → Nat) (wire : Connection) : Connection :=
  { wire with source := place wire.source, target := place wire.target }

/-- What is saved of a wire. -/
def Connection.entries (wire : Connection) : Dico :=
  [("from", [.long (Int64.ofNat wire.source), .long (Int64.ofNat wire.outlet)]),
    ("to", [.long (Int64.ofNat wire.target), .long (Int64.ofNat wire.inlet)])]

/-- The box with another number. -/
def Box.renumber (place : Nat → Nat) (box : Box) : Box := { box with id := place box.id }

/-- The patch with other numbers for its boxes. -/
def Patch.renumber (place : Nat → Nat) (patch : Patch) : Patch :=
  { patch with
    boxes := patch.boxes.map (Box.renumber place)
    connections := patch.connections.map (Connection.renumber place) }

namespace Box

/-- What a saved box has besides its attributes. -/
def header (id : Nat) (text : String) : Dico :=
  [("id", [.long (Int64.ofNat id)]), ("text", [.symbol text])]

/-- The keys of what a saved box has besides its attributes. -/
theorem keys_header (id : Nat) (text : String) : Keyed.keys (header id text) = ["id", "text"] := rfl

/-- What is saved of a box. -/
def entries (box : Box) : Dico := box.sheet.write (header box.id box.text)

/-- A box is a copy of another under the number that is its place: it has the same text, the same inlets
and outlets, and attributes of the same names, values and snapshots, and it is saved like the other. -/
structure Copy (place : Nat → Nat) (copy box : Box) : Prop where
  id : copy.id = place box.id
  text : copy.text = box.text
  inlets : copy.inlets = box.inlets
  outlets : copy.outlets = box.outlets
  alike : List.Forall₂ Sheet.Alike copy.sheet box.sheet
  same : Dico.same copy.entries (box.renumber place).entries = true

/-- The machine of a copy does not matter. -/
theorem Copy.of_body {place : Nat → Nat} {copy box : Box} (h : copy.body.Copy place box) :
    copy.Copy place box :=
  ⟨h.id, h.text, h.inlets, h.outlets, h.alike, h.same⟩

/-- Copies have the places of their boxes as numbers. -/
theorem map_id_of_copies {place : Nat → Nat} {copies boxes : List Box}
    (h : List.Forall₂ (Copy place) copies boxes) :
    copies.map Box.id = boxes.map fun box => place box.id := by
  induction h with
  | nil => rfl
  | cons hcopy _ ih => rw [List.map_cons, List.map_cons, hcopy.id, ih]

end Box

/-- What is paired with a list is paired with each item of it. -/
theorem exists_of_forall₂ {A B : Type} {R : A → B → Prop} {as : List A} {bs : List B}
    (h : List.Forall₂ R as bs) {b : B} (hb : b ∈ bs) : ∃ a ∈ as, R a b := by
  induction h with
  | nil => cases hb
  | @cons a other as bs hpair _ ih =>
    rcases List.mem_cons.mp hb with rfl | hmem
    · exact ⟨a, List.mem_cons_self, hpair⟩
    · obtain ⟨found, hfound, hpair⟩ := ih hmem
      exact ⟨found, List.mem_cons_of_mem a hfound, hpair⟩

/-- A wire that sits between boxes ends at their numbers. -/
theorem Connection.Sits.ends {wire : Connection} {boxes : List Box} (h : wire.Sits boxes) :
    wire.source ∈ boxes.map Box.id ∧ wire.target ∈ boxes.map Box.id := by
  obtain ⟨source, hsource, target, htarget, -, -, hsourceId, htargetId, -⟩ := h
  exact ⟨hsourceId ▸ List.mem_map_of_mem hsource, htargetId ▸ List.mem_map_of_mem htarget⟩

/-- Wires between boxes that are at different places are so between boxes that have other numbers. -/
theorem Connection.joins_renumber {place : Nat → Nat} {boxes : List Box}
    (hplace : Apart place (boxes.map Box.id)) {first second : Connection}
    (hfirst : first.Sits boxes) (hsecond : second.Sits boxes)
    (h : second.joins first.source first.outlet first.target first.inlet = false) :
    (second.renumber place).joins (first.renumber place).source (first.renumber place).outlet
      (first.renumber place).target (first.renumber place).inlet = false := by
  have hsource : place second.source = place first.source → second.source = first.source :=
    hplace _ hsecond.ends.1 _ hfirst.ends.1
  have htarget : place second.target = place first.target → second.target = first.target :=
    hplace _ hsecond.ends.2 _ hfirst.ends.2
  simp only [joins, renumber, Bool.and_eq_false_iff, beq_eq_false_iff_ne] at h ⊢
  exact h.imp_left (Or.imp (Or.imp_left (mt hsource)) (mt htarget))

/-- A wire that sits between boxes sits between their copies if these have different numbers. -/
theorem Connection.Sits.renumber {wire : Connection} {boxes copies : List Box}
    (h : wire.Sits boxes) {place : Nat → Nat}
    (hcopies : List.Forall₂ (Box.Copy place) copies boxes)
    (hplace : Apart place (boxes.map Box.id)) : (wire.renumber place).Sits copies := by
  obtain ⟨source, hsource, target, htarget, output, input, hsourceId, htargetId, hne, houtput, hinput,
    haccepts, hsignal⟩ := h
  obtain ⟨newSource, hnewSource, hsourceCopy⟩ := exists_of_forall₂ hcopies hsource
  obtain ⟨newTarget, hnewTarget, htargetCopy⟩ := exists_of_forall₂ hcopies htarget
  refine ⟨newSource, hnewSource, newTarget, hnewTarget, output, input, ?_, ?_, fun heq => hne ?_,
    ?_, ?_, haccepts, hsignal⟩
  · rw [hsourceCopy.id, hsourceId]
    rfl
  · rw [htargetCopy.id, htargetId]
    rfl
  · exact hplace _ (hsourceId ▸ List.mem_map_of_mem hsource) _
      (htargetId ▸ List.mem_map_of_mem htarget) heq
  · rw [hsourceCopy.outlets]
    exact houtput
  · rw [htargetCopy.inlets]
    exact hinput

namespace Patch

variable {patch : Patch}

/-- The boxes of a patch apart from their machines tell where a wire may sit. -/
theorem sits_bodies {wire : Connection} : wire.Sits patch.bodies ↔ wire.Sits patch.boxes := by
  constructor
  · rintro ⟨source, hsource, target, htarget, h⟩
    obtain ⟨oldSource, holdSource, rfl⟩ := List.mem_map.mp hsource
    obtain ⟨oldTarget, holdTarget, rfl⟩ := List.mem_map.mp htarget
    exact ⟨oldSource, holdSource, oldTarget, holdTarget, h⟩
  · rintro ⟨source, hsource, target, htarget, h⟩
    exact ⟨source.body, List.mem_map_of_mem hsource, target.body, List.mem_map_of_mem htarget, h⟩

/-- Nothing speaks against a wire that sits between boxes where no other wire is. -/
theorem checkConnection_of_sits (hids : patch.ids.Nodup) {wire : Connection}
    (hsits : wire.Sits patch.boxes) (hfree : ∀ other ∈ patch.connections,
      other.joins wire.source wire.outlet wire.target wire.inlet = false) :
    patch.checkConnection wire.source wire.outlet wire.target wire.inlet = .ok wire.signal := by
  obtain ⟨source, hsource, target, htarget, output, input, hsourceId, htargetId, hne, houtput, hinput,
    haccepts, hsignal⟩ := hsits
  have hsourceBox : patch.box? wire.source = some source := hsourceId ▸ box?_of_mem hids hsource
  have htargetBox : patch.box? wire.target = some target := htargetId ▸ box?_of_mem hids htarget
  have htaken : (patch.connections.any fun other =>
      other.joins wire.source wire.outlet wire.target wire.inlet) = false := by
    rw [List.any_eq_false]
    exact fun other hother => by simp [hfree other hother]
  unfold checkConnection
  simp only [if_neg hne, hsourceBox, htargetBox, houtput, hinput, haccepts, htaken, hsignal]
  rfl

/-- Lists of integers equal themselves. -/
theorem same_describeConnection (wire : Connection) :
    Atom.same (describeConnection wire) (describeConnection wire) = true := by
  simp [describeConnection, Atom.same, Atom.sameEntries, Atom.sameList, Keyed.get?]

/-- A patch with copies of the boxes and the same wires between them is saved like the patch. -/
theorem same_write {later : Patch} {place : Nat → Nat}
    (hboxes : List.Forall₂ (Box.Copy place) later.boxes patch.boxes)
    (hwires : later.connections = patch.connections.map (Connection.renumber place)) :
    Dico.same later.write (patch.renumber place).write = true := by
  refine Dico.same_of_forall₂ (by simp [write, Keyed.keys])
    (.cons ⟨rfl, ?_⟩ (.cons ⟨rfl, ?_⟩ .nil))
  · refine Atom.sameList_of_forall₂ ?_
    rw [List.forall₂_map_left_iff, List.forall₂_map_right_iff]
    dsimp only [renumber]
    rw [List.forall₂_map_right_iff]
    exact hboxes.imp fun copy box hcopy => hcopy.same
  · refine Atom.sameList_of_forall₂ ?_
    rw [hwires, List.forall₂_map_left_iff, List.forall₂_map_right_iff]
    exact List.forall₂_same.mpr fun wire _ => same_describeConnection wire

end Patch

end Patchbay
