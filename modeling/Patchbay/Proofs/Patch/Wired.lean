import Patchbay.Proofs.Patch.Face

/-!
# Wires hold

Whatever is done to a patch, every wire joins an outlet to an inlet that suits it, no two wires join the
same, and no number of a box is given out a second time. It does not matter whether an operation
succeeds: a number that was taken for a box which could not be built stays taken.
-/

namespace Patchbay

/-- A wire sits between two different boxes: the outlet and the inlet are there, the inlet takes what the
outlet puts out, and the wire is one for signals if that is a signal. -/
def Connection.Sits (connection : Connection) (boxes : List Box) : Prop :=
  ∃ source ∈ boxes, ∃ target ∈ boxes, ∃ output input, source.id = connection.source ∧
    target.id = connection.target ∧ connection.source ≠ connection.target ∧
    source.outlets[connection.outlet]? = some output ∧
    target.inlets[connection.inlet]? = some input ∧ input.accepts output = true ∧
    connection.signal = output.signal

/-- A wire stays where it is if the boxes at its ends do. -/
theorem Connection.Sits.keep {connection : Connection} {boxes later : List Box}
    (h : connection.Sits boxes)
    (hkeep : ∀ box ∈ boxes, box.id = connection.source ∨ box.id = connection.target →
      ∃ other ∈ later, other.face = box.face) : connection.Sits later := by
  obtain ⟨source, hsource, target, htarget, output, input, hsourceId, htargetId, hne, houtput, hinput,
    haccepts, hsignal⟩ := h
  obtain ⟨newSource, hnewSource, hsourceFace⟩ := hkeep source hsource (Or.inl hsourceId)
  obtain ⟨newTarget, hnewTarget, htargetFace⟩ := hkeep target htarget (Or.inr htargetId)
  simp only [Box.face, Face.mk.injEq] at hsourceFace htargetFace
  obtain ⟨hsourceSame, -, -, -, houtlets, -⟩ := hsourceFace
  obtain ⟨htargetSame, -, -, hinlets, -, -⟩ := htargetFace
  exact ⟨newSource, hnewSource, newTarget, hnewTarget, output, input, hsourceSame.trans hsourceId,
    htargetSame.trans htargetId, hne, houtlets ▸ houtput, hinlets ▸ hinput, haccepts, hsignal⟩

/-- Boxes with the same faces stand in for each other. -/
theorem exists_same_face {boxes later : List Box}
    (hfaces : later.map Box.face = boxes.map Box.face) {box : Box} (hbox : box ∈ boxes) :
    ∃ other ∈ later, other.face = box.face := by
  have hmem : box.face ∈ later.map Box.face := hfaces ▸ List.mem_map_of_mem hbox
  exact List.mem_map.mp hmem

namespace Patch

/-- The patch without a box and the wires that end at it, its chain left as it is. -/
def without (patch : Patch) (id : Nat) : Patch :=
  { patch with
    boxes := patch.boxes.filter fun other => other.id != id
    connections := patch.connections.filter fun connection => !connection.touches id }

/-- The patch with another wire, its chain left as it is. -/
def withWire (patch : Patch) (wire : Connection) : Patch :=
  { patch with connections := patch.connections ++ [wire] }

/-- The patch without the wire from an outlet to an inlet, its chain left as it is. -/
def withoutWire (patch : Patch) (source outlet target inlet : Nat) : Patch :=
  { patch with
    connections := patch.connections.eraseP fun connection =>
      connection.joins source outlet target inlet }

/-- A box is removed if it is there. -/
theorem remove_eq_ok {patch later : Patch} {id : Nat} (h : patch.remove id = .ok later) :
    ∃ box, patch.box? id = some box ∧
      later = ((patch.without id).rebuildIf box.hasSignals).retire [box] := by
  unfold remove at h
  split at h
  · cases h
  · next box hbox => exact ⟨box, hbox, (Except.ok.inj h).symm⟩

/-- A wire is drawn if nothing speaks against it. -/
theorem connect_eq_ok {patch later : Patch} {source outlet target inlet : Nat}
    (h : patch.connect source outlet target inlet = .ok later) :
    ∃ signal, patch.checkConnection source outlet target inlet = .ok signal ∧
      later = (patch.withWire { source, outlet, target, inlet, signal }).rebuildIf signal := by
  obtain ⟨signal, hsignal, rfl⟩ := exists_of_map_eq_ok h
  exact ⟨signal, hsignal, rfl⟩

/-- A wire is taken away if it is there. -/
theorem disconnect_eq_ok {patch later : Patch} {source outlet target inlet : Nat}
    (h : patch.disconnect source outlet target inlet = .ok later) :
    ∃ wire, patch.connections.find? (fun connection =>
        connection.joins source outlet target inlet) = some wire ∧
      later = (patch.withoutWire source outlet target inlet).rebuildIf wire.signal := by
  unfold disconnect at h
  split at h
  · cases h
  · next wire hwire => exact ⟨wire, hwire, (Except.ok.inj h).symm⟩

/-- What speaks for a new wire. -/
theorem checkConnection_eq_ok {patch : Patch} {source outlet target inlet : Nat} {signal : Bool}
    (h : patch.checkConnection source outlet target inlet = .ok signal) :
    Connection.Sits { source, outlet, target, inlet, signal } patch.boxes ∧
      ∀ wire ∈ patch.connections, wire.joins source outlet target inlet = false := by
  unfold checkConnection at h
  -- A check that fails ends with an error, so that all of them have succeeded.
  by_cases hself : source = target
  · rw [if_pos hself] at h
    cases h
  simp only [hself, if_false] at h
  cases hsource : patch.box? source with
  | none =>
    rw [hsource] at h
    cases h
  | some sourceBox =>
  cases htarget : patch.box? target with
  | none =>
    rw [hsource, htarget] at h
    cases h
  | some targetBox =>
  cases houtput : sourceBox.outlets[outlet]? with
  | none =>
    simp only [hsource, htarget, houtput] at h
    cases h
  | some output =>
  cases hinput : targetBox.inlets[inlet]? with
  | none =>
    simp only [hsource, htarget, houtput, hinput] at h
    cases h
  | some input =>
  simp only [hsource, htarget, houtput, hinput] at h
  cases haccepts : input.accepts output with
  | false =>
    simp only [haccepts] at h
    cases h
  | true =>
  cases htaken : patch.connections.any fun connection =>
      connection.joins source outlet target inlet with
  | true =>
    simp only [haccepts, htaken] at h
    cases h
  | false =>
    simp only [haccepts, htaken] at h
    obtain rfl := Except.ok.inj h
    have hsourceId : sourceBox.id = source := by simpa using List.find?_some hsource
    have htargetId : targetBox.id = target := by simpa using List.find?_some htarget
    refine ⟨⟨sourceBox, List.mem_of_find?_eq_some hsource, targetBox,
      List.mem_of_find?_eq_some htarget, output, input, hsourceId, htargetId, hself, houtput, hinput,
      haccepts, rfl⟩, fun wire hwire => ?_⟩
    simpa using List.any_eq_false.mp htaken wire hwire

/-- The boxes stand in the order of their numbers, which have been given out, and every wire sits
between two of them, no two wires at the same place. -/
structure Wired (patch : Patch) : Prop where
  ascending : patch.ids.Pairwise (· < ·)
  given : ∀ id ∈ patch.ids, id < patch.nextId
  sits : ∀ connection ∈ patch.connections, connection.Sits patch.boxes
  single : patch.connections.Pairwise fun first second =>
    second.joins first.source first.outlet first.target first.inlet = false

/-- One patch comes of another: numbers given out stay so, and a box with such a number was there
before. -/
structure Continues (patch later : Patch) : Prop where
  nextId : patch.nextId ≤ later.nextId
  boxes : ∀ box ∈ later.boxes, box.id < patch.nextId → ∃ old ∈ patch.boxes, old.face = box.face

namespace Continues

variable {patch later last : Patch}

/-- What comes of a patch in two steps comes of it. -/
theorem trans (h : patch.Continues later) (hlast : later.Continues last) :
    patch.Continues last where
  nextId := h.nextId.trans hlast.nextId
  boxes box hbox hid := by
    obtain ⟨middle, hmiddle, hface⟩ := hlast.boxes box hbox (hid.trans_le h.nextId)
    have hsame : middle.id = box.id := congrArg Face.id hface
    obtain ⟨old, hold, holdFace⟩ := h.boxes middle hmiddle (hsame ▸ hid)
    exact ⟨old, hold, holdFace.trans hface⟩

/-- Boxes may go, and none come. -/
theorem of_subset (hboxes : later.boxes ⊆ patch.boxes) (hnextId : later.nextId = patch.nextId) :
    patch.Continues later :=
  ⟨hnextId.ge, fun box hbox _ => ⟨box, hboxes hbox, rfl⟩⟩

end Continues

namespace SameWiring

variable {patch later : Patch}

/-- The numbers of the boxes are the same. -/
theorem ids (h : patch.SameWiring later) : later.ids = patch.ids := by
  have hids := congrArg (List.map Face.id) h.faces
  rw [List.map_map, List.map_map] at hids
  exact hids

/-- The wires hold. -/
theorem wired (h : patch.SameWiring later) (hwired : patch.Wired) : later.Wired where
  ascending := h.ids ▸ hwired.ascending
  given := by
    rw [h.ids, h.nextId]
    exact hwired.given
  sits connection hconnection := by
    rw [h.connections] at hconnection
    exact (hwired.sits connection hconnection).keep fun box hbox _ => exists_same_face h.faces hbox
  single := h.connections ▸ hwired.single

/-- The later patch comes of the other. -/
theorem continues (h : patch.SameWiring later) : patch.Continues later where
  nextId := h.nextId.ge
  boxes _ hbox _ := exists_same_face h.faces.symm hbox

end SameWiring

/-- Boxes that were taken out count for nothing. -/
theorem sameWiring_retire (patch : Patch) (boxes : List Box) :
    patch.SameWiring (patch.retire boxes) := ⟨rfl, rfl, rfl⟩

namespace Wired

variable {patch : Patch}

/-- No two boxes have one number. -/
theorem nodup (h : patch.Wired) : patch.ids.Nodup := h.ascending.imp Nat.ne_of_lt

/-- A number can be given out. -/
theorem reserve (h : patch.Wired) : patch.reserve.1.Wired where
  ascending := h.ascending
  given id hid := (h.given id hid).trans (Nat.lt_succ_self _)
  sits := h.sits
  single := h.single

/-- A box can be put in under the number that was given out for it. -/
theorem install (h : patch.Wired) {box : Box} (hid : box.id = patch.nextId) :
    (patch.reserve.1.install box).Wired := by
  refine (sameWiring_rebuildIf _ _).wired ⟨?_, ?_, ?_, h.single⟩
  · simp only [ids, List.map_append, List.map_cons, List.map_nil, List.pairwise_append,
      List.pairwise_singleton, List.mem_singleton, forall_eq, true_and]
    exact ⟨h.ascending, fun id hmem => hid ▸ h.given id hmem⟩
  · intro id hmem
    simp only [ids, List.map_append, List.map_cons, List.map_nil, List.mem_append,
      List.mem_singleton] at hmem
    rcases hmem with hmem | rfl
    · exact (h.given id hmem).trans (Nat.lt_succ_self _)
    · exact hid ▸ Nat.lt_succ_self _
  · exact fun connection hconnection => (h.sits connection hconnection).keep fun old hold _ =>
      ⟨old, List.mem_append_left _ hold, rfl⟩

/-- A box can be taken out with the wires that end at it. -/
theorem without (h : patch.Wired) (id : Nat) : (patch.without id).Wired := by
  have hsub : (patch.without id).ids.Sublist patch.ids := List.filter_sublist.map Box.id
  refine ⟨h.ascending.sublist hsub, fun other hother => h.given other (hsub.subset hother), ?_,
    h.single.sublist List.filter_sublist⟩
  intro connection hconnection
  obtain ⟨hold, hends⟩ := List.mem_filter.mp hconnection
  simp only [Connection.touches, Bool.not_eq_true', Bool.or_eq_false_iff, beq_eq_false_iff_ne]
    at hends
  refine (h.sits connection hold).keep fun box hbox hend => ⟨box, ?_, rfl⟩
  refine List.mem_filter.mpr ⟨hbox, ?_⟩
  rcases hend with hend | hend
  · simpa [hend] using hends.1
  · simpa [hend] using hends.2

/-- All boxes and wires can be taken out. -/
theorem clear (patch : Patch) : patch.clear.Wired := by
  have hemptied : Wired { patch with boxes := [], connections := [] } :=
    ⟨.nil, by simp [ids], by simp, .nil⟩
  exact (sameWiring_retire _ _).wired ((sameWiring_rebuildIf _ true).wired hemptied)

/-- A wire can be drawn that nothing speaks against. -/
theorem withWire (h : patch.Wired) {wire : Connection} (hsits : wire.Sits patch.boxes)
    (hfree : ∀ other ∈ patch.connections,
      other.joins wire.source wire.outlet wire.target wire.inlet = false) :
    (patch.withWire wire).Wired where
  ascending := h.ascending
  given := h.given
  sits connection hconnection := by
    rcases List.mem_append.mp hconnection with hold | hnew
    · exact h.sits connection hold
    · obtain rfl := List.mem_singleton.mp hnew
      exact hsits
  single := by
    refine List.pairwise_append.mpr ⟨h.single, List.pairwise_singleton _ _, ?_⟩
    intro other hother new hnew
    obtain rfl := List.mem_singleton.mp hnew
    have hother := hfree other hother
    simp only [Connection.joins, Bool.and_eq_false_iff, beq_eq_false_iff_ne] at hother ⊢
    simpa only [ne_comm] using hother

/-- A wire can be taken away. -/
theorem withoutWire (h : patch.Wired) (source outlet target inlet : Nat) :
    (patch.withoutWire source outlet target inlet).Wired where
  ascending := h.ascending
  given := h.given
  sits connection hconnection := h.sits connection (List.mem_of_mem_eraseP hconnection)
  single := h.single.sublist List.eraseP_sublist

end Wired

end Patch

end Patchbay
