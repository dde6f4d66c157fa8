import Patchbay.Proofs.Dico.Blocks
import Patchbay.Proofs.Patch.Copy

/-!
# Patches saved and read

Reading the text of a saved patch builds its boxes again, one after the other, and then draws its wires.
Each box is built as a copy under the next number, whatever was in the patch before, so the numbers keep
their order; and each wire finds its ends where they were built, so that nothing speaks against it.
-/

namespace Patchbay

/-- Decide whether a box has a name that stands for a box that every studio knows. -/
def Box.isBuiltin (catalog : Catalog) (box : Box) : Bool :=
  (catalog.get? box.name).any fun registration => registration.model.isBuiltin

/-- What is read of a saved box. -/
def Box.detail (box : Box) : Dico := Notation.rereadEntries box.entries

/-- A box that tells how it was built, among the boxes that every studio knows, and that is saved with
doubles that are read back from their numerals. -/
structure Box.Savable (catalog : Catalog) (box : Box) : Prop where
  made : box.Made catalog
  builtin : box.isBuiltin catalog = true
  readsBack : (Atom.dico box.entries).every Atom.readsBack = true

/-- The text of a box is made up of tokens. -/
theorem Box.BuiltBy.tokens_text {box : Box} {registration : Registration} {site : Site}
    {plan : Plan Machine} (h : box.BuiltBy registration site plan) :
    ∀ atom ∈ Atom.symbol box.name :: site.arguments, Words.Token atom :=
  List.forall_mem_cons.mpr ⟨.symbol _, h.tokens⟩

/-- Its words that are read are written as they were. -/
theorem Box.BuiltBy.text_reread {box : Box} {registration : Registration} {site : Site}
    {plan : Plan Machine} (h : box.BuiltBy registration site plan) :
    String.ofList (Words.write (.symbol box.name :: site.arguments.map Words.reread)) =
      box.text := by
  have hback : ∀ atom ∈ Atom.symbol box.name :: site.arguments, ∀ x minus,
      atom = .double x minus → Numeral.ReadsBack x := by
    refine List.forall_mem_cons.mpr ⟨by simp, fun atom hatom x minus heq => ?_⟩
    have hatom := h.readsBack atom hatom
    rw [heq] at hatom
    exact of_decide_eq_true hatom
  rw [h.text]
  exact congrArg String.ofList (Words.write_map_reread h.tokens_text hback)

namespace Box.Savable

variable {catalog : Catalog} {box : Box}

/-- How it was built. -/
theorem built (h : box.Savable catalog) : ∃ registration site plan,
    catalog.get? box.name = some registration ∧ registration.model.isBuiltin = true ∧
      box.BuiltBy registration site plan := by
  obtain ⟨registration, site, plan, hregistration, hbuilt⟩ := h.made
  have hmodel := h.builtin
  rw [Box.isBuiltin, hregistration, Option.any_some] at hmodel
  exact ⟨registration, site, plan, hregistration, hmodel, hbuilt⟩

/-- Its attributes are sound. -/
theorem sound (h : box.Savable catalog) : box.sheet.Sound := by
  obtain ⟨_, _, _, -, hmodel, hbuilt⟩ := h.built
  exact (hbuilt.sheet hmodel).1

/-- The doubles of its attributes are read back. -/
theorem readsBack_record (h : box.Savable catalog) :
    ∀ entry ∈ box.sheet, ∀ atom ∈ entry.2.record, atom.readsBack = true := by
  intro entry hentry atom hatom
  have hback := h.readsBack
  rw [Box.entries, h.sound.write (keys_header _ _), Atom.every_dico] at hback
  have hmem : (entry.1, entry.2.record) ∈ header box.id box.text ++ box.sheet.entries :=
    List.mem_append_right _ (Sheet.mem_entries hentry)
  exact Atom.of_every (hback.2 _ hmem atom hatom)

/-- Its text keeps all that is saved of it. -/
theorem keeps (h : box.Savable catalog) : (Atom.dico box.entries).every Notation.keeps = true := by
  refine h.sound.keeps_write (keys_header _ _) ?_ h.readsBack_record
  simp [header, Atom.every, Notation.keeps]

/-- The number and the text of the box are found in what is read of it. -/
theorem get?_detail (h : box.Savable catalog) :
    Keyed.get? box.detail "id" = some [.long (Int64.ofNat box.id)] ∧
      Keyed.get? box.detail "text" = some [.symbol box.text] := by
  rw [Box.detail, Box.entries, h.sound.write (keys_header _ _), Notation.get?_rereadEntries,
    Notation.get?_rereadEntries]
  exact ⟨rfl, rfl⟩

/-- What is read of it is a description with its name and its arguments. -/
theorem describe_detail (h : box.Savable catalog) {registration : Registration} {site : Site}
    {plan : Plan Machine} (hbuilt : box.BuiltBy registration site plan) :
    Patch.describe box.detail = .ok (box.name, site.arguments.map Words.reread) := by
  have htext := h.get?_detail.2
  have hhas : Keyed.has box.detail "text" = true := by
    rw [Keyed.has, htext]
    rfl
  refine (Patch.describe_eq_ok_iff hhas).mpr ⟨?_, hbuilt.named⟩
  rw [Dico.get, htext, Option.getD_some, Patch.spoken, hbuilt.text, String.toList_ofList,
    Words.read_write hbuilt.tokens_text, List.map_cons, Words.reread]

/-- A sheet that the same registration starts with is restored from what is read of the box: its
attributes are like those of the box, and it is saved like its sheet. -/
theorem restore_detail (h : box.Savable catalog) {registration : Registration}
    {site again : Site} {plan planned : Plan Machine} (hmodel : registration.model.isBuiltin = true)
    (hbuilt : box.BuiltBy registration site plan)
    (hplanned : registration.model.plan again = .ok planned) (id : Nat) :
    List.Forall₂ Sheet.Alike (planned.sheet.restore box.detail true) box.sheet ∧
      Dico.same ((planned.sheet.restore box.detail true).write (header id box.text))
        (box.sheet.write (header id box.text)) = true := by
  obtain ⟨hfresh, houtline⟩ := Model.fresh_sheet hmodel hplanned
  obtain ⟨hsound, hkept⟩ := hbuilt.sheet hmodel
  have houtlines : planned.sheet.outline = box.sheet.outline := by
    rw [houtline, hkept, (Model.fresh_sheet hmodel hbuilt.plan_eq).2]
  obtain ⟨hrestored, halike⟩ := hsound.restore_write hfresh.sound houtlines hfresh.unfrozen
    h.readsBack_record (keys_header box.id box.text)
  refine ⟨halike, hrestored.same_write hsound halike (keys_header id box.text) ?_⟩
  simp [header, Atom.sameList, Atom.same]

end Box.Savable

namespace Studio

variable {studio : Studio} {number : Nat} {place : Nat → Nat}

/-- A saved box is built as a copy under the next number. -/
theorem create_copy {held : Patch} (hpatch : studio.patch? number = some held) {box : Box}
    (hbox : box.Savable studio.catalog) (hplace : place box.id = held.nextId) :
    (studio.create number box.detail).2 = .ok held.nextId ∧
      ∃ later copy, (studio.create number box.detail).1.patch? number = some later ∧
        later.nextId = held.nextId + 1 ∧ later.connections = held.connections ∧
        later.bodies = held.bodies ++ [copy] ∧ copy.Copy place box := by
  obtain ⟨registration, site, plan, hregistration, hmodel, hbuilt⟩ := hbox.built
  let again : Site :=
    ⟨box.name, site.arguments.map Words.reread, Keyed.keys box.detail, held.nextId⟩
  have harguments : again.arguments = site.arguments.map Words.reread := rfl
  obtain ⟨planned, hplanned, hinlets, houtlets⟩ :=
    Model.plan_reread hmodel hbuilt.plan_eq harguments
  obtain ⟨hresult, service, hlater⟩ :=
    create_eq_ok hpatch (hbox.describe_detail hbuilt) hregistration hplanned
  have hsame : (assemble again planned box.detail service).text = box.text := hbuilt.text_reread
  obtain ⟨halike, hsaved⟩ := hbox.restore_detail hmodel hbuilt hplanned held.nextId
  refine ⟨hresult, _, (assemble again planned box.detail service).body, hlater,
    (Patch.sameWiring_rebuildIf _ _).nextId, (Patch.sameWiring_rebuildIf _ _).connections,
    Patch.bodies_install _ _, hplace.symm, hsame, hinlets.trans hbuilt.inlets.symm,
    houtlets.trans hbuilt.outlets.symm, halike, ?_⟩
  rw [Box.entries, Box.entries, Box.renumber, hplace]
  change Dico.same (Sheet.write _ (Box.header held.nextId
    (assemble again planned box.detail service).text)) _ = true
  rw [hsame]
  exact hsaved

/-- The number under which a box was saved is read back. -/
theorem saved_detail {catalog : Catalog} {box : Box} (h : box.Savable catalog)
    (hid : box.id < 2 ^ 63) :
    (Dico.getAtom box.detail "id").isNumber = true ∧
      (Dico.getAtom box.detail "id").toLong.toInt = box.id := by
  rw [Dico.getAtom, Dico.get, h.get?_detail.1]
  exact ⟨rfl, Int64.toInt_ofNat_of_lt hid⟩

/-- Saved boxes are built one after the other as copies under the next numbers. -/
theorem readBoxes_copies {boxes : List Box} (hboxes : ∀ box ∈ boxes, box.Savable studio.catalog)
    (hids : (boxes.map Box.id).Nodup) (hbound : ∀ box ∈ boxes, box.id < 2 ^ 63) {held : Patch}
    (hpatch : studio.patch? number = some held)
    (hplace : boxes.map (fun box => place box.id) = List.range' held.nextId boxes.length)
    {renumbering : Renumbering} (hnew : ∀ box ∈ boxes, ∀ entry ∈ renumbering, entry.1 ≠ box.id) :
    ∃ later copies, (readBoxes number (boxes.map fun box => .dico box.detail)
        (studio, renumbering)).1.patch? number = some later ∧
      later.connections = held.connections ∧ later.bodies = held.bodies ++ copies ∧
      List.Forall₂ (Box.Copy place) copies boxes ∧
      (readBoxes number (boxes.map fun box => .dico box.detail) (studio, renumbering)).2 =
        (boxes.map fun box => ((box.id : Int), place box.id)).reverse ++ renumbering := by
  induction boxes generalizing studio held renumbering with
  | nil => exact ⟨held, [], hpatch, rfl, (List.append_nil _).symm, .nil, rfl⟩
  | cons box boxes ih =>
    rw [List.map_cons, List.nodup_cons] at hids
    simp only [List.map_cons, List.length_cons, List.range'_succ, List.cons.injEq] at hplace
    have hbox := hboxes box List.mem_cons_self
    obtain ⟨hnumber, hsaved⟩ := saved_detail hbox (hbound box List.mem_cons_self)
    obtain ⟨hresult, now, copy, hnow, hnextId, hwires, hbodies, hcopy⟩ :=
      create_copy hpatch hbox hplace.1
    have hnote : renumbering.note box.id held.nextId =
        ((box.id : Int), place box.id) :: renumbering := by
      rw [Renumbering.note, hplace.1, List.filter_eq_self.mpr]
      intro entry hentry
      simpa using hnew box List.mem_cons_self entry hentry
    have hstep : readBoxes number ((box :: boxes).map fun box => .dico box.detail)
        (studio, renumbering) = readBoxes number (boxes.map fun box => .dico box.detail)
          ((studio.create number box.detail).1, ((box.id : Int), place box.id) :: renumbering) := by
      simp only [List.map_cons, readBoxes, hresult, hnumber, hsaved, if_true, hnote]
    have hrest : ∀ other ∈ boxes,
        other.Savable (studio.create number box.detail).1.catalog := fun other hother =>
      (catalog_create studio number box.detail).symm ▸
        hboxes other (List.mem_cons_of_mem box hother)
    have hnewRest : ∀ other ∈ boxes, ∀ entry ∈ ((box.id : Int), place box.id) :: renumbering,
        entry.1 ≠ other.id := by
      refine fun other hother => List.forall_mem_cons.mpr ⟨fun heq => hids.1 ?_,
        hnew other (List.mem_cons_of_mem box hother)⟩
      exact Int.ofNat.inj heq ▸ List.mem_map_of_mem hother
    obtain ⟨later, copies, hlater, hlaterWires, hlaterBodies, hcopies, hrenumbering⟩ :=
      ih hrest hids.2 (fun other hother => hbound other (List.mem_cons_of_mem box hother)) hnow
        (hnextId.symm ▸ hplace.2) hnewRest
    refine ⟨later, copy :: copies, hstep ▸ hlater, hlaterWires.trans hwires, ?_,
      .cons hcopy hcopies, ?_⟩
    · rw [hlaterBodies, hbodies, List.append_assoc, List.singleton_append]
    · rw [hstep, hrenumbering, List.map_cons, List.reverse_cons, List.append_assoc,
        List.singleton_append]

/-! ### Wires -/

/-- A number within reach of long atoms is read back from one. -/
theorem toInt_toLong_long {n : Nat} (h : n < 2 ^ 63) :
    (Atom.long (Int64.ofNat n)).toLong.toInt = n := Int64.toInt_ofNat_of_lt h

/-- A wire that was saved is found between the places of its boxes. -/
theorem savedConnection?_entries {renumbering : Renumbering} {wire : Connection}
    (hsource : renumbering.find? wire.source = some (place wire.source))
    (htarget : renumbering.find? wire.target = some (place wire.target))
    (hends : wire.source < 2 ^ 63 ∧ wire.target < 2 ^ 63)
    (hports : wire.outlet < 2 ^ 63 ∧ wire.inlet < 2 ^ 63) :
    savedConnection? renumbering wire.entries =
      some (place wire.source, wire.outlet, place wire.target, wire.inlet) := by
  have hfrom : Dico.get wire.entries "from" =
      [.long (Int64.ofNat wire.source), .long (Int64.ofNat wire.outlet)] := rfl
  have hto : Dico.get wire.entries "to" =
      [.long (Int64.ofNat wire.target), .long (Int64.ofNat wire.inlet)] := rfl
  simp only [savedConnection?, hfrom, hto, toInt_toLong_long hends.1, toInt_toLong_long hends.2,
    toInt_toLong_long hports.1, toInt_toLong_long hports.2, hsource, htarget, Int.toNat_natCast]

/-- A wire that sits between boxes where no other wire is can be drawn. -/
theorem connect_of_sits {now : Patch} (hpatch : studio.patch? number = some now)
    (hids : now.ids.Nodup) {wire : Connection} (hsits : wire.Sits now.boxes)
    (hfree : ∀ other ∈ now.connections,
      other.joins wire.source wire.outlet wire.target wire.inlet = false) :
    ∃ later, (studio.editPatch number fun patch =>
        patch.connect wire.source wire.outlet wire.target wire.inlet).1.patch? number = some later ∧
      later.bodies = now.bodies ∧ later.connections = now.connections ++ [wire] := by
  have hconnect : now.connect wire.source wire.outlet wire.target wire.inlet =
      .ok ((now.withWire wire).rebuildIf wire.signal) := by
    rw [Patch.connect, Patch.checkConnection_of_sits hids hsits hfree]
    rfl
  exact ⟨_, patch?_editPatch hpatch hconnect, Patch.bodies_rebuildIf _ _,
    (Patch.sameWiring_rebuildIf _ _).connections⟩

/-- The places of saved numbers are found, each its own. -/
structure Renumbering.Finds (renumbering : Renumbering) (place : Nat → Nat) (ids : List Nat) :
    Prop where
  found : ∀ id ∈ ids, renumbering.find? id = some (place id)
  apart : ∀ first ∈ ids, ∀ second ∈ ids, place first = place second → first = second
  fits : ∀ id ∈ ids, id < 2 ^ 63

/-- Saved wires are drawn one after the other between the copies of the boxes that they join. -/
theorem readLinks_copies {boxes : List Box} {renumbering : Renumbering}
    (h : renumbering.Finds place (boxes.map Box.id)) {wires : List Connection}
    (hsits : ∀ wire ∈ wires, wire.Sits boxes)
    (hports : ∀ wire ∈ wires, wire.outlet < 2 ^ 63 ∧ wire.inlet < 2 ^ 63) {now : Patch}
    (hpatch : studio.patch? number = some now) (hids : now.ids.Nodup)
    (hcopies : List.Forall₂ (Box.Copy place) now.bodies boxes)
    (hsingle : (now.connections ++ wires.map (Connection.renumber place)).Pairwise
      fun first second =>
        second.joins first.source first.outlet first.target first.inlet = false) :
    ∃ later, (readLinks number renumbering (wires.map fun wire => .dico wire.entries)
        studio).patch? number = some later ∧ later.bodies = now.bodies ∧
      later.connections = now.connections ++ wires.map (Connection.renumber place) := by
  induction wires generalizing studio now with
  | nil => exact ⟨now, hpatch, rfl, (List.append_nil _).symm⟩
  | cons wire wires ih =>
    have hsitsWire := hsits wire List.mem_cons_self
    have hends := hsitsWire.ends
    have hsaved := savedConnection?_entries (h.found _ hends.1) (h.found _ hends.2)
      ⟨h.fits _ hends.1, h.fits _ hends.2⟩ (hports wire List.mem_cons_self)
    have hnext : now.connections ++ (wire :: wires).map (Connection.renumber place) =
        now.connections ++ [wire.renumber place] ++ wires.map (Connection.renumber place) :=
      List.append_cons _ _ _
    rw [hnext] at hsingle ⊢
    have hfree : ∀ other ∈ now.connections, other.joins (wire.renumber place).source
        (wire.renumber place).outlet (wire.renumber place).target
        (wire.renumber place).inlet = false := by
      intro other hother
      have hapart := (List.pairwise_append.mp (List.pairwise_append.mp hsingle).1).2.2 other hother
        _ List.mem_cons_self
      simp only [Connection.joins, Bool.and_eq_false_iff, beq_eq_false_iff_ne] at hapart ⊢
      simpa only [ne_comm] using hapart
    obtain ⟨next, hpatchNext, hbodies, hwires⟩ := connect_of_sits hpatch hids
      (Patch.sits_bodies.mp (hsitsWire.renumber hcopies h.apart)) hfree
    rw [← hwires, ← hbodies]
    obtain ⟨later, hlater, hsame⟩ := ih
      (fun other hother => hsits other (List.mem_cons_of_mem wire hother))
      (fun other hother => hports other (List.mem_cons_of_mem wire hother)) hpatchNext
      (by rwa [← Patch.map_id_bodies, hbodies, Patch.map_id_bodies]) (hbodies.symm ▸ hcopies)
      (hwires.symm ▸ hsingle)
    refine ⟨later, ?_, hsame⟩
    simp only [List.map_cons, readLinks, hsaved]
    exact hlater

end Studio

/-! ### Whole patches -/

/-- The box that stands for a saved number is found if every entry tells its place. -/
theorem Studio.Renumbering.find?_place {place : Nat → Nat} {ids : List Nat} {id : Nat}
    (hid : id ∈ ids) :
    Renumbering.find? (ids.map fun id : Nat => ((id : Int), place id)).reverse id =
      some (place id) := by
  have hsome : ((ids.map fun id : Nat => ((id : Int), place id)).reverse.find? fun entry =>
      entry.1 == (id : Int)).isSome = true :=
    List.find?_isSome.mpr ⟨(id, place id), List.mem_reverse.mpr (List.mem_map.mpr ⟨id, hid, rfl⟩),
      beq_self_eq_true _⟩
  obtain ⟨found, hfound⟩ := Option.isSome_iff_exists.mp hsome
  obtain ⟨other, -, rfl⟩ :=
    List.mem_map.mp (List.mem_reverse.mp (List.mem_of_find?_eq_some hfound))
  have hsame : other = id := by simpa using List.find?_some hfound
  rw [Renumbering.find?, hfound, hsame, Option.map_some]

namespace Patch

variable {patch : Patch}

/-- The numbers in a patch can be written as long atoms, as those of any patch can of which the lists
fit into memory. -/
structure Fits (patch : Patch) : Prop where
  ids : patch.nextId ≤ 2 ^ 63
  ports : ∀ box ∈ patch.boxes, box.inlets.length ≤ 2 ^ 63 ∧ box.outlets.length ≤ 2 ^ 63

instance : Decidable patch.Fits :=
  decidable_of_iff (patch.nextId ≤ 2 ^ 63 ∧
      ∀ box ∈ patch.boxes, box.inlets.length ≤ 2 ^ 63 ∧ box.outlets.length ≤ 2 ^ 63)
    ⟨fun h => ⟨h.1, h.2⟩, fun h => ⟨h.ids, h.ports⟩⟩

/-- The place of a box by its rank, counted from a number on. -/
def placeFrom (patch : Patch) (first id : Nat) : Nat := first + patch.ids.idxOf id

/-- The places of the boxes are the numbers that follow one another. -/
theorem map_placeFrom (hids : patch.ids.Nodup) (first : Nat) :
    patch.boxes.map (fun box => patch.placeFrom first box.id) =
      List.range' first patch.boxes.length := by
  have hplaces : patch.boxes.map (fun box => patch.placeFrom first box.id) =
      patch.ids.map (patch.placeFrom first) := by rw [ids, List.map_map]; rfl
  rw [hplaces]
  refine List.ext_getElem (by simp [ids]) fun i hi _ => ?_
  rw [List.length_map] at hi
  rw [List.getElem_map, placeFrom, hids.idxOf_getElem i hi, List.getElem_range', Nat.one_mul]

/-- The places are in the order of the numbers. -/
theorem Wired.placeFrom_lt (h : patch.Wired) (start : Nat) :
    ∀ first ∈ patch.ids, ∀ second ∈ patch.ids, first < second →
      patch.placeFrom start first < patch.placeFrom start second := by
  intro first hfirst second hsecond hlt
  have hfirstRank := List.idxOf_lt_length_iff.mpr hfirst
  have hsecondRank := List.idxOf_lt_length_iff.mpr hsecond
  refine Nat.add_lt_add_left (Nat.lt_of_not_le fun hle => ?_) start
  have hback : second ≤ first := by
    rcases Nat.lt_or_eq_of_le hle with hrank | hrank
    · have hascending := List.pairwise_iff_getElem.mp h.ascending _ _ hsecondRank hfirstRank hrank
      rw [List.getElem_idxOf, List.getElem_idxOf] at hascending
      exact hascending.le
    · exact ((List.idxOf_inj hsecond).mp hrank).le
  exact absurd hlt (Nat.not_lt_of_le hback)

/-- While a patch is read, the places of its boxes are found. -/
theorem Wired.finds (h : patch.Wired) (hfits : patch.Fits) (start : Nat) :
    Studio.Renumbering.Finds (patch.boxes.map fun box =>
      ((box.id : Int), patch.placeFrom start box.id)).reverse (patch.placeFrom start) patch.ids where
  found id hid := by
    rw [← Studio.Renumbering.find?_place hid, ids, List.map_map]
    rfl
  apart first hfirst second hsecond heq := by
    by_contra hne
    rcases Nat.lt_or_gt_of_ne hne with hlt | hlt
    · exact (h.placeFrom_lt start first hfirst second hsecond hlt).ne heq
    · exact (h.placeFrom_lt start second hsecond first hfirst hlt).ne heq.symm
  fits id hid := (h.given id hid).trans_le hfits.ids

/-- A wire of a patch that fits can be written. -/
theorem Fits.ports_lt (h : patch.Fits) {wire : Connection} (hsits : wire.Sits patch.boxes) :
    wire.outlet < 2 ^ 63 ∧ wire.inlet < 2 ^ 63 := by
  obtain ⟨source, hsource, target, htarget, output, input, -, -, -, houtput, hinput, -⟩ := hsits
  have houtlet := (List.getElem?_eq_some_iff.mp houtput).1
  have hinlet := (List.getElem?_eq_some_iff.mp hinput).1
  exact ⟨houtlet.trans_le (h.ports source hsource).2, hinlet.trans_le (h.ports target htarget).1⟩

/-- The boxes of a saved patch as they are read. -/
theorem get_boxes_reread (patch : Patch) :
    Dico.get (Notation.rereadEntries patch.write) "boxes" =
      patch.boxes.map fun box => .dico box.detail := by
  rw [Dico.get, Notation.get?_rereadEntries]
  change Notation.rereadItems (patch.boxes.map describeBox) = _
  rw [Notation.rereadItems_eq_map, List.map_map]
  rfl

/-- The wires of a saved patch as they are read. -/
theorem get_links_reread (patch : Patch) :
    Dico.get (Notation.rereadEntries patch.write) "links" =
      patch.connections.map fun wire => .dico wire.entries := by
  rw [Dico.get, Notation.get?_rereadEntries]
  change Notation.rereadItems (patch.connections.map describeConnection) = _
  rw [Notation.rereadItems_eq_map, List.map_map]
  rfl

/-- The text of a patch keeps all that is saved of it. -/
theorem keeps_write {catalog : Catalog} (hboxes : ∀ box ∈ patch.boxes, box.Savable catalog) :
    (Atom.dico patch.write).every Notation.keeps = true := by
  rw [Atom.every_dico]
  refine ⟨by simp [write, Notation.keeps, Keyed.keys], ?_⟩
  simp only [write, List.forall_mem_cons, List.forall_mem_map]
  refine ⟨fun box hbox => (hboxes box hbox).keeps, fun wire _ => ?_, List.forall_mem_nil _⟩
  simp [describeConnection, Atom.every, Atom.everyEntry, Atom.everyItem, Notation.keeps, Keyed.keys]

end Patch

namespace Studio

/-- What is read into a patch from a saved one takes the place of what was there: a copy of each box and
the wires between them. -/
theorem readPatch_copies {studio : Studio} {number : Nat} {held patch : Patch}
    (hheld : studio.patch? number = some held) (hwired : patch.Wired)
    (hboxes : ∀ box ∈ patch.boxes, box.Savable studio.catalog) (hfits : patch.Fits) :
    ∃ later, (studio.readPatch number (Notation.rereadEntries patch.write)).1.patch? number =
        some later ∧
      (studio.readPatch number (Notation.rereadEntries patch.write)).2 = patch.boxes.length ∧
      List.Forall₂ (Box.Copy (patch.placeFrom held.nextId)) later.boxes patch.boxes ∧
      later.connections =
        patch.connections.map (Connection.renumber (patch.placeFrom held.nextId)) := by
  have hcleared : (studio.editPatch number fun patch => .ok patch.clear).1.patch? number =
      some held.clear := patch?_editPatch hheld rfl
  have hempty : held.clear.bodies = [] := Patch.bodies_rebuildIf _ true
  have hbare := Patch.sameWiring_rebuildIf { held with boxes := [], connections := [] } true
  have hnext : held.clear.nextId = held.nextId := hbare.nextId
  have hnone : held.clear.connections = [] := hbare.connections
  have hfinds := hwired.finds hfits held.nextId
  -- The boxes take the numbers that follow those which the patch has given out.
  have hplaces : patch.boxes.map (fun box => patch.placeFrom held.nextId box.id) =
      List.range' held.clear.nextId patch.boxes.length :=
    hnext.symm ▸ Patch.map_placeFrom hwired.nodup held.nextId
  have hnew : ∀ box ∈ patch.boxes, ∀ entry ∈ ([] : Renumbering), entry.1 ≠ box.id :=
    fun _ _ => List.forall_mem_nil _
  obtain ⟨built, copies, hbuilt, hbuiltWires, hbuiltBodies, hcopies, hrenumbering⟩ :=
    readBoxes_copies
      (fun box hbox => (catalog_editPatch studio number _).symm ▸ hboxes box hbox) hwired.nodup
      (fun box hbox => hfinds.fits box.id (List.mem_map_of_mem hbox)) hcleared hplaces hnew
  rw [hempty, List.nil_append] at hbuiltBodies
  rw [hnone] at hbuiltWires
  rw [List.append_nil] at hrenumbering
  have hids : built.ids.Nodup := by
    rw [← Patch.map_id_bodies, hbuiltBodies, Box.map_id_of_copies hcopies,
      Patch.map_placeFrom hwired.nodup]
    exact List.nodup_range'
  -- Wires at different places stay so, so that none is in the way of another.
  have hsingle : (built.connections ++
      patch.connections.map (Connection.renumber (patch.placeFrom held.nextId))).Pairwise
        fun first second =>
          second.joins first.source first.outlet first.target first.inlet = false := by
    rw [hbuiltWires, List.nil_append, List.pairwise_map]
    exact hwired.single.imp_of_mem fun hfirst hsecond happart =>
      Connection.joins_renumber hfinds.apart (hwired.sits _ hfirst) (hwired.sits _ hsecond) happart
  obtain ⟨later, hlater, hbodies, hwires⟩ := readLinks_copies hfinds hwired.sits
    (fun wire hwire => hfits.ports_lt (hwired.sits wire hwire)) hbuilt hids
    (hbuiltBodies.symm ▸ hcopies) hsingle
  rw [← hbuiltBodies, ← hbodies, Patch.bodies, List.forall₂_map_left_iff] at hcopies
  refine ⟨later, ?_, ?_, hcopies.imp fun _ _ hcopy => hcopy.of_body, ?_⟩
  · simp only [readPatch, Patch.get_boxes_reread, Patch.get_links_reread, hrenumbering]
    exact hlater
  · simp only [readPatch, Patch.get_boxes_reread, hrenumbering]
    rw [List.length_reverse, List.length_map]
  · rw [hwires, hbuiltWires, List.nil_append]

/-- A patch that was made from texts is wired well, and its boxes can be saved. -/
theorem savable_reviseAll {studio : Studio} {number : Nat} {start : Patch}
    (hstart : studio.patch? number = some start) (hbare : start.boxes = [] ∧ start.connections = [])
    {revisions : List Revision} (hreadable : ∀ revision ∈ revisions, revision.isReadable = true)
    {patch : Patch} (hpatch : (studio.reviseAll number revisions).patch? number = some patch)
    (hbuiltin : ∀ box ∈ patch.boxes, box.isBuiltin studio.catalog = true)
    (hback : (Atom.dico patch.write).every Atom.readsBack = true) :
    patch.Wired ∧ ∀ box ∈ patch.boxes, box.Savable studio.catalog := by
  have htells : studio.Tells number := by
    obtain ⟨hboxes, hconnections⟩ := hbare
    refine ⟨start, hstart, ⟨?_, ?_, ?_, ?_⟩, ?_⟩ <;>
      simp [Patch.ids, Patch.Made, hboxes, hconnections]
  obtain ⟨⟨found, hfound, hwired, hmade⟩, hsame⟩ := htells.reviseAll hreadable
  obtain rfl := Option.some.inj (hfound.symm.trans hpatch)
  rw [hsame] at hmade
  exact ⟨hwired, fun box hbox => ⟨hmade box hbox, hbuiltin box hbox,
    (Atom.every_dico.mp hback).2 ("boxes", _) List.mem_cons_self _ (List.mem_map_of_mem hbox)⟩⟩

/-- Take a patch that was empty, build boxes in it that every studio knows, wire and remove them, and set,
reset and freeze their attributes, with any text and any value of which the doubles are read back from
their numerals. Save it, and read its text into another patch, whatever is there: all boxes are built,
and the other patch is then saved like the first one but for the numbers of the boxes, which are in the
same order. It holds copies of the boxes one by one, and the same wires in the same order. -/
theorem read_text_write (studio : Studio) (number : Nat) {start : Patch}
    (hstart : studio.patch? number = some start) (hbare : start.boxes = [] ∧ start.connections = [])
    (revisions : List Revision) (hreadable : ∀ revision ∈ revisions, revision.isReadable = true)
    {patch : Patch} (hpatch : (studio.reviseAll number revisions).patch? number = some patch)
    (hbuiltin : ∀ box ∈ patch.boxes, box.isBuiltin studio.catalog = true) (hfits : patch.Fits)
    (hback : (Atom.dico patch.write).every Atom.readsBack = true) (other : Studio)
    (hcatalog : other.catalog = studio.catalog) (place : Nat) {held : Patch}
    (hheld : other.patch? place = some held) :
    (other.readPatch place (Notation.read (Notation.text patch.write))).2 = patch.boxes.length ∧
      ∃ later renumbering,
        (other.readPatch place (Notation.read (Notation.text patch.write))).1.patch? place =
          some later ∧
        (∀ first ∈ patch.ids, ∀ second ∈ patch.ids, first < second →
          renumbering first < renumbering second) ∧
        Dico.same later.write (patch.renumber renumbering).write = true ∧
        List.Forall₂ (Box.Copy renumbering) later.boxes patch.boxes ∧
        later.connections = patch.connections.map (Connection.renumber renumbering) := by
  obtain ⟨hwired, hsavable⟩ := savable_reviseAll hstart hbare hreadable hpatch hbuiltin hback
  rw [← hcatalog] at hsavable
  obtain ⟨later, hlater, hcount, hcopies, hwires⟩ := readPatch_copies hheld hwired hsavable hfits
  rw [Notation.read_text (Patch.keeps_write hsavable)]
  exact ⟨hcount, later, patch.placeFrom held.nextId, hlater, hwired.placeFrom_lt held.nextId,
    Patch.same_write hcopies hwires, hcopies, hwires⟩

/-- A patch in which boxes have come and gone, and attributes are set, frozen and out of bounds. -/
def sketch : List Revision :=
  [.create "metro 250.5", .create "osc~ 440.5", .create "dac~", .connect 1 0 2 0,
    .set 1 "position" [.double 10.5, .long 20], .freeze 1 "position" true,
    .set 1 "position" [.long (-3), .long 20], .create "print \"a \\\" b\" 1.0", .connect 0 0 3 0,
    .remove 2, .create "dac~", .connect 1 0 4 0, .set 0 "interval" [.long 0]]

/-- The sketch is read into a patch that holds a box already. -/
theorem read_text_write_sketch :
    ∃ patch, (fresh.reviseAll 0 sketch).patch? 0 = some patch ∧ patch.ids = [0, 1, 3, 4] ∧
      ((fresh.reviseAll 0 [.create "print"]).readPatch 0
        (Notation.read (Notation.text patch.write))).2 = 4 ∧
      ∃ later renumbering,
        ((fresh.reviseAll 0 [.create "print"]).readPatch 0
          (Notation.read (Notation.text patch.write))).1.patch? 0 = some later ∧
        renumbering 1 < renumbering 3 ∧
        Dico.same later.write (patch.renumber renumbering).write = true ∧
        later.boxes.map Box.id = [0, 1, 3, 4].map renumbering := by
  have hsketch : ((fresh.reviseAll 0 sketch).patch? 0).any (fun patch =>
      decide (patch.ids = [0, 1, 3, 4]) && patch.boxes.all (Box.isBuiltin fresh.catalog) &&
        decide patch.Fits && (Atom.dico patch.write).every Atom.readsBack) = true := by
    decide +kernel
  have hheld : ((fresh.reviseAll 0 [.create "print"]).patch? 0).isSome = true := by decide +kernel
  obtain ⟨held, hheld⟩ := Option.isSome_iff_exists.mp hheld
  cases hpatch : (fresh.reviseAll 0 sketch).patch? 0 with
  | none =>
    rw [hpatch] at hsketch
    cases hsketch
  | some patch =>
    rw [hpatch, Option.any_some] at hsketch
    simp only [Bool.and_eq_true, decide_eq_true_eq, List.all_eq_true] at hsketch
    obtain ⟨⟨⟨hids, hbuiltin⟩, hfits⟩, hback⟩ := hsketch
    obtain ⟨hcount, later, renumbering, hlater, hmonotone, hsame, hcopies, -⟩ :=
      read_text_write fresh 0 (rfl : fresh.patch? 0 = some {}) ⟨rfl, rfl⟩ sketch
        (by decide +kernel) hpatch hbuiltin hfits hback (fresh.reviseAll 0 [.create "print"])
        (by decide +kernel) 0 hheld
    have hlength : patch.boxes.length = 4 := by
      rw [← List.length_map Box.id]
      exact congrArg List.length hids
    rw [hids] at hmonotone
    refine ⟨patch, rfl, hids, hcount.trans hlength, later, renumbering, hlater,
      hmonotone 1 (by decide) 3 (by decide) (by decide), hsame, ?_⟩
    rw [Box.map_id_of_copies hcopies, ← hids, Patch.ids, List.map_map]
    rfl

end Studio

end Patchbay
