import Patchbay.Proofs.Patch.Walks
import Patchbay.Proofs.Studio.Operation
import Patchbay.Studio.Delivery

/-!
# Messages passed along the wires

In a patch of boxes that pass messages on or print them, a message from outside is delivered once along
every path of wires out of the box it is sent to, so long as the deliveries do not nest too deeply. A
reaction leaves such a box as it is and undoes its own nesting, so each delivery finds the patch as it
was when the message was sent; what arrives follows from the wires alone.
-/

namespace Patchbay

/-- Decide whether the event is the delivery of a message. -/
def Event.isDelivery : Event → Bool
  | .received _ _ _ _ => true
  | _ => false

/-- The box is as the plan says. -/
def Box.Follows (box : Box) (plan : Plan Control) : Prop :=
  (∃ service, box.machine = .control (plan.state service)) ∧ box.inlets = plan.inlets ∧
    box.outlets = plan.outlets

/-- The box passes messages on, or prints them. -/
def Box.Relays (box : Box) : Prop :=
  box.Follows Control.planPass ∨ ∃ site, box.Follows (Control.planPrint site)

/-- The delivery at the end of a path out of a box, when one at the box itself is at a given inlet and
level of nesting. -/
def arrival (number : Nat) (atoms : List Atom) : Nat → Nat → Nat → List Connection → Event
  | box, inlet, level, [] => .received ⟨number, box⟩ inlet atoms level
  | _, _, level, wire :: path => arrival number atoms wire.target wire.inlet (level + 1) path

namespace Patch

variable {patch : Patch}

/-- Every wire out of such a box is for messages, starts at its first outlet and ends at a box that is
there. -/
theorem Wired.relays (h : patch.Wired) (hrelays : ∀ box ∈ patch.boxes, box.Relays)
    {wire : Connection} (hwire : wire ∈ patch.connections) :
    (∃ box ∈ patch.boxes, box.id = wire.source ∧ box.Follows Control.planPass) ∧
      wire.signal = false ∧ wire.outlet = 0 ∧ wire.target ∈ patch.ids := by
  obtain ⟨source, hsource, target, htarget, output, input, hsourceId, htargetId, -, houtput, -, -,
    hsignal⟩ := h.sits wire hwire
  have hid : wire.target ∈ patch.ids := htargetId ▸ List.mem_map_of_mem htarget
  rcases hrelays source hsource with hpass | ⟨site, hprint⟩
  · have houtlets : source.outlets = [.control "the same message"] := hpass.2.2
    have houtlet : wire.outlet = 0 := by
      have hlength := (List.getElem?_eq_some_iff.mp houtput).1
      rw [houtlets, List.length_singleton] at hlength
      omega
    rw [houtlets, houtlet, List.getElem?_cons_zero] at houtput
    obtain rfl := Option.some.inj houtput
    exact ⟨⟨source, hsource, hsourceId, hpass⟩, hsignal, houtlet, hid⟩
  · rw [hprint.2.2] at houtput
    cases houtput

/-- Messages out of the first outlet of a box go along all wires out of it. -/
theorem Wired.targets_eq (h : patch.Wired) (hrelays : ∀ box ∈ patch.boxes, box.Relays) (box : Nat) :
    patch.targets box 0 = (patch.connections.filter fun wire => wire.source == box).map
      fun wire => (wire.target, wire.inlet) := by
  unfold targets
  congr 1
  refine List.filter_congr fun wire hwire => ?_
  obtain ⟨-, hsignal, houtlet, htarget⟩ := h.relays hrelays hwire
  obtain ⟨target, -, hfound, -⟩ := exists_box?_of_mem_ids htarget
  simp [hsignal, houtlet, hfound]

/-- No wire leads out of a box that prints. -/
theorem Wired.filter_source_of_print (h : patch.Wired) (hrelays : ∀ box ∈ patch.boxes, box.Relays)
    {id : Nat} {box : Box} (hbox : patch.box? id = some box) {site : Site}
    (hprint : box.Follows (Control.planPrint site)) :
    (patch.connections.filter fun wire => wire.source == id) = [] := by
  refine List.filter_eq_nil_iff.mpr fun wire hwire hsource => ?_
  obtain ⟨⟨source, hmem, hsourceId, hpass⟩, -⟩ := h.relays hrelays hwire
  have hsame : source = box :=
    eq_of_find? h.nodup hbox hmem (hsourceId.trans (beq_iff_eq.mp hsource))
  have houtlets := hprint.2.2
  rw [← hsame, hpass.2.2] at houtlets
  cases houtlets

end Patch

namespace Studio

/-- The deliveries that happened, the first one first. -/
def deliveries (studio : Studio) : List Event := (studio.events.filter Event.isDelivery).reverse

/-- The studio holds the patch; what was taken out of it does not matter. -/
def Holds (studio : Studio) (number : Nat) (patch : Patch) : Prop :=
  ∃ retired, studio.patch? number = some { patch with retired }

/-- The later studio holds the patch at the same nesting, and certain deliveries have happened since. -/
structure Delivered (number : Nat) (patch : Patch) (studio later : Studio) (events : List Event) :
    Prop where
  holds : later.Holds number patch
  nesting : later.nesting = studio.nesting
  deliveries : later.deliveries = studio.deliveries ++ events

variable {number : Nat} {patch : Patch} {studio later last : Studio} {events more : List Event}

/-- Nothing was delivered if neither patches nor events nor the nesting are other ones. -/
theorem Delivered.of_same (h : studio.Holds number patch) (hpatches : later.patches = studio.patches)
    (hnesting : later.nesting = studio.nesting) (hevents : later.events = studio.events) :
    Delivered number patch studio later [] where
  holds := by
    obtain ⟨retired, hpatch⟩ := h
    exact ⟨retired, by rw [← hpatch, patch?, hpatches, patch?]⟩
  nesting := hnesting
  deliveries := by rw [Studio.deliveries, hevents, List.append_nil, Studio.deliveries]

/-- A line printed is no delivery. -/
theorem Delivered.print (h : studio.Holds number patch) (line : String) :
    Delivered number patch studio (studio.print line) [] :=
  .of_same h (by simp only [Studio.print]) (by simp only [Studio.print]) (by simp only [Studio.print])

/-- What was delivered in two steps. -/
theorem Delivered.trans (h : Delivered number patch studio later events)
    (hlast : Delivered number patch later last more) :
    Delivered number patch studio last (events ++ more) :=
  ⟨hlast.holds, hlast.nesting.trans h.nesting,
    by rw [hlast.deliveries, h.deliveries, List.append_assoc]⟩

/-- A box that reacts without a change stays as it is. -/
theorem Delivered.settleReaction (h : studio.Holds number patch) (hids : patch.ids.Nodup) {id : Nat}
    {box : Box} (hbox : patch.box? id = some box) (reaction : Reaction Machine)
    (hstate : reaction.state = box.machine) (hsheet : reaction.sheet = box.sheet) :
    Delivered number patch studio (studio.settleReaction ⟨number, id⟩ reaction) [] := by
  obtain ⟨retired, hpatch⟩ := h
  have hboxes : (patch.boxes.map fun other => if other.id = id then
      { other with machine := reaction.state, sheet := reaction.sheet } else other) =
      patch.boxes := by
    conv_rhs => rw [← List.map_id patch.boxes]
    refine List.map_congr_left fun other hother => ?_
    split
    · next hid =>
      obtain rfl := eq_of_find? hids hbox hother hid
      rw [hstate, hsheet]
      rfl
    · rfl
  have hsettled : studio.settleReaction ⟨number, id⟩ reaction = studio.setPatch number
      (Patch.updateBox { patch with retired } id fun other =>
        { other with machine := reaction.state, sheet := reaction.sheet }) := by
    unfold Studio.settleReaction
    rw [hpatch]
  rw [hsettled]
  refine ⟨⟨retired.map fun other => if other.id = id then
      { other with machine := reaction.state, sheet := reaction.sheet } else other, ?_⟩, rfl, ?_⟩
  · rw [patch?_setPatch hpatch, Patch.updateBox, hboxes]
  · exact (List.append_nil _).symm

/-- The studio within the delivery of a message. -/
def entered (studio : Studio) (handle : Handle) (inlet : Nat) (atoms : List Atom) : Studio :=
  { studio with
    nesting := studio.nesting + 1
    events := .received handle inlet atoms (studio.nesting + 1) :: studio.events }

/-- A delivery that would nest too deeply does nothing. -/
theorem deliver_too_deep (levels : Nat) {id : Nat} (inlet : Nat) (atoms : List Atom)
    (h : studio.Holds number patch) (hdeep : patch.depthLimit ≤ studio.nesting) :
    (deliver levels ⟨number, id⟩ inlet atoms studio).1 = studio := by
  obtain ⟨retired, hpatch⟩ := h
  cases levels with
  | zero => rw [deliver]
  | succ levels => simp [deliver, hpatch, Nat.not_lt.mpr hdeep]

/-- Any other delivery to a box of the patch has the box react, and is over when the effects of its
reaction are. -/
theorem deliver_succ (levels : Nat) {id : Nat} (inlet : Nat) (atoms : List Atom)
    (h : studio.Holds number patch) (hdeep : studio.nesting < patch.depthLimit) {box : Box}
    (hbox : patch.box? id = some box) {reaction : Reaction Machine}
    (hreaction : box.machine.receive (studio.surroundings ⟨number, id⟩ box.sheet) inlet atoms =
      reaction)
    (hafter : Delivered number patch (studio.entered ⟨number, id⟩ inlet atoms)
      (carryOut levels ⟨number, id⟩ reaction.effects
        ((studio.entered ⟨number, id⟩ inlet atoms).settleReaction ⟨number, id⟩ reaction)).1 events) :
    Delivered number patch studio (deliver (levels + 1) ⟨number, id⟩ inlet atoms studio).1
      (.received ⟨number, id⟩ inlet atoms (studio.nesting + 1) :: events) := by
  obtain ⟨retired, hpatch⟩ := h
  have hfound : Patch.boxOrRetired? { patch with retired } id = some box := by
    have hbox : Patch.box? { patch with retired } id = some box := hbox
    rw [Patch.boxOrRetired?, hbox]
    rfl
  have hdeliver : (deliver (levels + 1) ⟨number, id⟩ inlet atoms studio).1 =
      let after := (carryOut levels ⟨number, id⟩ reaction.effects
        ((studio.entered ⟨number, id⟩ inlet atoms).settleReaction ⟨number, id⟩ reaction)).1
      { after with nesting := after.nesting - 1 } := by
    simp [deliver, hpatch, hdeep, hfound, hreaction, entered]
  rw [hdeliver]
  obtain ⟨hholds, hnesting, hdeliveries⟩ := hafter
  refine ⟨hholds, ?_, ?_⟩
  · show _ - 1 = _
    rw [hnesting]
    rfl
  · refine Eq.trans hdeliveries ?_
    simp only [deliveries, entered]
    rw [List.filter_cons_of_pos rfl, List.reverse_cons, List.append_assoc, List.singleton_append]

/-- Messages along wires out of boxes bring about what each of them does. -/
theorem deliverAll_relay (levels : Nat) (atoms : List Atom) (wires : List Connection)
    (hdeliver : ∀ {studio : Studio} {wire : Connection}, wire ∈ wires → studio.Holds number patch →
      patch.depthLimit ≤ studio.nesting + levels →
      Delivered number patch studio (deliver levels ⟨number, wire.target⟩ wire.inlet atoms studio).1
        ((walks patch.connections (patch.depthLimit - studio.nesting) wire.target).map
          (arrival number atoms wire.target wire.inlet (studio.nesting + 1))))
    {studio : Studio} (h : studio.Holds number patch)
    (hlevels : patch.depthLimit ≤ studio.nesting + levels) :
    Delivered number patch studio
      (deliverAll levels number atoms (wires.map fun wire => (wire.target, wire.inlet)) studio)
      (wires.flatMap fun wire =>
        (walks patch.connections (patch.depthLimit - studio.nesting) wire.target).map
          (arrival number atoms wire.target wire.inlet (studio.nesting + 1))) := by
  induction wires generalizing studio with
  | nil =>
    rw [List.map_nil, deliverAll]
    exact .of_same h rfl rfl rfl
  | cons wire wires ih =>
    have hfirst := hdeliver List.mem_cons_self h hlevels
    have hrest := ih (fun hwire => hdeliver (List.mem_cons_of_mem wire hwire)) hfirst.holds
      (hfirst.nesting ▸ hlevels)
    rw [hfirst.nesting] at hrest
    rw [List.map_cons, deliverAll, List.flatMap_cons]
    exact hfirst.trans hrest

/-- The deliveries along the paths out of a box are the one at the box and, wire by wire, those along
the paths that go on. -/
theorem map_arrival_walks (wires : List Connection) (count : Nat) (atoms : List Atom)
    (box inlet level : Nat) :
    (walks wires (count + 1) box).map (arrival number atoms box inlet level) =
      .received ⟨number, box⟩ inlet atoms level ::
        (wires.filter fun wire => wire.source == box).flatMap fun wire =>
          (walks wires count wire.target).map
            (arrival number atoms wire.target wire.inlet (level + 1)) := by
  simp [walks, List.map_flatMap, arrival, Function.comp_def]

/-- The only effect of a box that passes on. -/
theorem carryOut_send (levels : Nat) (handle : Handle) (atoms : List Atom) (studio : Studio) :
    (carryOut levels handle [.send 0 atoms] studio).1 = sendOut levels handle 0 atoms studio := by
  simp [carryOut]

/-- The only effect of a box that prints. -/
theorem carryOut_print (levels : Nat) (handle : Handle) (line : String) (studio : Studio) :
    (carryOut levels handle [.print line] studio).1 = studio.print line := by
  simp [carryOut]

/-- A message out of the first outlet of a box goes along every wire out of the box. -/
theorem sendOut_relay (hwired : patch.Wired) (hrelays : ∀ box ∈ patch.boxes, box.Relays)
    (h : studio.Holds number patch) (levels id : Nat) (atoms : List Atom) :
    ∃ sent, Delivered number patch studio sent [] ∧
      sendOut levels ⟨number, id⟩ 0 atoms studio = deliverAll levels number atoms
        ((patch.connections.filter fun wire => wire.source == id).map
          fun wire => (wire.target, wire.inlet)) sent := by
  obtain ⟨retired, hpatch⟩ := h
  refine ⟨{ studio with events := .sent ⟨number, id⟩ 0 atoms :: studio.events },
    ⟨⟨retired, hpatch⟩, rfl, ?_⟩, ?_⟩
  · rw [Studio.deliveries, List.filter_cons_of_neg Bool.false_ne_true, List.append_nil,
      Studio.deliveries]
  · have htargets : Patch.targets { patch with retired } id 0 =
        (patch.connections.filter fun wire => wire.source == id).map
          fun wire => (wire.target, wire.inlet) := hwired.targets_eq hrelays id
    rw [sendOut, hpatch]
    simp only [htargets]

/-- A box that passes on sends the message along all wires out of it. -/
theorem deliver_pass (hwired : patch.Wired) (hrelays : ∀ box ∈ patch.boxes, box.Relays)
    (levels : Nat) {id : Nat} (inlet : Nat) (atoms : List Atom) (h : studio.Holds number patch)
    (hdeep : studio.nesting < patch.depthLimit) {box : Box} (hbox : patch.box? id = some box)
    (hpass : box.Follows Control.planPass)
    (hall : ∀ sent : Studio, sent.Holds number patch → sent.nesting = studio.nesting + 1 →
      Delivered number patch sent (deliverAll levels number atoms
        ((patch.connections.filter fun wire => wire.source == id).map
          fun wire => (wire.target, wire.inlet)) sent) events) :
    Delivered number patch studio (deliver (levels + 1) ⟨number, id⟩ inlet atoms studio).1
      (.received ⟨number, id⟩ inlet atoms (studio.nesting + 1) :: events) := by
  obtain ⟨service, hmachine⟩ := hpass.1
  let reaction : Reaction Machine := ⟨box.machine, box.sheet, [.send 0 atoms], .known true⟩
  have hreaction : box.machine.receive (studio.surroundings ⟨number, id⟩ box.sheet) inlet atoms =
      reaction := by
    simp only [reaction, hmachine]
    rfl
  have hentered : (studio.entered ⟨number, id⟩ inlet atoms).Holds number patch := h
  refine deliver_succ levels inlet atoms h hdeep hbox hreaction ?_
  have hsettled := Delivered.settleReaction hentered hwired.nodup hbox reaction rfl rfl
  obtain ⟨sent, hsent, hsendOut⟩ := sendOut_relay hwired hrelays hsettled.holds levels id atoms
  have hbefore := hsettled.trans hsent
  rw [carryOut_send, hsendOut]
  exact hbefore.trans (hall sent hbefore.holds hbefore.nesting)

/-- A box that prints sends nothing on. -/
theorem deliver_print (hwired : patch.Wired) (levels : Nat) {id : Nat} (inlet : Nat)
    (atoms : List Atom) (h : studio.Holds number patch) (hdeep : studio.nesting < patch.depthLimit)
    {box : Box} (hbox : patch.box? id = some box) {site : Site}
    (hprint : box.Follows (Control.planPrint site)) :
    Delivered number patch studio (deliver (levels + 1) ⟨number, id⟩ inlet atoms studio).1
      [.received ⟨number, id⟩ inlet atoms (studio.nesting + 1)] := by
  obtain ⟨label, hlabel⟩ : ∃ label, box.machine = .control (.print label) := by
    obtain ⟨service, hmachine⟩ := hprint.1
    exact ⟨_, hmachine⟩
  let reaction : Reaction Machine :=
    ⟨box.machine, box.sheet, [.print (Control.printed label atoms)], .known true⟩
  have hreaction : box.machine.receive (studio.surroundings ⟨number, id⟩ box.sheet) inlet atoms =
      reaction := by
    simp only [reaction, hlabel]
    rfl
  have hentered : (studio.entered ⟨number, id⟩ inlet atoms).Holds number patch := h
  refine deliver_succ levels inlet atoms h hdeep hbox hreaction ?_
  have hsettled := Delivered.settleReaction hentered hwired.nodup hbox reaction rfl rfl
  rw [carryOut_print]
  exact hsettled.trans (.print hsettled.holds _)

/-- A delivery to a box that passes on or prints brings about one delivery for each path out of the box,
as far as the nesting allows. -/
theorem deliver_relay (hwired : patch.Wired) (hrelays : ∀ box ∈ patch.boxes, box.Relays)
    (levels : Nat) (atoms : List Atom) {id : Nat} (inlet : Nat) (hid : id ∈ patch.ids)
    {studio : Studio} (h : studio.Holds number patch)
    (hlevels : patch.depthLimit ≤ studio.nesting + levels) :
    Delivered number patch studio (deliver levels ⟨number, id⟩ inlet atoms studio).1
      ((walks patch.connections (patch.depthLimit - studio.nesting) id).map
        (arrival number atoms id inlet (studio.nesting + 1))) := by
  induction levels generalizing id inlet studio with
  | zero =>
    have hnone : patch.depthLimit - studio.nesting = 0 := Nat.sub_eq_zero_of_le hlevels
    rw [deliver_too_deep 0 inlet atoms h hlevels, hnone, walks]
    exact .of_same h rfl rfl rfl
  | succ levels ih =>
    by_cases hdeep : studio.nesting < patch.depthLimit
    swap
    · have hover := Nat.not_lt.mp hdeep
      rw [deliver_too_deep _ inlet atoms h hover, Nat.sub_eq_zero_of_le hover, walks]
      exact .of_same h rfl rfl rfl
    obtain ⟨box, hmem, hbox, -⟩ := Patch.exists_box?_of_mem_ids hid
    have hcount : patch.depthLimit - studio.nesting =
        patch.depthLimit - (studio.nesting + 1) + 1 := by omega
    rw [hcount, map_arrival_walks]
    rcases hrelays box hmem with hpass | ⟨site, hprint⟩
    · refine deliver_pass hwired hrelays levels inlet atoms h hdeep hbox hpass ?_
      intro sent hsent hnesting
      rw [← hnesting]
      exact deliverAll_relay levels atoms _ (fun hwire hholds hlevels => ih _
        (hwired.relays hrelays (List.mem_of_mem_filter hwire)).2.2.2 hholds hlevels) hsent (by omega)
    · rw [hwired.filter_source_of_print hrelays hbox hprint, List.flatMap_nil]
      exact deliver_print hwired levels inlet atoms h hdeep hbox hprint

/-- No patch lets deliveries nest more deeply than there are levels. -/
theorem depthLimit_lt_levels (hpatch : studio.patch? number = some patch) :
    patch.depthLimit < studio.levels := by
  have hfold : ∀ (patches : List (Nat × Patch)) (most : Nat),
      most ≤ patches.foldl (fun most entry => max most entry.2.depthLimit) most ∧
        ∀ entry ∈ patches,
          entry.2.depthLimit ≤ patches.foldl (fun most entry => max most entry.2.depthLimit) most := by
    intro patches
    induction patches with
    | nil => simp
    | cons first rest ih =>
      intro most
      obtain ⟨hmost, hrest⟩ := ih (max most first.2.depthLimit)
      refine ⟨(Nat.le_max_left _ _).trans hmost, fun entry hentry => ?_⟩
      rcases List.mem_cons.mp hentry with rfl | hentry
      · exact (Nat.le_max_right _ _).trans hmost
      · exact hrest entry hentry
  obtain ⟨entry, hentry, rfl⟩ := Option.map_eq_some_iff.mp hpatch
  exact Nat.lt_succ_of_le ((hfold studio.patches 0).2 entry (List.mem_of_find?_eq_some hentry))

/-- A message sent from outside into a patch of boxes that pass on and print is delivered, unchanged,
once along each path of wires out of the box that has fewer wires than deliveries may nest, depth first
and in the order of the wires, and nothing else is delivered. If no path is longer, all are there. -/
theorem send_relay {studio : Studio} {number : Nat} {patch : Patch}
    (hpatch : studio.patch? number = some patch) (hnesting : studio.nesting = 0)
    (hwired : patch.Wired) (hrelays : ∀ box ∈ patch.boxes, box.Relays) {id : Nat}
    (hid : id ∈ patch.ids) (atoms : List Atom) :
    ∃ paths : List (List Connection),
      (∀ path, path ∈ paths ↔
        IsPath patch.connections id path ∧ path.length < patch.depthLimit) ∧
      paths.Pairwise (Precedes patch.connections) ∧
      (studio.send ⟨number, id⟩ 0 atoms).1.deliveries =
        studio.deliveries ++ paths.map (arrival number atoms id 0 1) ∧
      ((∀ path, IsPath patch.connections id path → path.length < patch.depthLimit) →
        ∀ path, IsPath patch.connections id path → path ∈ paths) := by
  refine ⟨walks patch.connections patch.depthLimit id, fun path => mem_walks_iff,
    pairwise_walks hwired.nodup_connections _ _, ?_, fun hshort path hpath =>
      mem_walks_iff.mpr ⟨hpath, hshort path hpath⟩⟩
  obtain ⟨box, hmem, hbox, -⟩ := Patch.exists_box?_of_mem_ids hid
  have hinlet : patch.checkInlet id 0 = .ok () := by
    rcases hrelays box hmem with hpass | ⟨site, hprint⟩
    · simp [Patch.checkInlet, hbox, hpass.2.1, Control.planPass, Inlet.takesControl, Inlet.control]
      rfl
    · simp [Patch.checkInlet, hbox, hprint.2.1, Control.planPrint, Inlet.takesControl, Inlet.control]
      rfl
  have hlevels : patch.depthLimit ≤ studio.nesting + studio.levels := by
    have hless := depthLimit_lt_levels hpatch
    omega
  have hdelivered := deliver_relay hwired hrelays studio.levels atoms 0 hid
    ⟨patch.retired, hpatch⟩ hlevels
  rw [hnesting] at hdelivered
  simp only [send, hpatch, hinlet]
  exact hdelivered.deliveries

/-- A box that passes messages on. -/
def passing (id : Nat) : Box :=
  ⟨id, "pass", "pass", Control.planPass.inlets, Control.planPass.outlets, [], .control .pass⟩

/-- A box that prints messages. -/
def printing (id : Nat) : Box :=
  ⟨id, "print", "print", (Control.planPrint default).inlets, (Control.planPrint default).outlets, [],
    .control ((Control.planPrint default).state 0)⟩

/-- Two boxes that pass messages to each other, the first also to one that prints. Deliveries may nest
three deep. -/
def echo : Patch where
  boxes := [passing 0, passing 1, printing 2]
  connections := [⟨0, 0, 1, 0, false⟩, ⟨1, 0, 0, 0, false⟩, ⟨0, 0, 2, 0, false⟩]
  nextId := 3
  depthLimit := 3

/-- Its wires hold. -/
theorem wired_echo : echo.Wired where
  ascending := by decide
  given := by decide
  sits wire hwire := by
    have hfirst : passing 0 ∈ echo.boxes := List.mem_cons_self
    have hsecond : passing 1 ∈ echo.boxes := List.mem_cons_of_mem _ List.mem_cons_self
    have hthird : printing 2 ∈ echo.boxes := by simp [echo]
    simp only [echo, List.mem_cons, List.not_mem_nil, or_false] at hwire
    rcases hwire with rfl | rfl | rfl
    · exact ⟨_, hfirst, _, hsecond, _, _, rfl, rfl, by decide, rfl, rfl, rfl, rfl⟩
    · exact ⟨_, hsecond, _, hfirst, _, _, rfl, rfl, by decide, rfl, rfl, rfl, rfl⟩
    · exact ⟨_, hfirst, _, hthird, _, _, rfl, rfl, by decide, rfl, rfl, rfl, rfl⟩
  single := by decide

/-- Its boxes pass on or print. -/
theorem relays_echo : ∀ box ∈ echo.boxes, box.Relays := by
  intro box hbox
  simp only [echo, List.mem_cons, List.not_mem_nil, or_false] at hbox
  rcases hbox with rfl | rfl | rfl
  · exact Or.inl ⟨⟨0, rfl⟩, rfl, rfl⟩
  · exact Or.inl ⟨⟨0, rfl⟩, rfl, rfl⟩
  · exact Or.inr ⟨default, ⟨0, rfl⟩, rfl, rfl⟩

/-- The paths of at most two wires in a circle, of which the longest is where deliveries end. -/
theorem send_relay_echo :
    ∃ paths : List (List Connection),
      (∀ path, path ∈ paths ↔ IsPath echo.connections 0 path ∧ path.length < 3) ∧
      paths.Pairwise (Precedes echo.connections) ∧
      ((({ patches := [(0, echo)] } : Studio).send ⟨0, 0⟩ 0 [bang]).1.deliveries =
        ({ patches := [(0, echo)] } : Studio).deliveries ++ paths.map (arrival 0 [bang] 0 0 1)) ∧
      ((∀ path, IsPath echo.connections 0 path → path.length < 3) →
        ∀ path, IsPath echo.connections 0 path → path ∈ paths) := by
  have hecho : ({ patches := [(0, echo)] } : Studio).patch? 0 = some echo := rfl
  exact send_relay hecho rfl wired_echo relays_echo (by decide) [bang]

end Studio

end Patchbay
