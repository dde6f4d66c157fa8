import Mathlib.Data.List.Perm.Basic
import Patchbay.Proofs.Signal.Splitting

/-!
# What a block depends on

When a sweep is over, every box that was visited has made what it makes of the signals that the others
have produced: the order of the visits can no longer be told from the result. So a box depends on those
from which signal wires lead to it, be it over any number of others, and on no other box.

Two graphs may therefore differ in all boxes that have no influence on the bus. A block leaves the same
on the output channels, provided that it makes no difference in which order signals are added there.
-/

namespace Patchbay

variable {σ α S : Type}

/-! ### Adding to channels in any order -/

/-- Signals may be added into a buffer in another order. -/
theorem Buffer.addInto_right_comm {add : σ → σ → σ} (hcomm : ∀ x y, add x y = add y x)
    (hassoc : ∀ x y z, add (add x y) z = add x (add y z)) (buffer first second : Buffer σ) :
    (buffer.addInto add first).addInto add second = (buffer.addInto add second).addInto add first := by
  apply List.ext_getElem?
  intro index
  simp only [getElem?_addInto, Option.map_map]
  congr 1
  funext x
  cases first[index]? with
  | none => rfl
  | some y =>
    cases second[index]? with
    | none => rfl
    | some z =>
      change add (add x y) z = add (add x z) y
      rw [hassoc, hcomm y z, ← hassoc]

/-- So may signals be added to the channels of a bus. -/
theorem Bus.addOutput_right_comm {add : σ → σ → σ} (hcomm : ∀ x y, add x y = add y x)
    (hassoc : ∀ x y z, add (add x y) z = add x (add y z)) (bus : Bus σ)
    (first second : Nat × Buffer σ) :
    (bus.addOutput add first.1 first.2).addOutput add second.1 second.2 =
      (bus.addOutput add second.1 second.2).addOutput add first.1 first.2 := by
  simp only [addOutput, Bus.mk.injEq, true_and]
  apply List.ext_getElem?
  intro channel
  simp only [List.getElem?_modify, Option.map_eq_map, Option.map_map]
  congr 1
  funext buffer
  by_cases hfirst : first.1 = channel
  · by_cases hsecond : second.1 = channel
    · simpa [hfirst, hsecond] using Buffer.addInto_right_comm hcomm hassoc buffer first.2 second.2
    · simp [hfirst, hsecond]
  · simp [hfirst]

namespace Dataflow

variable {processor : Processor σ S} {look : S → Nat → α}
  {act : α → Inputs σ → List (Buffer σ) → α × Outputs σ} {wires : List Connection} {size : Nat}

/-! ### What boxes make of each other's signals -/

/-- What a box makes of a block in which all boxes produce the given signals, from the state in which it
is and from what is on the input channels. -/
def outcome (processor : Processor σ S) (act : α → Inputs σ → List (Buffer σ) → α × Outputs σ)
    (size : Nat) (wires : List Connection) (states : Nat → α) (channels : List (Buffer σ))
    (produced : Nat → Nat → Buffer σ) (node : SignalNode) : α × Outputs σ :=
  act (states node.id)
    ⟨(List.range node.inlets).map (seen processor size wires produced node.id), channels, size⟩
    (node.blank processor.zero size)

/-- An inlet sees the same if the same is produced at the other ends of the same wires. -/
theorem seen_congr {later : List Connection} {produced other : Nat → Nat → Buffer σ} {id inlet : Nat}
    (hwires : arriving wires id inlet = arriving later id inlet)
    (hproduced : ∀ edge ∈ wires, edge.target = id →
      produced edge.source edge.outlet = other edge.source edge.outlet) :
    seen processor size wires produced id inlet = seen processor size later other id inlet := by
  rw [seen, seen, ← hwires]
  congr 1
  refine List.map_congr_left fun edge hedge => ?_
  obtain ⟨hmem, hends⟩ := List.mem_filter.mp hedge
  rw [Bool.and_eq_true, beq_iff_eq] at hends
  exact hproduced edge hmem hends.1

/-- A box makes the same if it is in the same state and its inlets see the same. -/
theorem outcome_congr {later : List Connection} {states others : Nat → α} {channels : List (Buffer σ)}
    {produced other : Nat → Nat → Buffer σ} {node : SignalNode}
    (hstate : states node.id = others node.id)
    (hwires : ∀ inlet, arriving wires node.id inlet = arriving later node.id inlet)
    (hproduced : ∀ edge ∈ wires, edge.target = node.id →
      produced edge.source edge.outlet = other edge.source edge.outlet) :
    outcome processor act size wires states channels produced node =
      outcome processor act size later others channels other node := by
  have hseen : seen processor size wires produced node.id = seen processor size later other node.id :=
    funext fun inlet => seen_congr (hwires inlet) hproduced
  rw [outcome, outcome, hstate, hseen]

/-- All boxes that were visited have made what they make of the signals which they have produced, and the
bus has got what they have put there. -/
structure Settled (processor : Processor σ S) (look : S → Nat → α)
    (act : α → Inputs σ → List (Buffer σ) → α × Outputs σ) (size : Nat) (wires : List Connection)
    (nodes : List SignalNode) (stage last : Stage σ S) : Prop where
  produced : ∀ node ∈ nodes, ∀ outlet, last.produced node.id outlet =
    ((outcome processor act size wires (look stage.boxes) stage.bus.inputs last.produced
      node).2.outlets[outlet]?).getD []
  state : ∀ node ∈ nodes, look last.boxes node.id =
    (outcome processor act size wires (look stage.boxes) stage.bus.inputs last.produced node).1
  bus : last.bus = (nodes.flatMap fun node =>
      (outcome processor act size wires (look stage.boxes) stage.bus.inputs last.produced
        node).2.channels).foldl
    (fun bus channel => bus.addOutput processor.busMix channel.1 channel.2) stage.bus

/-- Boxes are listed after those that feed them. -/
def Ordered (wires : List Connection) (nodes : List SignalNode) : Prop :=
  ∀ before node after, nodes = before ++ node :: after →
    ∀ edge ∈ wires, edge.target = node.id → edge.source ∈ before.map SignalNode.id

/-- They stay settled when one more box is visited, if only boxes visited before feed any of them. -/
theorem Settled.visit (hseparate : processor.Separate look act) {nodes : List SignalNode}
    {node : SignalNode} {stage last : Stage σ S}
    (h : Settled processor look act size wires nodes stage last)
    (hfresh : node.id ∉ nodes.map SignalNode.id)
    (hfed : ∀ other ∈ nodes ++ [node], ∀ edge ∈ wires, edge.target = other.id →
      edge.source ∈ nodes.map SignalNode.id)
    (hstate : look last.boxes node.id = look stage.boxes node.id)
    (hinputs : last.bus.inputs = stage.bus.inputs) :
    Settled processor look act size wires (nodes ++ [node]) stage
      (visit processor size wires last node) := by
  have hmade : (processor.perform last.boxes node.id (inputs processor size wires node last)
      (node.blank processor.zero size)).2 =
        (outcome processor act size wires (look stage.boxes) stage.bus.inputs last.produced node).2 := by
    rw [hseparate.outputs, hstate, inputs, hinputs, outcome]
  have hsame : ∀ other ∈ nodes ++ [node],
      outcome processor act size wires (look stage.boxes) stage.bus.inputs
          (Dataflow.visit processor size wires last node).produced other =
        outcome processor act size wires (look stage.boxes) stage.bus.inputs last.produced other := by
    intro other hother
    refine outcome_congr rfl (fun _ => rfl) fun edge hedge htarget => ?_
    have hsource : edge.source ≠ node.id := fun heq =>
      hfresh (heq ▸ hfed other hother edge hedge htarget)
    simp only [Dataflow.visit, perform, hsource, if_false]
  refine ⟨fun other hother outlet => ?_, fun other hother => ?_, ?_⟩
  · rw [hsame other hother]
    rcases List.mem_append.mp hother with hold | hlast
    · have hother : other.id ≠ node.id := fun heq => hfresh (heq ▸ List.mem_map_of_mem hold)
      simp only [Dataflow.visit, perform, hother, if_false]
      exact h.produced other hold outlet
    · obtain rfl := List.mem_singleton.mp hlast
      simp only [Dataflow.visit, perform, if_true, hmade]
  · rw [hsame other hother, look_visit hseparate]
    rcases List.mem_append.mp hother with hold | hlast
    · have hother : other.id ≠ node.id := fun heq => hfresh (heq ▸ List.mem_map_of_mem hold)
      rw [Function.update_of_ne hother]
      exact h.state other hold
    · obtain rfl := List.mem_singleton.mp hlast
      rw [Function.update_self, hstate, inputs, hinputs, outcome]
  · rw [List.flatMap_congr fun other hother => congrArg (fun made => made.2.channels) (hsame other hother),
      List.flatMap_append, List.foldl_append, ← h.bus, List.flatMap_singleton, ← hmade]
    rfl

/-- A sweep that visits each box after those that feed it leaves all boxes settled. -/
theorem settled_sweep (hseparate : processor.Separate look act) {nodes : List SignalNode}
    (hnodup : (nodes.map SignalNode.id).Nodup) (hordered : Ordered wires nodes)
    (stage : Stage σ S) :
    Settled processor look act size wires nodes stage (sweep processor size wires nodes stage) := by
  -- The induction is on the last visit: it changes nothing that a box visited before has seen.
  induction nodes using List.reverseRecOn with
  | nil => exact ⟨nofun, nofun, rfl⟩
  | append_singleton nodes node ih =>
    rw [List.map_append, List.map_singleton, List.nodup_append] at hnodup
    obtain ⟨hnodup, -, hnew⟩ := hnodup
    have hfresh : node.id ∉ nodes.map SignalNode.id := fun hmem =>
      hnew node.id hmem node.id (List.mem_singleton_self _) rfl
    have hsettled := ih hnodup fun before other after heq =>
      hordered before other (after ++ [node]) (by rw [heq, List.append_assoc, List.cons_append])
    have hsweep : sweep processor size wires (nodes ++ [node]) stage =
        visit processor size wires (sweep processor size wires nodes stage) node := by
      rw [sweep, List.foldl_append, ← sweep]
      rfl
    rw [hsweep]
    refine hsettled.visit hseparate hfresh (fun other hother edge hedge htarget => ?_)
      (look_sweep_of_notMem hseparate size hfresh stage) (inputs_sweep nodes stage)
    rcases List.mem_append.mp hother with hold | hlast
    · obtain ⟨before, after, rfl⟩ := List.append_of_mem hold
      have hsource := hordered before other (after ++ [node]) (by simp) edge hedge htarget
      rw [List.map_append]
      exact List.mem_append_left _ hsource
    · obtain rfl := List.mem_singleton.mp hlast
      exact hordered nodes other [] rfl edge hedge htarget

/-! ### Boxes that count -/

/-- Two graphs have the same boxes among those that count, and the same wires to them, all of which come
from such boxes. -/
structure Agree (counts : Nat → Prop) (wires later : List Connection)
    (nodes others : List SignalNode) : Prop where
  boxes : ∀ node : SignalNode, counts node.id → (node ∈ nodes ↔ node ∈ others)
  arriving : ∀ id, counts id → ∀ inlet,
    Dataflow.arriving wires id inlet = Dataflow.arriving later id inlet
  inside : ∀ edge ∈ wires, counts edge.target → counts edge.source

/-- A box that does not count puts nothing on the bus, whatever the others produce. -/
def Quiet (processor : Processor σ S) (act : α → Inputs σ → List (Buffer σ) → α × Outputs σ)
    (counts : Nat → Prop) (wires : List Connection) (nodes : List SignalNode) (states : Nat → α) :
    Prop :=
  ∀ node ∈ nodes, ¬ counts node.id → ∀ size channels produced,
    (outcome processor act size wires states channels produced node).2.channels = []

variable {counts : Nat → Prop} {later : List Connection} {nodes others : List SignalNode}
  {stage last opening ending : Stage σ S}

/-- Boxes that count produce the same in both graphs if they are in the same states at the start. -/
theorem Agree.produced_eq (hagree : Agree counts wires later nodes others)
    (h : Settled processor look act size wires nodes stage last)
    (hlater : Settled processor look act size later others opening ending)
    (hordered : Ordered wires nodes)
    (hstates : ∀ id, counts id → look stage.boxes id = look opening.boxes id)
    (hinputs : stage.bus.inputs = opening.bus.inputs) :
    ∀ node ∈ nodes, counts node.id → last.produced node.id = ending.produced node.id := by
  suffices hfront : ∀ before after, nodes = before ++ after → ∀ node ∈ before, counts node.id →
      last.produced node.id = ending.produced node.id from hfront nodes [] (by simp)
  -- The induction is on the boxes visited so far, the last of which is fed by the others.
  intro before
  induction before using List.reverseRecOn with
  | nil => exact fun _ _ => nofun
  | append_singleton before node ih =>
    intro after heq found hfound hcounts
    rw [List.append_assoc, List.singleton_append] at heq
    rcases List.mem_append.mp hfound with hold | hlast
    · exact ih (node :: after) heq found hold hcounts
    · obtain rfl := List.mem_singleton.mp hlast
      have hmem : found ∈ nodes := heq ▸ by simp
      funext outlet
      rw [h.produced found hmem, hlater.produced found ((hagree.boxes found hcounts).mp hmem), hinputs]
      rw [outcome_congr (hstates found.id hcounts) (hagree.arriving found.id hcounts)]
      intro edge hedge htarget
      obtain ⟨source, hsource, hid⟩ := List.mem_map.mp (hordered before found after heq edge hedge htarget)
      have hinside : counts source.id := hid ▸ hagree.inside edge hedge (htarget ▸ hcounts)
      rw [← hid, ih (found :: after) heq source hsource hinside]

/-- So they make the same. -/
theorem Agree.outcome_eq (hagree : Agree counts wires later nodes others)
    (h : Settled processor look act size wires nodes stage last)
    (hlater : Settled processor look act size later others opening ending)
    (hordered : Ordered wires nodes)
    (hstates : ∀ id, counts id → look stage.boxes id = look opening.boxes id)
    (hinputs : stage.bus.inputs = opening.bus.inputs) {node : SignalNode} (hnode : node ∈ nodes)
    (hcounts : counts node.id) :
    outcome processor act size wires (look stage.boxes) stage.bus.inputs last.produced node =
      outcome processor act size later (look opening.boxes) opening.bus.inputs ending.produced node := by
  rw [hinputs]
  refine outcome_congr (hstates node.id hcounts) (hagree.arriving node.id hcounts)
    fun edge hedge htarget => ?_
  obtain ⟨before, after, heq⟩ := List.append_of_mem hnode
  obtain ⟨source, hsource, hid⟩ := List.mem_map.mp (hordered before node after heq edge hedge htarget)
  have hinside : counts source.id := hid ▸ hagree.inside edge hedge (htarget ▸ hcounts)
  rw [← hid, hagree.produced_eq h hlater hordered hstates hinputs source (heq ▸ by simp [hsource]) hinside]

/-- Boxes that count put the same on the bus, be it in another order, and the others nothing. -/
theorem Agree.channels_perm (hagree : Agree counts wires later nodes others)
    (hnodup : nodes.Nodup) (hothers : others.Nodup) {give giveLater : SignalNode → List (Nat × Buffer σ)}
    (hsame : ∀ node ∈ nodes, counts node.id → give node = giveLater node)
    (hquiet : ∀ node ∈ nodes, ¬ counts node.id → give node = [])
    (hquietLater : ∀ node ∈ others, ¬ counts node.id → giveLater node = []) :
    (nodes.flatMap give).Perm (others.flatMap giveLater) := by
  classical
  have hcut : ∀ (nodes : List SignalNode) (give : SignalNode → List (Nat × Buffer σ)),
      (∀ node ∈ nodes, ¬ counts node.id → give node = []) →
      nodes.flatMap give = (nodes.filter fun node => counts node.id).flatMap give := by
    intro nodes give hquiet
    induction nodes with
    | nil => rfl
    | cons node rest ih =>
      obtain ⟨hfirst, hrest⟩ := List.forall_mem_cons.mp hquiet
      rw [List.flatMap_cons, ih hrest]
      by_cases hcounts : counts node.id
      · simp [hcounts]
      · simp [hcounts, hfirst hcounts]
  have hperm : (nodes.filter fun node => counts node.id).Perm
      (others.filter fun node => counts node.id) := by
    rw [List.perm_ext_iff_of_nodup (hnodup.filter _) (hothers.filter _)]
    intro node
    simp only [List.mem_filter, decide_eq_true_eq]
    exact and_congr_left (hagree.boxes node)
  rw [hcut nodes give hquiet, hcut others giveLater hquietLater]
  refine (List.Perm.of_eq (List.flatMap_congr fun node hnode => ?_)).trans (hperm.flatMap_right giveLater)
  obtain ⟨hmem, hcounts⟩ := List.mem_filter.mp hnode
  exact hsame node hmem (of_decide_eq_true hcounts)

variable (size) in
/-- A block leaves the same on the output channels in both graphs, and the boxes that count in the same
states, if it makes no difference in which order signals are added to a channel. -/
theorem Agree.block_eq (hagree : Agree counts wires later nodes others)
    (hseparate : processor.Separate look act)
    (hcomm : ∀ x y, processor.busMix x y = processor.busMix y x)
    (hassoc : ∀ x y z, processor.busMix (processor.busMix x y) z =
      processor.busMix x (processor.busMix y z))
    (hnodup : (nodes.map SignalNode.id).Nodup) (hothers : (others.map SignalNode.id).Nodup)
    (hordered : Ordered wires nodes) (horderedLater : Ordered later others) {boxes now : S}
    (hstates : ∀ id, counts id → look boxes id = look now id)
    (hquiet : Quiet processor act counts wires nodes (look boxes))
    (hquietLater : Quiet processor act counts later others (look now)) (outputs : Nat)
    (fed : List (Buffer σ)) :
    (block processor wires nodes outputs size boxes fed).2 =
        (block processor later others outputs size now fed).2 ∧
      ∀ id, counts id → look (block processor wires nodes outputs size boxes fed).1 id =
        look (block processor later others outputs size now fed).1 id := by
  let bus : Bus σ := ⟨fed, List.replicate outputs (Buffer.constant size processor.zero)⟩
  have h : Settled processor look act size wires nodes ⟨boxes, fun _ _ => [], bus⟩ _ :=
    settled_sweep hseparate hnodup hordered _
  have hlater : Settled processor look act size later others ⟨now, fun _ _ => [], bus⟩ _ :=
    settled_sweep hseparate hothers horderedLater _
  have hsame := fun (node : SignalNode) (hnode : node ∈ nodes) =>
    hagree.outcome_eq h hlater hordered hstates rfl hnode
  constructor
  · have hperm := hagree.channels_perm hnodup.of_map hothers.of_map
      (fun node hnode hcounts => congrArg (fun made => made.2.channels) (hsame node hnode hcounts))
      (fun node hnode hcounts => hquiet node hnode hcounts _ _ _)
      (fun node hnode hcounts => hquietLater node hnode hcounts _ _ _)
    simp only [block]
    rw [h.bus, hlater.bus]
    have : RightCommutative fun (bus : Bus σ) (channel : Nat × Buffer σ) =>
        bus.addOutput processor.busMix channel.1 channel.2 :=
      ⟨Bus.addOutput_right_comm hcomm hassoc⟩
    exact congrArg Bus.outputs (hperm.foldl_eq bus)
  · intro id hcounts
    by_cases hid : ∃ node ∈ nodes, node.id = id
    · obtain ⟨node, hnode, rfl⟩ := hid
      have hother := (hagree.boxes node hcounts).mp hnode
      exact (h.state node hnode).trans ((congrArg Prod.fst (hsame node hnode hcounts)).trans
        (hlater.state node hother).symm)
    · have hout : id ∉ nodes.map SignalNode.id := fun hmem => hid (List.mem_map.mp hmem)
      have houtLater : id ∉ others.map SignalNode.id := by
        intro hmem
        obtain ⟨node, hnode, rfl⟩ := List.mem_map.mp hmem
        exact hid ⟨node, (hagree.boxes node hcounts).mpr hnode, rfl⟩
      simp only [block]
      rw [look_sweep_of_notMem hseparate size hout, look_sweep_of_notMem hseparate size houtLater]
      exact hstates id hcounts

end Dataflow

end Patchbay
