import Mathlib.Data.List.Basic
import Patchbay.Proofs.Signal.Dataflow

/-!
# Who takes over a buffer

A box that works in place takes over the buffer at the far end of its one wire. That wire is all that
arrives at the box, and the only one to leave its outlet. The box has no buffer of its own then, and
its first outlet stands where the buffer stood.
-/

namespace Patchbay.Chain

open Dataflow

variable {σ S : Type} {wires : List Connection} {blockSize : Nat}

/-- A box takes over the buffer at the far end of a wire: it can work in place, nothing but this wire
ends at it, nothing but this wire leaves the outlet, and it puts out one signal, at its first outlet. -/
structure TakesOver (wires : List Connection) (node : SignalNode) (edge : Connection) : Prop where
  able : node.inPlace = true
  incoming : (wires.filter fun wire => wire.target == node.id) = [edge]
  atFirst : edge.inlet = 0
  unshared : fanOut wires edge.source edge.outlet = 1
  first : node.outlets.head? = some true
  sole : node.outlets.count true = 1

/-- A box has a buffer to change in place exactly when it takes one over, wherever that stands. -/
theorem inPlaceSource?_eq_some_iff (placed : Placement) (node : SignalNode) (location : Location) :
    inPlaceSource? wires placed node = some location ↔
      ∃ edge, TakesOver wires node edge ∧ placed edge.source edge.outlet = location := by
  unfold inPlaceSource?
  split
  · next edge hincoming =>
    constructor
    · intro h
      simp only [Option.ite_none_right_eq_some, Bool.and_eq_true, beq_iff_eq,
        Option.some.injEq] at h
      obtain ⟨⟨⟨⟨⟨hable, hsole⟩, hfirst⟩, hinlet⟩, hunshared⟩, hlocation⟩ := h
      exact ⟨edge, ⟨hable, hincoming, hinlet, hunshared, hfirst, hsole⟩, hlocation⟩
    · rintro ⟨other, h, rfl⟩
      obtain rfl : edge = other := by simpa [hincoming] using h.incoming
      simp [h.able, h.sole, h.first, h.atFirst, h.unshared]
  · next hnone =>
    constructor
    · intro h
      cases h
    · rintro ⟨edge, h, -⟩
      exact absurd h.incoming (hnone edge)

/-- A box that takes over no buffer has none to change in place. -/
theorem inPlaceSource?_eq_none {placed : Placement} {node : SignalNode}
    (hnot : ∀ edge, ¬ TakesOver wires node edge) : inPlaceSource? wires placed node = none := by
  rw [Option.eq_none_iff_forall_ne_some]
  intro location hlocation
  obtain ⟨edge, hedge, -⟩ := (inPlaceSource?_eq_some_iff placed node location).mp hlocation
  exact hnot edge hedge

/-- The step of a box that takes over no buffer. -/
theorem stepOf_of_not_takesOver (placed : Placement) {node : SignalNode}
    (hnot : ∀ edge, ¬ TakesOver wires node edge) :
    stepOf wires placed node =
      { id := node.id
        feeds := (List.range node.inlets).map fun inlet =>
          feedOf ((arriving wires node.id inlet).map fun edge => placed edge.source edge.outlet)
        inPlace? := none
        buffers := node.outlets } := by
  simp only [stepOf, inPlaceSource?_eq_none hnot, arriving, List.filter_filter, Bool.and_comm]

/-- The outlets of a box without a buffer to change in place stand at its own step. -/
theorem place_of_not_takesOver (placed : Placement) (position : Nat) {node : SignalNode}
    (hnot : ∀ edge, ¬ TakesOver wires node edge) (id outlet : Nat) :
    place placed position (stepOf wires placed node) id outlet =
      if id = node.id then ⟨position, outlet⟩ else placed id outlet := by
  rw [stepOf_of_not_takesOver placed hnot]
  rfl

namespace TakesOver

variable {node : SignalNode} {edge : Connection}

/-- The wire is one of those that count, and it ends at the box. -/
theorem mem (h : TakesOver wires node edge) : edge ∈ wires ∧ edge.target = node.id := by
  have hmem : edge ∈ wires.filter fun wire => wire.target == node.id := by simp [h.incoming]
  simpa using List.mem_filter.mp hmem

/-- No other wire leaves the outlet. -/
theorem eq_of_outlet (h : TakesOver wires node edge) {wire : Connection} (hwire : wire ∈ wires)
    (hsource : wire.source = edge.source) (houtlet : wire.outlet = edge.outlet) : wire = edge := by
  have hlength := h.unshared
  rw [fanOut, List.countP_eq_length_filter] at hlength
  obtain ⟨only, honly⟩ := List.length_eq_one_iff.mp hlength
  have hmem : ∀ {other : Connection}, other ∈ wires → other.source = edge.source →
      other.outlet = edge.outlet → other = only := by
    intro other hother hsource houtlet
    rw [← List.mem_singleton, ← honly, List.mem_filter]
    simp [hother, hsource, houtlet]
  rw [hmem hwire hsource houtlet, hmem h.mem.1 rfl rfl]

/-- Only the first outlet puts out a signal. -/
theorem outlets_eq (h : TakesOver wires node edge) :
    ∃ others, node.outlets = true :: others ∧ ∀ signal ∈ others, signal = false := by
  obtain ⟨others, heq⟩ := List.head?_eq_some_iff.mp h.first
  have hcount := h.sole
  rw [heq, List.count_cons_self] at hcount
  refine ⟨others, heq, fun signal hsignal => ?_⟩
  have hzero : others.count true = 0 := by omega
  cases signal with
  | false => rfl
  | true => exact absurd hsignal (List.count_eq_zero.mp hzero)

/-- Only the first outlet puts out a signal, by its index. -/
theorem outlet_eq_zero (h : TakesOver wires node edge) {outlet : Nat}
    (hsignal : node.outlets[outlet]? = some true) : outlet = 0 := by
  obtain ⟨others, heq, hothers⟩ := h.outlets_eq
  rw [heq] at hsignal
  cases outlet with
  | zero => rfl
  | succ outlet => exact absurd (hothers true (List.mem_of_getElem? hsignal)) (by decide)

/-- The step of a box that takes over a buffer. -/
theorem stepOf_eq (h : TakesOver wires node edge) (placed : Placement) :
    stepOf wires placed node =
      { id := node.id
        feeds := List.replicate node.inlets .silence
        inPlace? := some (placed edge.source edge.outlet)
        buffers := node.outlets.map fun _ => false } := by
  rw [stepOf, (inPlaceSource?_eq_some_iff placed node _).mpr ⟨edge, h, rfl⟩]

/-- The first outlet of a box that takes over a buffer stands where that buffer is. -/
theorem place_eq (h : TakesOver wires node edge) (placed : Placement) (position id outlet : Nat) :
    place placed position (stepOf wires placed node) id outlet =
      if id = node.id then
        if outlet = 0 then placed edge.source edge.outlet else ⟨position, outlet⟩
      else placed id outlet := by
  rw [h.stepOf_eq placed]
  rfl

/-- The wire is all that arrives at the first inlet, and nothing arrives at the others. -/
theorem arriving_eq (h : TakesOver wires node edge) (inlet : Nat) :
    arriving wires node.id inlet = if inlet = 0 then [edge] else [] := by
  have hfilter : arriving wires node.id inlet =
      (wires.filter fun wire => wire.target == node.id).filter fun wire => wire.inlet == inlet := by
    simp only [arriving, List.filter_filter, Bool.and_comm]
  rw [hfilter, h.incoming]
  by_cases hinlet : inlet = 0
  · simp [hinlet, h.atFirst]
  · simp [hinlet, h.atFirst, Ne.symm hinlet]

/-- The first inlet sees what the source of the wire has produced. -/
theorem seen_first (h : TakesOver wires node edge) (processor : Processor σ S)
    (produced : Nat → Nat → Buffer σ) :
    seen processor blockSize wires produced node.id 0 =
      some (produced edge.source edge.outlet) := by
  simp [seen, merge, h.arriving_eq]

/-- The other inlets see nothing. -/
theorem seen_other (h : TakesOver wires node edge) (processor : Processor σ S)
    (produced : Nat → Nat → Buffer σ) {inlet : Nat} (hinlet : inlet ≠ 0) :
    seen processor blockSize wires produced node.id inlet = none := by
  simp [seen, merge, h.arriving_eq, hinlet]

end TakesOver

end Patchbay.Chain
