import Mathlib.Data.List.Nodup
import Patchbay.Proofs.Patch.Wired

/-!
# Paths along wires

The paths out of a box with less than so many wires, listed depth first: a path stands before those that
go on from it, and where two paths part, the one along the wire drawn earlier comes first. Each path is
listed once, be the wires in a circle or not.
-/

namespace Patchbay

/-- The wires follow one another out of a box. -/
def IsPath (wires : List Connection) : Nat → List Connection → Prop
  | _, [] => True
  | box, wire :: path => wire ∈ wires ∧ wire.source = box ∧ IsPath wires wire.target path

/-- The paths out of a box with less than so many wires. -/
def walks (wires : List Connection) : Nat → Nat → List (List Connection)
  | 0, _ => []
  | count + 1, box =>
    [] :: (wires.filter fun wire => wire.source == box).flatMap fun wire =>
      (walks wires count wire.target).map (wire :: ·)

/-- One path is the start of another, or goes along the wire drawn earlier where they part. -/
def Precedes (wires : List Connection) (first second : List Connection) : Prop :=
  List.Lex (· < ·) (first.map wires.idxOf) (second.map wires.idxOf)

variable {wires : List Connection}

/-- The listed paths are all that are short enough. -/
theorem mem_walks_iff {count box : Nat} {path : List Connection} :
    path ∈ walks wires count box ↔ IsPath wires box path ∧ path.length < count := by
  induction count generalizing box path with
  | zero => simp [walks]
  | succ count ih =>
    cases path with
    | nil => simp [walks, IsPath]
    | cons wire path =>
      simp only [walks, List.mem_cons, reduceCtorEq, false_or, List.mem_flatMap, List.mem_filter,
        beq_iff_eq, List.mem_map, List.cons.injEq, IsPath, List.length_cons, Nat.add_lt_add_iff_right]
      constructor
      · rintro ⟨other, ⟨hmem, hsource⟩, rest, hrest, rfl, rfl⟩
        obtain ⟨hpath, hlength⟩ := ih.mp hrest
        exact ⟨⟨hmem, hsource, hpath⟩, hlength⟩
      · rintro ⟨⟨hmem, hsource, hpath⟩, hlength⟩
        exact ⟨wire, ⟨hmem, hsource⟩, path, ih.mpr ⟨hpath, hlength⟩, rfl, rfl⟩

/-- Wires that are all different stand in the order of their places. -/
theorem pairwise_idxOf (h : wires.Nodup) :
    wires.Pairwise fun first second => wires.idxOf first < wires.idxOf second := by
  rw [List.pairwise_iff_getElem]
  intro i j hi hj hij
  rw [h.idxOf_getElem i hi, h.idxOf_getElem j hj]
  exact hij

/-- The paths are listed depth first, along the wires in their order. -/
theorem pairwise_walks (h : wires.Nodup) (count box : Nat) :
    (walks wires count box).Pairwise (Precedes wires) := by
  induction count generalizing box with
  | zero => exact .nil
  | succ count ih =>
    rw [walks, List.pairwise_cons, List.pairwise_flatMap]
    refine ⟨fun path hpath => ?_, fun wire _ => ?_, ?_⟩
    · obtain ⟨wire, -, hpath⟩ := List.mem_flatMap.mp hpath
      obtain ⟨rest, -, rfl⟩ := List.mem_map.mp hpath
      exact .nil
    · exact (ih wire.target).map _ fun _ _ hbefore => .cons hbefore
    · refine ((pairwise_idxOf h).sublist List.filter_sublist).imp fun hplace path hpath other hother => ?_
      obtain ⟨rest, -, rfl⟩ := List.mem_map.mp hpath
      obtain ⟨others, -, rfl⟩ := List.mem_map.mp hother
      exact .rel hplace

/-- The wires of a patch are all different. -/
theorem Patch.Wired.nodup_connections {patch : Patch} (h : patch.Wired) :
    patch.connections.Nodup := by
  refine h.single.imp fun hjoins heq => ?_
  simp [heq, Connection.joins] at hjoins

end Patchbay
