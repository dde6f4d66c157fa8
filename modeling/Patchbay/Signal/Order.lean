/-!
# An order of execution

Which boxes come before which, given who feeds whom. Boxes that nothing feeds come first, in the
order in which they are listed, and then each box as soon as the last of those that feed it has
come. Boxes that never become free are fed from a cycle; they are left out.
-/

namespace Patchbay.Order

/-- Who feeds whom: one pair of box numbers for every wire. -/
abbrev Feeds := List (Nat × Nat)

/-- The number of wires that end at a box. -/
def inDegree (feeds : Feeds) (box : Nat) : Nat := feeds.countP fun feed => feed.2 == box

/-- The boxes that a box feeds, one for every wire, in the order of the wires. -/
def fedBy (feeds : Feeds) (box : Nat) : List Nat :=
  (feeds.filter fun feed => feed.1 == box).map Prod.snd

/-- Take one wire off each of the given boxes. The result is how many wires are left for every box,
and the boxes that became free, in order. -/
def release (waiting : Nat → Nat) : List Nat → (Nat → Nat) × List Nat
  | [] => (waiting, [])
  | box :: rest =>
    let left := waiting box - 1
    let (after, free) := release (fun other => if other = box then left else waiting other) rest
    (after, if left = 0 then box :: free else free)

/-- Take the boxes in a queue one by one, and add those that become free to its end; at most `steps`
boxes are taken. -/
def run (feeds : Feeds) : Nat → List Nat → (Nat → Nat) → List Nat
  | 0, _, _ => []
  | _ + 1, [], _ => []
  | steps + 1, box :: queue, waiting =>
    let (after, free) := release waiting (fedBy feeds box)
    box :: run feeds steps (queue ++ free) after

/-- The order of execution of the boxes that are not fed from a cycle. -/
def execution (boxes : List Nat) (feeds : Feeds) : List Nat :=
  run feeds boxes.length (boxes.filter fun box => inDegree feeds box == 0) (inDegree feeds)

end Patchbay.Order
