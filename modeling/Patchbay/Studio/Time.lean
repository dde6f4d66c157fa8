import Patchbay.Studio.Delivery

/-!
# The passing of time

Time stands still while messages are delivered. It passes when someone outside waits: the tasks that
are due on the way are run in their order. A tick asks its box, if that is still there.

Boxes can ask for ticks without end at one moment, so a wait runs only so many tasks.
-/

namespace Patchbay.Studio

/-- How many tasks are run during one wait. -/
def taskLimit : Nat := 100000

/-- Run the task that is due first, and tell which it was. -/
def runNext (studio : Studio) : Studio × Option (Timed Task) :=
  match studio.timeline.next? with
  | none => (studio, none)
  | some (entry, timeline) =>
    let advanced := { studio with timeline }
    match entry.task with
    | .tick handle => ((advanced.tickBox handle).1, some entry)
    | .mark => (advanced, some entry)

/-- Run tasks until the mark of a number has been taken, at most `steps` of them. -/
def runToMark (number : Nat) : Nat → Studio → Studio
  | 0, studio => studio
  | steps + 1, studio =>
    match studio.runNext with
    | (studio, none) => studio
    | (studio, some entry) =>
      if entry.number = number then studio else runToMark number steps studio

/-- Let an amount of time pass. What falls due at its very end is run if it was asked for before. -/
def pass (studio : Studio) (wait : Nat) : Studio :=
  let number := studio.timeline.submitted
  let (timeline, _) := studio.timeline.schedule wait .mark
  runToMark number taskLimit { studio with timeline }

/-- Run tasks until so many messages have been heard on the beacon of a name, at most `steps` of
them. -/
def runToCount (name : String) (count : Nat) : Nat → Studio → Studio
  | 0, studio => studio
  | steps + 1, studio =>
    if count ≤ studio.heardCount name then studio
    else
      match studio.runNext with
      | (studio, none) => studio
      | (studio, some _) => runToCount name count steps studio

/-- Let time pass until so many messages have been heard on the beacon of a name. -/
def waitFor (studio : Studio) (name : String) (count : Nat) : Studio :=
  runToCount name count taskLimit studio

end Patchbay.Studio
