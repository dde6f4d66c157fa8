import Patchbay.Box.Reaction

/-!
# Timing boxes

Ticks cannot be called back, so a timing box keeps the time at which it expects to fire. A tick that
comes when no time is armed, or before the armed time, was asked for by a request that has been
superseded or stopped, and is ignored.
-/

namespace Patchbay

/-- A timing box: the generation of its clock, and the time for which it is armed. -/
inductive Timing where
  /-- Bang once after a number of milliseconds. -/
  | delay (clock : Nat) (milliseconds : Float) (armed? : Option Nat)
  /-- Bang again and again, at the interval held by an attribute. -/
  | metro (clock : Nat) (armed? : Option Nat)
deriving Inhabited

namespace Timing

/-- The name of the attribute that holds the interval. -/
def intervalName : String := "interval"

/-- The interval, in milliseconds, when none is given. -/
def defaultInterval : Float := 500.0

/-- Plan a delay; its argument is the time. -/
def planDelay (site : Site) : Plan Timing :=
  { inlets := [.control "bang starts, stop cancels, number sets and starts",
      (Inlet.control "delay time (ms)").cold]
    outlets := [.control "bang"]
    service := .clock
    state := fun clock => .delay clock ((site.number? 0).getD 0.0) none }

/-- Plan a metronome; its argument is the interval. -/
def planMetro (site : Site) : Plan Timing :=
  let interval := match site.number? 0 with
    | some given => Attribute.raise 1.0 given
    | none => defaultInterval
  { inlets := [.control "non-zero/bang/start runs, 0/stop halts",
      (Inlet.control "interval (ms)").cold]
    outlets := [.control "bang"]
    attributes := [
      (((Attribute.declare intervalName .double [.double interval]).withLabel
        "Interval (ms)").withCategory "Behavior").withMin 1.0]
    service := .clock
    state := fun clock => .metro clock none }

/-- The interval of a metronome as time to wait. -/
def interval (sheet : Sheet) : Nat :=
  waitOfMilliseconds (((sheet.value intervalName).head?.map Atom.toDouble).getD defaultInterval)

/-- Arm a delay and ask for the tick. -/
def startDelay (here : Surroundings) (clock : Nat) (milliseconds : Float) : Reaction Timing :=
  let wait := waitOfMilliseconds milliseconds
  { state := .delay clock milliseconds (some (here.now + wait))
    sheet := here.sheet
    effects := [.tickAfter clock wait]
    verdict := .asFirstEffect }

/-- Arm a metronome, ask for the tick, and then bang, so that a stop which the bang brings about
counts. -/
def startMetro (here : Surroundings) (clock : Nat) : Reaction Timing :=
  let wait := interval here.sheet
  { state := .metro clock (some (here.now + wait))
    sheet := here.sheet
    effects := [.tickAfter clock wait, .send 0 [bang]] }

/-- React to a message. -/
def receive (here : Surroundings) (inlet : Nat) (atoms : List Atom) (timing : Timing) :
    Reaction Timing :=
  match timing, atoms with
  | _, [] => .ignore timing here.sheet
  | .delay clock milliseconds armed?, first :: _ =>
    if inlet = 0 && first.isWord "bang" then startDelay here clock milliseconds
    else if inlet = 0 && first.isWord "stop" then
      { state := .delay clock milliseconds none, sheet := here.sheet }
    else if inlet = 0 && first.isNumber then startDelay here clock first.toDouble
    else if inlet = 1 && first.isNumber then
      { state := .delay clock first.toDouble armed?, sheet := here.sheet }
    else .ignore timing here.sheet
  | .metro clock _, first :: _ =>
    if inlet = 1 then
      if first.isNumber then
        { state := timing, sheet := (here.sheet.store? intervalName [first] false).getD here.sheet }
      else .ignore timing here.sheet
    else if first.isWord "bang" || first.isWord "start" then startMetro here clock
    else if first.isWord "stop" then { state := .metro clock none, sheet := here.sheet }
    else if first.isNumber then
      if first.toDouble == 0.0 then { state := .metro clock none, sheet := here.sheet }
      else startMetro here clock
    else .ignore timing here.sheet

/-- React to a tick. A metronome arms its next tick an interval after the one that was due, so that
it keeps its pace; if that has passed already, it starts afresh from now. -/
def tick (here : Surroundings) (timing : Timing) : Reaction Timing :=
  match timing with
  | .delay clock milliseconds (some due) =>
    if due ≤ here.now then
      { state := .delay clock milliseconds none, sheet := here.sheet, effects := [.send 0 [bang]] }
    else .ignore timing here.sheet
  | .metro clock (some due) =>
    if due ≤ here.now then
      let wait := interval here.sheet
      let next := if due + wait ≤ here.now then here.now + wait else due + wait
      { state := .metro clock (some next)
        sheet := here.sheet
        effects := [.tickAfter clock (next - here.now), .send 0 [bang]] }
    else .ignore timing here.sheet
  | _ => .ignore timing here.sheet

end Timing

end Patchbay
