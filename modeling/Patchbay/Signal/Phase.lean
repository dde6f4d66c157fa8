import Patchbay.Number.Cosine
import Patchbay.Signal.Sample

/-!
# Phases

The phase of an oscillator is a part of a turn, in doubles. Frequencies that are no numbers, or so
large that the turns cannot be counted, make it lose its place; all samples are a NaN then.
-/

namespace Patchbay

/-- Where an oscillator stands: at a part of a turn, or nowhere, with the NaN that lost it. -/
inductive Phase where
  | turned (part : Float)
  | lost (mark : Sample)
deriving Inhabited

namespace Phase

/-- The start of a turn. -/
def start : Phase := turned 0.0

/-- The phase at a part of a turn, if that is a number. -/
def ofPart (part : Float) : Phase := if part.isNaN then lost .invalid else turned part

/-- The phase after a number of turns: what is left when whole turns are taken off. -/
def ofTurns (turns : Float) : Phase :=
  let whole := if turns < 0.0 then turns.ceil else turns.floor
  let rest := turns - whole
  ofPart (if rest < 0.0 then rest + 1.0 else rest)

/-- A full turn as an angle. -/
def turn : Float := 6.283185307179586

/-- The sample of a cosine at a phase. -/
def sample : Phase → Sample
  | turned part => .ofDouble (Cosine.cosine (turn * part))
  | lost mark => mark

/-- The phase one sample later. Rates below one count as one. -/
def advance (rate : Float) (phase : Phase) (frequency : Sample) : Phase :=
  if frequency.isNaN then lost frequency.quiet
  else
    match phase with
    | lost mark => lost mark
    | turned part =>
      let next := part + frequency.toDouble / (if rate > 1.0 then rate else 1.0)
      ofPart (next - next.floor)

/-- The samples of a cosine for a list of frequencies, and the phase after them. -/
def oscillate (rate : Float) : Phase → List Sample → Phase × List Sample
  | phase, [] => (phase, [])
  | phase, frequency :: rest =>
    let (last, samples) := oscillate rate (phase.advance rate frequency) rest
    (last, phase.sample :: samples)

end Phase

end Patchbay
