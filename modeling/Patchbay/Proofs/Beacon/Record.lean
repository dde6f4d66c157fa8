import Patchbay.Beacon.Broadcast

/-!
# Runs with a record

What is asked of the beacons of a registry, from outside and by castaways in turn, with a log of all its
moments in order. A run with its log is carried out as the run without, so nothing is logged that does
not happen, and all that happens is logged.
-/

namespace Patchbay

/-- A moment of a run. Of two broadcasts each is known by the place of its beginning in the log. -/
inductive Moment (C : Type) where
  | bound (number : Nat) (castaway : C)
  | unbound (number : Nat) (castaway : C)
  | gone (castaway : C)
  | began (number : Nat) (name : String) (atoms : List Atom)
  | reached (start : Nat) (heard : Heard C)
  | ended (start count : Nat)

namespace Airwaves

/-- What can be asked of the beacons of a registry. -/
inductive Request (C : Type) where
  | create (name : String)
  | clear
  | bind (number : Nat) (castaway : C)
  | unbind (number : Nat) (castaway : C)
  | drop (castaway : C)
  | broadcast (number : Nat) (atoms : List Atom)

variable {C S : Type} [DecidableEq C]

/-- Do what is asked. There is no result if the beacon has never been made, or if castaways answer one
another more deeply than the limit allows. -/
def request (respond : Responder C S) (limit : Nat) (air : Airwaves C S) :
    Request C → Option (Airwaves C S)
  | .create name => some { air with registry := (air.registry.create name).1 }
  | .clear => some { air with registry := air.registry.clear }
  | .bind number castaway =>
    if number < air.registry.beacons.length then
      some { air with registry := air.registry.bind number castaway }
    else none
  | .unbind number castaway =>
    if number < air.registry.beacons.length then
      some { air with registry := air.registry.unbind number castaway }
    else none
  | .drop castaway => some { air with registry := air.registry.forget fun other => other = castaway }
  | .broadcast number atoms =>
    if number < air.registry.beacons.length then
      (transmit respond limit number atoms air).map Prod.fst
    else none

end Airwaves

/-- A run with the log of its moments. -/
structure Recorded (C S : Type) where
  air : Airwaves C S
  log : List (Moment C) := []

namespace Recorded

open Airwaves (Request)

variable {C S : Type}

/-- The run at another state of the registry, after one more moment. -/
def note (run : Recorded C S) (registry : Registry C) (moment : Moment C) : Recorded C S where
  air := { run.air with registry }
  log := run.log ++ [moment]

/-- A message has reached a castaway, and the state has settled on the responses. -/
def hear (run : Recorded C S) (state : S) (start : Nat) (heard : Heard C) : Recorded C S where
  air := { run.air with state, heard := run.air.heard ++ [heard] }
  log := run.log ++ [.reached start heard]

variable [DecidableEq C]

mutual

/-- Deliver a message of the broadcast that began at `start` to a list of castaways. -/
def deliver (respond : Responder C S) (depth number start : Nat) (atoms : List Atom) :
    List C → Recorded C S → Option (Recorded C S)
  | [], run => some run
  | castaway :: rest, run =>
    match depth with
    | 0 => none
    | depth + 1 =>
      let (state, responses) := respond run.air.state castaway atoms
      let heard : Heard C := ⟨castaway, run.air.registry.nameOf number, atoms⟩
      (carryOut respond depth number responses (run.hear state start heard)).bind fun run =>
        deliver respond (depth + 1) number start atoms rest run
termination_by castaways => (depth, 0, castaways.length)

/-- Carry out the responses to a message of one beacon. -/
def carryOut (respond : Responder C S) (depth number : Nat) :
    List (Response C) → Recorded C S → Option (Recorded C S)
  | [], run => some run
  | .bind castaway :: rest, run =>
    carryOut respond depth number rest
      (run.note (run.air.registry.bind number castaway) (.bound number castaway))
  | .unbind castaway :: rest, run =>
    carryOut respond depth number rest
      (run.note (run.air.registry.unbind number castaway) (.unbound number castaway))
  | .broadcast name atoms :: rest, run =>
    let (registry, other) := run.air.registry.create name
    (transmit respond depth other atoms { run with air := { run.air with registry } }).bind
      fun (run, _) => carryOut respond depth number rest run
termination_by responses => (depth, 2, responses.length)

/-- Broadcast a message on a beacon; the count is that of the castaways it has. -/
def transmit (respond : Responder C S) (depth number : Nat) (atoms : List Atom)
    (run : Recorded C S) : Option (Recorded C S × Nat) :=
  let castaways := run.air.registry.castaways number
  let start := run.log.length
  let begun := run.note run.air.registry (.began number (run.air.registry.nameOf number) atoms)
  (deliver respond depth number start atoms castaways begun).map fun run =>
    (run.note run.air.registry (.ended start castaways.length), castaways.length)
termination_by (depth, 1, 0)

end

/-- Do what is asked. -/
def request (respond : Responder C S) (limit : Nat) (run : Recorded C S) :
    Request C → Option (Recorded C S)
  | .create name =>
    some { run with air := { run.air with registry := (run.air.registry.create name).1 } }
  | .clear => some { run with air := { run.air with registry := run.air.registry.clear } }
  | .bind number castaway =>
    if number < run.air.registry.beacons.length then
      some (run.note (run.air.registry.bind number castaway) (.bound number castaway))
    else none
  | .unbind number castaway =>
    if number < run.air.registry.beacons.length then
      some (run.note (run.air.registry.unbind number castaway) (.unbound number castaway))
    else none
  | .drop castaway =>
    some (run.note (run.air.registry.forget fun other => other = castaway) (.gone castaway))
  | .broadcast number atoms =>
    if number < run.air.registry.beacons.length then
      (transmit respond limit number atoms run).map Prod.fst
    else none

/-! ### The log does not matter to the run -/

variable {respond : Responder C S}

section Depth

variable {depth number : Nat}

theorem carryOut_air
    (htransmit : ∀ other atoms run, (transmit respond depth other atoms run).map
      (fun result => (result.1.air, result.2)) = Airwaves.transmit respond depth other atoms run.air)
    (responses : List (Response C)) (run : Recorded C S) :
    (carryOut respond depth number responses run).map air =
      Airwaves.carryOut respond depth number responses run.air := by
  induction responses generalizing run with
  | nil => rw [carryOut, Airwaves.carryOut, Option.map_some]
  | cons response rest ih =>
    cases response with
    | bind castaway => rw [carryOut, Airwaves.carryOut, ih, note]
    | unbind castaway => rw [carryOut, Airwaves.carryOut, ih, note]
    | broadcast name atoms =>
      have hsent := htransmit (run.air.registry.create name).2 atoms
        { run with air := { run.air with registry := (run.air.registry.create name).1 } }
      rw [carryOut, Airwaves.carryOut]
      dsimp only at hsent ⊢
      rw [← hsent, Option.map_bind, Option.bind_map]
      congr 1
      funext result
      exact ih result.1

theorem deliver_air
    (hcarry : ∀ responses run, (carryOut respond depth number responses run).map air =
      Airwaves.carryOut respond depth number responses run.air)
    (start : Nat) (atoms : List Atom) (castaways : List C) (run : Recorded C S) :
    (deliver respond (depth + 1) number start atoms castaways run).map air =
      Airwaves.deliver respond (depth + 1) number atoms castaways run.air := by
  induction castaways generalizing run with
  | nil => rw [deliver, Airwaves.deliver, Option.map_some]
  | cons castaway rest ih =>
    have hcarried := hcarry (respond run.air.state castaway atoms).2
      (run.hear (respond run.air.state castaway atoms).1 start
        ⟨castaway, run.air.registry.nameOf number, atoms⟩)
    rw [deliver, Airwaves.deliver]
    dsimp only [hear] at hcarried ⊢
    rw [← hcarried, Option.map_bind, Option.bind_map]
    congr 1
    funext later
    exact ih later

theorem transmit_air_of_deliver
    (hdeliver : ∀ number start atoms castaways run,
      (deliver respond depth number start atoms castaways run).map air =
        Airwaves.deliver respond depth number atoms castaways run.air)
    (atoms : List Atom) (run : Recorded C S) :
    (transmit respond depth number atoms run).map (fun result => (result.1.air, result.2)) =
      Airwaves.transmit respond depth number atoms run.air := by
  rw [transmit, Airwaves.transmit]
  have hdelivered := hdeliver number run.log.length atoms (run.air.registry.castaways number)
    (run.note run.air.registry (.began number (run.air.registry.nameOf number) atoms))
  dsimp only [note] at hdelivered ⊢
  rw [← hdelivered, Option.map_map, Option.map_map]
  rfl

end Depth

/-- A broadcast with a log is the broadcast without, at every depth. -/
theorem transmit_air (depth number : Nat) (atoms : List Atom) (run : Recorded C S) :
    (transmit respond depth number atoms run).map (fun result => (result.1.air, result.2)) =
      Airwaves.transmit respond depth number atoms run.air := by
  induction depth generalizing number atoms run with
  | zero =>
    apply transmit_air_of_deliver
    intro number start atoms castaways run
    cases castaways with
    | nil => rw [deliver, Airwaves.deliver, Option.map_some]
    | cons castaway rest => rw [deliver, Airwaves.deliver, Option.map_none]
  | succ depth ih =>
    apply transmit_air_of_deliver
    intro number start atoms castaways run
    exact deliver_air (carryOut_air ih) start atoms castaways run

/-- So is whatever is asked. -/
theorem request_air (limit : Nat) (run : Recorded C S) (request : Request C) :
    (run.request respond limit request).map air = run.air.request respond limit request := by
  cases request with
  | create | clear | drop => rfl
  | bind number castaway | unbind number castaway =>
    unfold Recorded.request Airwaves.request
    dsimp only
    split <;> rfl
  | broadcast number atoms =>
    unfold Recorded.request Airwaves.request
    dsimp only
    split
    · rw [← transmit_air, Option.map_map, Option.map_map]
      rfl
    · rfl

/-- A run of requests with a log is the run without, and has a result whenever that has one. -/
theorem requests_air (limit : Nat) (requests : List (Request C)) (run : Recorded C S) :
    (requests.foldlM (Recorded.request respond limit) run).map air =
      requests.foldlM (Airwaves.request respond limit) run.air := by
  induction requests generalizing run with
  | nil => rfl
  | cons request requests ih =>
    rw [List.foldlM_cons, List.foldlM_cons, ← request_air]
    change (Option.bind _ _).map air = Option.bind _ _
    rw [Option.map_bind, Option.bind_map]
    congr 1
    funext later
    exact ih later

end Recorded

end Patchbay
