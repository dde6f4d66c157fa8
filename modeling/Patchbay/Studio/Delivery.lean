import Patchbay.Studio.Editing

/-!
# Delivery of messages

A message is delivered at once: the box reacts, and everything that its reaction brings about is
done before the delivery is over. A message out of an outlet goes to the inlets that were wired
when it was sent, in the order of connecting, and a broadcast to the castaways that were bound when
it began.

Deliveries nest, and the level of nesting is counted across all patches. A delivery that would
exceed the limit of its patch is dropped. Every circle of messages passes through deliveries, so
there is always an end: the recursion below is on the number of levels left, and the limits are
reached before the levels are used up.
-/

namespace Patchbay.Studio

mutual

/-- Deliver a message to an inlet, and tell whether it was understood. -/
def deliver : Nat → Handle → Nat → List Atom → Studio → Studio × Bool
  | 0, _, _, _, studio => (studio, false)
  | levels + 1, handle, inlet, atoms, studio =>
    match (studio.patch? handle.patch).bind fun patch =>
        if studio.nesting < patch.depthLimit then patch.boxOrRetired? handle.box else none with
    | none => (studio, false)
    | some box =>
      let reaction := box.machine.receive (studio.surroundings handle box.sheet) inlet atoms
      let entered := { studio with
        nesting := studio.nesting + 1
        events := .received handle inlet atoms (studio.nesting + 1) :: studio.events }
      let (after, outcome) :=
        carryOut levels handle reaction.effects (entered.settleReaction handle reaction)
      ({ after with nesting := after.nesting - 1 },
        match reaction.verdict with
        | .known understood => understood
        | .asFirstEffect => outcome)
termination_by levels => (levels, 0, 0)

/-- Deliver a message to several inlets. -/
def deliverAll (levels : Nat) (patch : Nat) (atoms : List Atom) :
    List (Nat × Nat) → Studio → Studio
  | [], studio => studio
  | (id, inlet) :: rest, studio =>
    deliverAll levels patch atoms rest (deliver levels ⟨patch, id⟩ inlet atoms studio).1
termination_by targets => (levels, 1, targets.length)

/-- Send a message out of an outlet. -/
def sendOut (levels : Nat) (handle : Handle) (outlet : Nat) (atoms : List Atom) (studio : Studio) :
    Studio :=
  match studio.patch? handle.patch with
  | none => studio
  | some patch =>
    deliverAll levels handle.patch atoms (patch.targets handle.box outlet)
      { studio with events := .sent handle outlet atoms :: studio.events }
termination_by (levels, 2, 0)

/-- Let castaways have a message. A box sends it out of its first outlet. -/
def reach (levels : Nat) (atoms : List Atom) : List Castaway → Studio → Studio
  | [], studio => studio
  | .box handle :: rest, studio =>
    reach levels atoms rest <|
      if studio.isAlive handle then sendOut levels handle 0 atoms studio else studio
  | .listener number :: rest, studio =>
    reach levels atoms rest <|
      match studio.listeners.find? fun listener => listener.number == number with
      | none => studio
      | some listener =>
        let noted := studio.hear listener.beacon atoms
        match listener.reply? with
        | none => noted
        | some reply =>
          if noted.heardCount listener.beacon = reply.count then
            match (noted.patch? reply.target.patch).map fun patch =>
                patch.checkInlet reply.target.box reply.inlet with
            | some (Except.ok _) => (deliver levels reply.target reply.inlet reply.atoms noted).1
            | _ => noted
          else noted
termination_by castaways => (levels, 3, castaways.length)

/-- Carry out the effects of a reaction, and tell how the first one went. -/
def carryOut (levels : Nat) (handle : Handle) : List Effect → Studio → Studio × Bool
  | [], studio => (studio, true)
  | effect :: rest, studio =>
    let (after, outcome) : Studio × Bool := match effect with
      | .send outlet atoms => (sendOut levels handle outlet atoms studio, true)
      | .broadcast beacon atoms =>
        (reach levels atoms (studio.registry.castaways beacon) studio, true)
      | .print line => (studio.print line, true)
      | .tickAfter clock wait => studio.tickAfter handle clock wait
      | .edit edit => studio.applyEdit handle.patch edit
    ((carryOut levels handle rest after).1, outcome)
termination_by effects => (levels, 4, effects.length)

end

/-- More levels than any patch allows deliveries to nest. -/
def levels (studio : Studio) : Nat :=
  studio.patches.foldl (fun most entry => max most entry.2.depthLimit) 0 + 1

/-- Send a message to an inlet from outside, and tell whether it was understood. -/
def send (studio : Studio) (handle : Handle) (inlet : Nat) (atoms : List Atom) :
    Studio × Except PatchError Bool :=
  match studio.patch? handle.patch with
  | none => (studio, .error (.boxNotFound handle.box))
  | some patch =>
    match patch.checkInlet handle.box inlet with
    | .error error => (studio, .error error)
    | .ok _ =>
      let (studio, understood) := deliver studio.levels handle inlet atoms studio
      (studio, .ok understood)

/-- Broadcast a message on the beacon of a name, which is made if there is none, and count who was
reached. -/
def broadcast (studio : Studio) (name : String) (atoms : List Atom) : Studio × Nat :=
  let (registry, beacon) := studio.registry.create name
  let castaways := registry.castaways beacon
  (reach studio.levels atoms castaways { studio with registry }, castaways.length)

/-- Send a message out of an outlet of a box, and tell whether the box is there. -/
def sendFrom (studio : Studio) (handle : Handle) (outlet : Nat) (atoms : List Atom) :
    Studio × Bool :=
  if studio.isAlive handle then (sendOut studio.levels handle outlet atoms studio, true)
  else (studio, false)

/-- Tick a box, and tell whether it is there. -/
def tickBox (studio : Studio) (handle : Handle) : Studio × Bool :=
  match (studio.patch? handle.patch).bind fun patch => patch.box? handle.box with
  | none => (studio, false)
  | some box =>
    let reaction := box.machine.tick (studio.surroundings handle box.sheet)
    let ticked := { studio with events := .ticked handle :: studio.events }
    let settled := ticked.settleReaction handle reaction
    ((carryOut studio.levels handle reaction.effects settled).1, true)

end Patchbay.Studio
