import Patchbay.Proofs.Studio.Limits

/-!
# Every message comes to an end

What a message brings about, told without any bound on the recursion: a run is a finite tree of calls, in
which a delivery is dropped only if its box or its patch is missing or the patch allows no further
nesting. The depth of a call in the tree is the number of deliveries that are under way, whatever patches
they belong to.

Every call has a run, and no other run has another result. The measure is the number of levels left
below the highest limit, and within a level the boxes still to be reached: a message out of an outlet and
a broadcast both work through a list made when they began.
-/

namespace Patchbay.Studio

/-- What is done on the way of a message. -/
inductive Call where
  | deliver (handle : Handle) (inlet : Nat) (atoms : List Atom)
  | deliverAll (number : Nat) (atoms : List Atom) (targets : List (Nat × Nat))
  | sendOut (handle : Handle) (outlet : Nat) (atoms : List Atom)
  | castaway (atoms : List Atom) (castaway : Castaway)
  | reach (atoms : List Atom) (castaways : List Castaway)
  | effect (handle : Handle) (effect : Effect)
  | carryOut (handle : Handle) (effects : List Effect)

/-- The box that takes in a message, if the nesting allows it. -/
def taker? (studio : Studio) (handle : Handle) : Option Box :=
  (studio.patch? handle.patch).bind fun patch =>
    if studio.nesting < patch.depthLimit then patch.boxOrRetired? handle.box else none

/-- The studio when a delivery is over. -/
def left (studio : Studio) : Studio := { studio with nesting := studio.nesting - 1 }

/-- Whether a message was understood, when the first effect went like this. -/
def understood (outcome : Bool) : Verdict → Bool
  | .known understood => understood
  | .asFirstEffect => outcome

/-- What a listener does with a message at once, and the reply that falls due and can be sent. -/
def hearing (studio : Studio) (atoms : List Atom) (number : Nat) : Studio × Option Reply :=
  match studio.listeners.find? fun listener => listener.number == number with
  | none => (studio, none)
  | some listener =>
    let noted := studio.hear listener.beacon atoms
    (noted, listener.reply?.filter fun reply =>
      noted.heardCount listener.beacon == reply.count &&
        ((noted.patch? reply.target.patch).any fun patch =>
          (patch.checkInlet reply.target.box reply.inlet).isOk))

/-- What an effect that sends no message does. -/
def atOnce? (studio : Studio) (handle : Handle) : Effect → Option (Studio × Bool)
  | .send _ _ => none
  | .broadcast _ _ => none
  | .print line => some (studio.print line, true)
  | .tickAfter clock wait => some (studio.tickAfter handle clock wait)
  | .edit edit => some (studio.applyEdit handle.patch edit)

/-- A call made while so many deliveries are under way takes one studio to another, with an outcome, and
never are more than `most` deliveries under way at a time. -/
inductive Runs (most : Nat) : Nat → Call → Studio → Studio → Bool → Prop where
  | dropped {depth : Nat} {handle : Handle} {inlet : Nat} {atoms : List Atom} {studio : Studio}
    (hnone : studio.taker? handle = none) :
    Runs most depth (.deliver handle inlet atoms) studio studio false
  | taken {depth : Nat} {handle : Handle} {inlet : Nat} {atoms : List Atom} {studio after : Studio}
    {box : Box} {reaction : Reaction Machine} {outcome : Bool} (hroom : depth < most)
    (hbox : studio.taker? handle = some box)
    (hreaction : box.machine.receive (studio.surroundings handle box.sheet) inlet atoms = reaction)
    (heffects : Runs most (depth + 1) (.carryOut handle reaction.effects)
      ((studio.entered handle inlet atoms).settleReaction handle reaction) after outcome) :
    Runs most depth (.deliver handle inlet atoms) studio after.left
      (understood outcome reaction.verdict)
  | noTarget {depth number : Nat} {atoms : List Atom} {studio : Studio} :
    Runs most depth (.deliverAll number atoms []) studio studio true
  | target {depth number id inlet : Nat} {atoms : List Atom} {targets : List (Nat × Nat)}
    {studio between after : Studio} {outcome : Bool}
    (hfirst : Runs most depth (.deliver ⟨number, id⟩ inlet atoms) studio between outcome)
    (hrest : Runs most depth (.deliverAll number atoms targets) between after true) :
    Runs most depth (.deliverAll number atoms ((id, inlet) :: targets)) studio after true
  | nowhere {depth : Nat} {handle : Handle} {outlet : Nat} {atoms : List Atom} {studio : Studio}
    (hnone : studio.patch? handle.patch = none) :
    Runs most depth (.sendOut handle outlet atoms) studio studio true
  | sent {depth : Nat} {handle : Handle} {outlet : Nat} {atoms : List Atom} {studio after : Studio}
    {patch : Patch} (hpatch : studio.patch? handle.patch = some patch)
    (htargets : Runs most depth
      (.deliverAll handle.patch atoms (patch.targets handle.box outlet))
      { studio with events := .sent handle outlet atoms :: studio.events } after true) :
    Runs most depth (.sendOut handle outlet atoms) studio after true
  | absent {depth : Nat} {handle : Handle} {atoms : List Atom} {studio : Studio}
    (hgone : studio.isAlive handle = false) :
    Runs most depth (.castaway atoms (.box handle)) studio studio true
  | present {depth : Nat} {handle : Handle} {atoms : List Atom} {studio after : Studio}
    (halive : studio.isAlive handle = true)
    (hsend : Runs most depth (.sendOut handle 0 atoms) studio after true) :
    Runs most depth (.castaway atoms (.box handle)) studio after true
  | heard {depth number : Nat} {atoms : List Atom} {studio noted : Studio}
    (hheard : studio.hearing atoms number = (noted, none)) :
    Runs most depth (.castaway atoms (.listener number)) studio noted true
  | replied {depth number : Nat} {atoms : List Atom} {studio noted after : Studio} {reply : Reply}
    {outcome : Bool} (hheard : studio.hearing atoms number = (noted, some reply))
    (hreply : Runs most depth (.deliver reply.target reply.inlet reply.atoms) noted after outcome) :
    Runs most depth (.castaway atoms (.listener number)) studio after true
  | reachedAll {depth : Nat} {atoms : List Atom} {studio : Studio} :
    Runs most depth (.reach atoms []) studio studio true
  | reached {depth : Nat} {atoms : List Atom} {castaway : Castaway} {castaways : List Castaway}
    {studio between after : Studio}
    (hfirst : Runs most depth (.castaway atoms castaway) studio between true)
    (hrest : Runs most depth (.reach atoms castaways) between after true) :
    Runs most depth (.reach atoms (castaway :: castaways)) studio after true
  | send {depth : Nat} {handle : Handle} {outlet : Nat} {atoms : List Atom} {studio after : Studio}
    (hsend : Runs most depth (.sendOut handle outlet atoms) studio after true) :
    Runs most depth (.effect handle (.send outlet atoms)) studio after true
  | broadcast {depth : Nat} {handle : Handle} {beacon : Nat} {atoms : List Atom}
    {studio after : Studio}
    (hreach : Runs most depth (.reach atoms (studio.registry.castaways beacon)) studio after true) :
    Runs most depth (.effect handle (.broadcast beacon atoms)) studio after true
  | atOnce {depth : Nat} {handle : Handle} {effect : Effect} {studio after : Studio} {outcome : Bool}
    (hdone : studio.atOnce? handle effect = some (after, outcome)) :
    Runs most depth (.effect handle effect) studio after outcome
  | noEffect {depth : Nat} {handle : Handle} {studio : Studio} :
    Runs most depth (.carryOut handle []) studio studio true
  | effect {depth : Nat} {handle : Handle} {effect : Effect} {effects : List Effect}
    {studio between after : Studio} {outcome last : Bool}
    (hfirst : Runs most depth (.effect handle effect) studio between outcome)
    (hrest : Runs most depth (.carryOut handle effects) between after last) :
    Runs most depth (.carryOut handle (effect :: effects)) studio after outcome

/-- Make a call with so many levels left. -/
def Call.run (levels : Nat) (studio : Studio) : Call → Studio × Bool
  | .deliver handle inlet atoms => Studio.deliver levels handle inlet atoms studio
  | .deliverAll number atoms targets => (Studio.deliverAll levels number atoms targets studio, true)
  | .sendOut handle outlet atoms => (Studio.sendOut levels handle outlet atoms studio, true)
  | .castaway atoms someone => (Studio.reach levels atoms [someone] studio, true)
  | .reach atoms castaways => (Studio.reach levels atoms castaways studio, true)
  | .effect handle wanted => Studio.carryOut levels handle [wanted] studio
  | .carryOut handle effects => Studio.carryOut levels handle effects studio

section Equations

variable (levels : Nat) (studio : Studio)

/-- Without levels left no message is delivered. -/
theorem deliver_zero (handle : Handle) (inlet : Nat) (atoms : List Atom) :
    deliver 0 handle inlet atoms studio = (studio, false) := by
  rw [deliver]

/-- A delivery that no box takes in does nothing. -/
theorem deliver_of_none {handle : Handle} (hnone : studio.taker? handle = none) (inlet : Nat)
    (atoms : List Atom) : deliver levels handle inlet atoms studio = (studio, false) := by
  cases levels with
  | zero => exact deliver_zero studio handle inlet atoms
  | succ levels =>
    rw [taker?] at hnone
    simp only [deliver, hnone]

/-- A box that takes in a message reacts, and its effects are carried out with a level less. -/
theorem deliver_of_some {handle : Handle} {box : Box} (hbox : studio.taker? handle = some box)
    {inlet : Nat} {atoms : List Atom} {reaction : Reaction Machine}
    (hreaction : box.machine.receive (studio.surroundings handle box.sheet) inlet atoms = reaction) :
    deliver (levels + 1) handle inlet atoms studio =
      let ran := carryOut levels handle reaction.effects
        ((studio.entered handle inlet atoms).settleReaction handle reaction)
      (ran.1.left, understood ran.2 reaction.verdict) := by
  rw [taker?] at hbox
  simp only [deliver, hbox, hreaction]
  rfl

/-- Castaways have the message one after the other. -/
theorem reach_cons (atoms : List Atom) (castaway : Castaway) (castaways : List Castaway) :
    reach levels atoms (castaway :: castaways) studio =
      reach levels atoms castaways (reach levels atoms [castaway] studio) := by
  cases castaway with
  | box handle => simp only [reach]
  | listener number => simp only [reach]

/-- A listener takes note, and sends a reply that falls due. -/
theorem reach_listener (atoms : List Atom) (number : Nat) :
    reach levels atoms [.listener number] studio =
      match studio.hearing atoms number with
      | (noted, none) => noted
      | (noted, some reply) => (deliver levels reply.target reply.inlet reply.atoms noted).1 := by
  simp only [reach, hearing]
  cases studio.listeners.find? fun listener => listener.number == number with
  | none => rfl
  | some listener =>
    dsimp only
    cases listener.reply? with
    | none => rfl
    | some reply =>
      simp only [Option.filter_some, beq_iff_eq, Bool.and_eq_true]
      by_cases hcount : (studio.hear listener.beacon atoms).heardCount listener.beacon = reply.count
      · cases hpatch : (studio.hear listener.beacon atoms).patch? reply.target.patch with
        | none => simp [hcount]
        | some patch =>
          cases hinlet : patch.checkInlet reply.target.box reply.inlet <;>
            simp [hcount, hinlet, Except.isOk, Except.toBool]
      · simp [hcount]

/-- Effects are carried out one after the other, and the first one decides. -/
theorem carryOut_cons (handle : Handle) (effect : Effect) (effects : List Effect) :
    carryOut levels handle (effect :: effects) studio =
      let first := carryOut levels handle [effect] studio
      ((carryOut levels handle effects first.1).1, first.2) := by
  cases effect <;> simp only [carryOut]

/-- An effect that sends nothing is carried out whatever levels are left. -/
theorem carryOut_of_atOnce {handle : Handle} {effect : Effect} {after : Studio} {outcome : Bool}
    (h : studio.atOnce? handle effect = some (after, outcome)) :
    carryOut levels handle [effect] studio = (after, outcome) := by
  cases effect with
  | send => cases h
  | broadcast => cases h
  | _ =>
    rw [atOnce?, Option.some.injEq] at h
    simp only [carryOut]
    exact h

end Equations

variable {least most levels depth : Nat} {call : Call} {studio after : Studio} {outcome : Bool}

/-- A listener that takes note leaves the nesting and the limits as they are. -/
theorem Kept.hearing {atoms : List Atom} {number : Nat} {reply? : Option Reply}
    (h : studio.hearing atoms number = (after, reply?)) : Kept least most studio after := by
  unfold Studio.hearing at h
  split at h
  · obtain ⟨rfl, -⟩ := Prod.mk.inj h
    exact .refl studio
  · obtain ⟨rfl, -⟩ := Prod.mk.inj h
    exact Kept.hear studio _ atoms

/-- What is done at once leaves the nesting and the limits as they are. -/
theorem Kept.atOnce? {handle : Handle} {effect : Effect}
    (h : studio.atOnce? handle effect = some (after, outcome)) : Kept least most studio after := by
  cases effect with
  | send => cases h
  | broadcast => cases h
  | print line =>
    obtain ⟨rfl, -⟩ := Prod.mk.inj (Option.some.inj h)
    exact Kept.print studio line
  | tickAfter clock wait =>
    obtain rfl : (studio.tickAfter handle clock wait).1 = after :=
      congrArg Prod.fst (Option.some.inj h)
    exact Kept.tickAfter studio handle clock wait
  | edit edit =>
    obtain rfl : (studio.applyEdit handle.patch edit).1 = after :=
      congrArg Prod.fst (Option.some.inj h)
    exact Kept.applyEdit studio handle.patch edit

/-- A delivery that is over leaves behind what its effects leave, but the nesting of before. -/
theorem Kept.left {handle : Handle} {inlet : Nat} {atoms : List Atom} (hroom : depth < most)
    (hnesting : studio.nesting = depth)
    (h : Kept (depth + 1) most (studio.entered handle inlet atoms) after) :
    Kept depth most studio after.left where
  nesting := by
    show after.nesting - 1 = studio.nesting
    rw [h.nesting]
    rfl
  limits := h.limits
  noted := by
    obtain ⟨events, hevents, hwithin⟩ := (h.of_le (Nat.le_succ depth)).noted
    refine ⟨events ++ [.received handle inlet atoms (studio.nesting + 1)], ?_, ?_⟩
    · rw [List.append_assoc]
      exact hevents
    · intro event hevent
      rcases List.mem_append.mp hevent with hevent | hevent
      · exact hwithin event hevent
      · obtain rfl := List.mem_singleton.mp hevent
        exact ⟨by omega, by omega⟩

/-- Whatever a run does, the nesting and the limits are in the end what they were, and every delivery
noted on the way was at a level between the depth and the bound. -/
theorem Runs.kept (h : Runs most depth call studio after outcome) (hnesting : studio.nesting = depth) :
    Kept depth most studio after := by
  induction h with
  | dropped => exact .refl _
  | @taken depth handle inlet atoms studio after box reaction outcome hroom hbox hreaction heffects ih =>
    have hentered : (studio.entered handle inlet atoms).nesting = depth + 1 :=
      congrArg (· + 1) hnesting
    have hsettled : Kept (depth + 1) most (studio.entered handle inlet atoms) _ :=
      .settleReaction _ handle reaction
    exact .left hroom hnesting (hsettled.trans (ih (hsettled.nesting.trans hentered)))
  | noTarget => exact .refl _
  | target hfirst hrest ihFirst ihRest =>
    have hbetween := ihFirst hnesting
    exact hbetween.trans (ihRest (hbetween.nesting.trans hnesting))
  | nowhere => exact .refl _
  | sent hpatch htargets ih => exact (Kept.of_event (.sent _ _ _) trivial).trans (ih hnesting)
  | absent => exact .refl _
  | present halive hsend ih => exact ih hnesting
  | heard hheard => exact .hearing hheard
  | @replied depth number atoms studio noted after reply outcome hheard hreply ih =>
    have hnoted : Kept depth most studio noted := .hearing hheard
    exact hnoted.trans (ih (hnoted.nesting.trans hnesting))
  | reachedAll => exact .refl _
  | reached hfirst hrest ihFirst ihRest =>
    have hbetween := ihFirst hnesting
    exact hbetween.trans (ihRest (hbetween.nesting.trans hnesting))
  | send hsend ih => exact ih hnesting
  | broadcast hreach ih => exact ih hnesting
  | atOnce hdone => exact .atOnce? hdone
  | noEffect => exact .refl _
  | effect hfirst hrest ihFirst ihRest =>
    have hbetween := ihFirst hnesting
    exact hbetween.trans (ihRest (hbetween.nesting.trans hnesting))

/-- With more levels left than the bound can use up, a call has the result of its runs. -/
theorem Runs.run_eq (h : Runs most depth call studio after outcome) (hlevels : most < depth + levels) :
    call.run levels studio = (after, outcome) := by
  induction h generalizing levels with
  | dropped hnone => exact deliver_of_none levels _ hnone _ _
  | @taken depth _ _ _ _ _ _ _ _ hroom hbox hreaction heffects ih =>
    obtain ⟨levels, rfl⟩ : ∃ fewer, levels = fewer + 1 := ⟨levels - 1, by omega⟩
    have hfewer : most < depth + 1 + levels := by omega
    have hran := ih hfewer
    simp only [Call.run] at hran ⊢
    rw [deliver_of_some levels _ hbox hreaction, hran]
  | noTarget => simp only [Call.run, deliverAll]
  | target hfirst hrest ihFirst ihRest =>
    have hbetween := ihFirst hlevels
    have hafter := ihRest hlevels
    simp only [Call.run] at hbetween hafter ⊢
    rw [deliverAll, hbetween, hafter]
  | nowhere hnone => simp only [Call.run, sendOut, hnone]
  | sent hpatch htargets ih =>
    have hafter := ih hlevels
    simp only [Call.run] at hafter ⊢
    simp only [sendOut, hpatch, hafter]
  | absent hgone => simp [Call.run, reach, hgone]
  | present halive hsend ih =>
    have hafter := ih hlevels
    simp only [Call.run] at hafter ⊢
    simpa [reach, halive] using hafter
  | heard hheard => simp only [Call.run, reach_listener, hheard]
  | replied hheard hreply ih =>
    have hafter := ih hlevels
    simp only [Call.run] at hafter ⊢
    simp only [reach_listener, hheard, hafter]
  | reachedAll => simp only [Call.run, reach]
  | reached hfirst hrest ihFirst ihRest =>
    have hbetween := congrArg Prod.fst (ihFirst hlevels)
    have hafter := ihRest hlevels
    simp only [Call.run] at hbetween hafter ⊢
    rw [reach_cons, hbetween, hafter]
  | send hsend ih =>
    have hafter := ih hlevels
    simp only [Call.run] at hafter ⊢
    simpa only [carryOut] using hafter
  | broadcast hreach ih =>
    have hafter := ih hlevels
    simp only [Call.run] at hafter ⊢
    simpa only [carryOut] using hafter
  | atOnce hdone => exact carryOut_of_atOnce levels _ hdone
  | noEffect => simp only [Call.run, carryOut]
  | effect hfirst hrest ihFirst ihRest =>
    have hbetween := ihFirst hlevels
    have hafter := ihRest hlevels
    simp only [Call.run] at hbetween hafter ⊢
    rw [carryOut_cons, hbetween]
    simp only [hafter]

/-- A call that has a run within some bound has no other run, whatever the bound. -/
theorem Runs.unique (h : Runs most depth call studio after outcome) {bound : Nat} {other : Studio}
    {verdict : Bool} (hother : Runs bound depth call studio other verdict) :
    other = after ∧ verdict = outcome := by
  have hlevels : most < depth + (max most bound + 1) := by omega
  have hrun := h.run_eq hlevels
  rw [hother.run_eq (by omega)] at hrun
  exact Prod.mk.inj hrun

/-- So many deliveries are under way, no patch lets them nest more deeply than the bound, and the levels
left are enough for all of them. -/
structure Ready (most levels depth : Nat) (studio : Studio) : Prop where
  nesting : studio.nesting = depth
  bounded : ∀ number limit, studio.limit? number = some limit → limit ≤ most
  enough : ∀ number limit, studio.limit? number = some limit → limit ≤ depth + levels

/-- What leaves the nesting and the limits as they are leaves enough levels. -/
theorem Kept.ready {later : Studio} (h : Kept least most studio later)
    (hready : Ready most levels depth studio) : Ready most levels depth later where
  nesting := h.nesting.trans hready.nesting
  bounded number limit hlimit := hready.bounded number limit (h.limits ▸ hlimit)
  enough number limit hlimit := hready.enough number limit (h.limits ▸ hlimit)

/-- So does a run. -/
theorem Runs.ready (h : Runs most depth call studio after outcome)
    (hready : Ready most levels depth studio) : Ready most levels depth after :=
  (h.kept hready.nesting).ready hready

/-- The result of a call is the result of a run of it. -/
def Call.Ends (most levels depth : Nat) (studio : Studio) (call : Call) : Prop :=
  Runs most depth call studio (call.run levels studio).1 (call.run levels studio).2

section Rounds

variable (hdeliver : ∀ {studio : Studio} (handle : Handle) (inlet : Nat) (atoms : List Atom),
  Ready most levels depth studio → (Call.deliver handle inlet atoms).Ends most levels depth studio)

include hdeliver

/-- If deliveries end, so do deliveries to several inlets. -/
theorem deliverAll_ends (number : Nat) (atoms : List Atom) (targets : List (Nat × Nat))
    (hready : Ready most levels depth studio) :
    (Call.deliverAll number atoms targets).Ends most levels depth studio := by
  induction targets generalizing studio with
  | nil =>
    simp only [Call.Ends, Call.run, deliverAll]
    exact .noTarget
  | cons target targets ih =>
    obtain ⟨id, inlet⟩ := target
    have hfirst := hdeliver ⟨number, id⟩ inlet atoms hready
    have hrest := ih (hfirst.ready hready)
    simp only [Call.Ends, Call.run, deliverAll] at hfirst hrest ⊢
    exact .target hfirst hrest

/-- So does a message out of an outlet. -/
theorem sendOut_ends (handle : Handle) (outlet : Nat) (atoms : List Atom)
    (hready : Ready most levels depth studio) :
    (Call.sendOut handle outlet atoms).Ends most levels depth studio := by
  simp only [Call.Ends, Call.run, sendOut]
  split
  · next hnone => exact .nowhere hnone
  · next patch hpatch =>
    have hnoted : Kept depth most studio
        { studio with events := .sent handle outlet atoms :: studio.events } := .of_event _ trivial
    exact .sent hpatch (deliverAll_ends hdeliver _ _ _ (hnoted.ready hready))

/-- So does a message to one castaway. -/
theorem castaway_ends (atoms : List Atom) (castaway : Castaway)
    (hready : Ready most levels depth studio) :
    (Call.castaway atoms castaway).Ends most levels depth studio := by
  cases castaway with
  | box handle =>
    cases halive : studio.isAlive handle with
    | false =>
      simp only [Call.Ends, Call.run, reach, halive, Bool.false_eq_true, if_false]
      exact .absent halive
    | true =>
      simp only [Call.Ends, Call.run, reach, halive, if_true]
      exact .present halive (sendOut_ends hdeliver handle 0 atoms hready)
  | listener number =>
    simp only [Call.Ends, Call.run, reach_listener]
    cases hheard : studio.hearing atoms number with
    | mk noted reply? =>
      cases reply? with
      | none => exact .heard hheard
      | some reply =>
        have hnoted : Kept depth most studio noted := .hearing hheard
        exact .replied hheard (hdeliver _ _ _ (hnoted.ready hready))

/-- So does a message to several castaways. -/
theorem reach_ends (atoms : List Atom) (castaways : List Castaway)
    (hready : Ready most levels depth studio) :
    (Call.reach atoms castaways).Ends most levels depth studio := by
  induction castaways generalizing studio with
  | nil =>
    simp only [Call.Ends, Call.run, reach]
    exact .reachedAll
  | cons castaway castaways ih =>
    have hfirst := castaway_ends hdeliver atoms castaway hready
    have hrest := ih (hfirst.ready hready)
    simp only [Call.Ends, Call.run] at hfirst hrest ⊢
    rw [reach_cons]
    exact .reached hfirst hrest

/-- So does an effect. -/
theorem effect_ends (handle : Handle) (effect : Effect) (hready : Ready most levels depth studio) :
    (Call.effect handle effect).Ends most levels depth studio := by
  cases effect with
  | send outlet atoms =>
    simp only [Call.Ends, Call.run, carryOut]
    exact .send (sendOut_ends hdeliver handle outlet atoms hready)
  | broadcast beacon atoms =>
    simp only [Call.Ends, Call.run, carryOut]
    exact .broadcast (reach_ends hdeliver atoms _ hready)
  | _ =>
    refine .atOnce ?_
    simp only [Call.run, carryOut, atOnce?]

/-- So do all effects of a reaction. -/
theorem carryOut_ends (handle : Handle) (effects : List Effect)
    (hready : Ready most levels depth studio) :
    (Call.carryOut handle effects).Ends most levels depth studio := by
  induction effects generalizing studio with
  | nil =>
    simp only [Call.Ends, Call.run, carryOut]
    exact .noEffect
  | cons effect effects ih =>
    have hfirst := effect_ends hdeliver handle effect hready
    have hrest := ih (hfirst.ready hready)
    simp only [Call.Ends, Call.run] at hfirst hrest ⊢
    rw [carryOut_cons]
    exact .effect hfirst hrest

end Rounds

/-- A delivery ends, since each one within it has a level less and the limits are reached before the
levels are used up. -/
theorem deliver_ends (handle : Handle) (inlet : Nat) (atoms : List Atom)
    (hready : Ready most levels depth studio) :
    (Call.deliver handle inlet atoms).Ends most levels depth studio := by
  induction levels generalizing depth studio handle inlet atoms with
  | zero =>
    simp only [Call.Ends, Call.run, deliver_zero]
    refine .dropped (Option.bind_eq_none_iff.mpr fun patch hpatch => if_neg ?_)
    have hlimit := hready.enough handle.patch patch.depthLimit (by rw [limit?, hpatch]; rfl)
    have hnesting := hready.nesting
    omega
  | succ levels ih =>
    cases hbox : studio.taker? handle with
    | none =>
      simp only [Call.Ends, Call.run, deliver_of_none _ _ hbox]
      exact .dropped hbox
    | some box =>
      let reaction := box.machine.receive (studio.surroundings handle box.sheet) inlet atoms
      have hroom : depth < most := by
        obtain ⟨patch, hpatch, htaker⟩ := Option.bind_eq_some_iff.mp hbox
        have hlimit := hready.bounded handle.patch patch.depthLimit (by rw [limit?, hpatch]; rfl)
        have hnesting := hready.nesting
        split at htaker
        · omega
        · cases htaker
      have hentered : Ready most levels (depth + 1) (studio.entered handle inlet atoms) :=
        ⟨congrArg (· + 1) hready.nesting, hready.bounded, fun number limit hlimit => by
          have henough := hready.enough number limit hlimit
          omega⟩
      have hsettled : Kept (depth + 1) most (studio.entered handle inlet atoms) _ :=
        .settleReaction _ handle reaction
      simp only [Call.Ends, Call.run]
      rw [deliver_of_some levels studio hbox rfl]
      exact .taken hroom hbox rfl
        (carryOut_ends (fun handle inlet atoms => ih handle inlet atoms) handle reaction.effects
          (hsettled.ready hentered))

/-- Every call ends that is made while the levels left are enough. -/
theorem Call.ends (call : Call) (hready : Ready most levels depth studio) :
    call.Ends most levels depth studio := by
  have hdeliver : ∀ {studio : Studio} (handle : Handle) (inlet : Nat) (atoms : List Atom),
      Ready most levels depth studio →
        (Call.deliver handle inlet atoms).Ends most levels depth studio :=
    fun handle inlet atoms hready => deliver_ends handle inlet atoms hready
  cases call with
  | deliver handle inlet atoms => exact deliver_ends handle inlet atoms hready
  | deliverAll number atoms targets => exact deliverAll_ends hdeliver number atoms targets hready
  | sendOut handle outlet atoms => exact sendOut_ends hdeliver handle outlet atoms hready
  | castaway atoms castaway => exact castaway_ends hdeliver atoms castaway hready
  | reach atoms castaways => exact reach_ends hdeliver atoms castaways hready
  | effect handle effect => exact effect_ends hdeliver handle effect hready
  | carryOut handle effects => exact carryOut_ends hdeliver handle effects hready

/-- What can be asked of a studio from outside. -/
inductive Request where
  | send (handle : Handle) (inlet : Nat) (atoms : List Atom)
  | sendFrom (handle : Handle) (outlet : Nat) (atoms : List Atom)
  | tick (handle : Handle)
  | broadcast (name : String) (atoms : List Atom)

namespace Request

/-- Do what is asked. -/
def perform (studio : Studio) : Request → Studio
  | send handle inlet atoms => (studio.send handle inlet atoms).1
  | sendFrom handle outlet atoms => (studio.sendFrom handle outlet atoms).1
  | tick handle => (studio.tickBox handle).1
  | broadcast name atoms => (studio.broadcast name atoms).1

/-- Do what is asked, one request after the other. -/
def performAll (studio : Studio) (requests : List Request) : Studio :=
  requests.foldl perform studio

/-- The call that a request comes to, and the studio that it is made in. A request that is refused comes
to none. -/
def opening? (studio : Studio) : Request → Option (Studio × Call)
  | send handle inlet atoms =>
    if (studio.patch? handle.patch).any fun patch => (patch.checkInlet handle.box inlet).isOk then
      some (studio, .deliver handle inlet atoms)
    else none
  | sendFrom handle outlet atoms =>
    if studio.isAlive handle then some (studio, .sendOut handle outlet atoms) else none
  | tick handle =>
    ((studio.patch? handle.patch).bind fun patch => patch.box? handle.box).map fun box =>
      let reaction := box.machine.tick (studio.surroundings handle box.sheet)
      let ticked := { studio with events := .ticked handle :: studio.events }
      (ticked.settleReaction handle reaction, .carryOut handle reaction.effects)
  | broadcast name atoms =>
    let (registry, beacon) := studio.registry.create name
    some ({ studio with registry }, .reach atoms (registry.castaways beacon))

/-- The request has come to an end with the given studio: the call that it comes to has a run, with no
more deliveries under way than `most`, and no run but this one. If it is refused nothing has happened. -/
def Ends (most : Nat) (studio after : Studio) (request : Request) : Prop :=
  match request.opening? studio with
  | none => after = studio
  | some (opened, call) => ∃ outcome, Runs most studio.nesting call opened after outcome ∧
      ∀ bound other verdict, Runs bound studio.nesting call opened other verdict →
        other = after ∧ verdict = outcome

/-- What a request does before its call leaves the nesting and the limits as they are. -/
theorem kept_opening {request : Request} {opened : Studio}
    (h : request.opening? studio = some (opened, call)) : Kept least most studio opened := by
  cases request with
  | send handle inlet atoms =>
    simp only [opening?] at h
    split at h
    · obtain ⟨rfl, -⟩ := Prod.mk.inj (Option.some.inj h)
      exact .refl _
    · cases h
  | sendFrom handle outlet atoms =>
    simp only [opening?] at h
    split at h
    · obtain ⟨rfl, -⟩ := Prod.mk.inj (Option.some.inj h)
      exact .refl _
    · cases h
  | tick handle =>
    obtain ⟨box, -, hbox⟩ := Option.map_eq_some_iff.mp h
    obtain ⟨rfl, -⟩ := Prod.mk.inj hbox
    exact (Kept.of_event (.ticked handle) trivial).trans (.settleReaction _ _ _)
  | broadcast name atoms =>
    obtain ⟨rfl, -⟩ := Prod.mk.inj (Option.some.inj h)
    exact .of_same rfl rfl rfl

/-- A request that is refused does nothing. -/
theorem perform_of_none {request : Request} (h : request.opening? studio = none) :
    request.perform studio = studio := by
  cases request with
  | send handle inlet atoms =>
    simp only [opening?] at h
    split at h
    · cases h
    next hrefused =>
    simp only [perform, Studio.send]
    split
    · rfl
    next patch hpatch =>
    split
    · rfl
    next hinlet => exact absurd (by simp [hpatch, hinlet, Except.isOk, Except.toBool]) hrefused
  | sendFrom handle outlet atoms =>
    simp only [opening?] at h
    split at h
    · cases h
    · next hgone => simp only [perform, Studio.sendFrom, hgone, Bool.false_eq_true, if_false]
  | tick handle =>
    have hnone := Option.map_eq_none_iff.mp h
    simp only [perform, tickBox, hnone]
  | broadcast name atoms => cases h

/-- Any other request makes its call. -/
theorem perform_of_some {request : Request} {opened : Studio}
    (h : request.opening? studio = some (opened, call)) :
    request.perform studio = (call.run studio.levels opened).1 := by
  cases request with
  | send handle inlet atoms =>
    simp only [opening?] at h
    split at h
    · next hopen =>
      obtain ⟨rfl, rfl⟩ := Prod.mk.inj (Option.some.inj h)
      obtain ⟨patch, hpatch, hinlet⟩ := (Option.any_eq_true _ _).mp hopen
      cases hcheck : patch.checkInlet handle.box inlet with
      | error error => simp [hcheck, Except.isOk, Except.toBool] at hinlet
      | ok _ => simp only [perform, Studio.send, hpatch, hcheck, Call.run]
    · cases h
  | sendFrom handle outlet atoms =>
    simp only [opening?] at h
    split at h
    · next halive =>
      obtain ⟨rfl, rfl⟩ := Prod.mk.inj (Option.some.inj h)
      simp only [perform, Studio.sendFrom, halive, if_true, Call.run]
    · cases h
  | tick handle =>
    obtain ⟨box, hbox, hopened⟩ := Option.map_eq_some_iff.mp h
    obtain ⟨rfl, rfl⟩ := Prod.mk.inj hopened
    simp only [perform, tickBox, hbox, Call.run]
  | broadcast name atoms =>
    obtain ⟨rfl, rfl⟩ := Prod.mk.inj (Option.some.inj h)
    rfl

/-- A studio with the limits of another has enough levels for what is below the highest of them. -/
theorem ready {later : Studio} (hlimits : later.limit? = studio.limit?) :
    Ready studio.highest later.levels later.nesting later where
  nesting := rfl
  bounded number limit hlimit := limit?_le_highest (hlimits ▸ hlimit)
  enough number limit hlimit := by
    have hhighest := limit?_le_highest hlimit
    have hlevels : later.levels = later.highest + 1 := rfl
    omega

/-- A request comes to an end, and leaves the nesting and the limits as they are. -/
theorem perform_ends {later : Studio} (hlimits : later.limit? = studio.limit?) (request : Request) :
    request.Ends studio.highest later (request.perform later) ∧
      Kept later.nesting studio.highest later (request.perform later) := by
  unfold Ends
  cases hopening : request.opening? later with
  | none =>
    rw [perform_of_none hopening]
    exact ⟨rfl, .refl later⟩
  | some entry =>
    obtain ⟨opened, call⟩ := entry
    have hopened : Kept later.nesting studio.highest later opened := kept_opening hopening
    have hends := call.ends (hopened.ready (ready hlimits))
    rw [perform_of_some hopening]
    exact ⟨⟨_, hends, fun _ _ _ hother => hends.unique hother⟩,
      hopened.trans (hends.kept hopened.nesting)⟩

/-- What a request does is a run of the call that it comes to. -/
theorem exists_run {request : Request} {opened : Studio}
    (hopening : request.opening? studio = some (opened, call)) :
    ∃ outcome, Runs studio.highest studio.nesting call opened (request.perform studio) outcome := by
  have hends : request.Ends studio.highest studio _ := (perform_ends rfl request).1
  unfold Ends at hends
  rw [hopening] at hends
  obtain ⟨outcome, hruns, -⟩ := hends
  exact ⟨outcome, hruns⟩

/-- Every run of the call is what the request does. -/
theorem perform_eq_of_runs {request : Request} {opened after : Studio} {most : Nat} {outcome : Bool}
    (hopening : request.opening? studio = some (opened, call))
    (hruns : Runs most studio.nesting call opened after outcome) : request.perform studio = after := by
  have hends : request.Ends studio.highest studio _ := (perform_ends rfl request).1
  unfold Ends at hends
  rw [hopening] at hends
  obtain ⟨_, -, hunique⟩ := hends
  exact (hunique most after outcome hruns).1.symm

/-- So do requests one after the other. -/
theorem kept_performAll (studio : Studio) (requests : List Request) :
    Kept studio.nesting studio.highest studio (performAll studio requests) := by
  induction requests using List.reverseRecOn with
  | nil => exact .refl studio
  | append_singleton requests request ih =>
    have hlast := (perform_ends ih.limits request).2
    rw [ih.nesting] at hlast
    rw [performAll, List.foldl_append]
    exact ih.trans hlast

end Request

/-- Whatever boxes a studio holds, however they are wired and bound to beacons, in whatever patches, and
whatever the limits of these are: after any requests every further request comes to an end. Never are
more deliveries under way at a time than the highest limit allows, and when it is over, so is every
delivery that it led to: the nesting is what it was at the start, and so are the limits. -/
theorem requests_end (studio : Studio) (earlier : List Request) (request : Request) :
    request.Ends studio.highest (Request.performAll studio earlier)
        (request.perform (Request.performAll studio earlier)) ∧
      Kept studio.nesting studio.highest studio
        (request.perform (Request.performAll studio earlier)) := by
  have hearlier := Request.kept_performAll studio earlier
  obtain ⟨hends, hkept⟩ := Request.perform_ends hearlier.limits request
  rw [hearlier.nesting] at hkept
  exact ⟨hends, hearlier.trans hkept⟩

end Patchbay.Studio
