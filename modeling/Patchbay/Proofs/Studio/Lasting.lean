import Patchbay.Proofs.Studio.Nesting
import Patchbay.Studio.Time

/-!
# What lasts in a studio

All that can be done in a studio comes down to a few things that happen to its patches: a patch changes, a
number is given out, a box is built and put in under that number, or a box reacts to a message or a tick.
What none of these takes from a patch, no operation and no message takes from it, with all that the message
brings about, be it that boxes edit the patch in which they are, or that a box gets a message which was
taken out of its patch.
-/

namespace Patchbay

/-- What a box makes of a message or of a tick of the clock. -/
inductive Box.Reacts (box : Box) : Reaction Machine → Prop where
  | receive (here : Surroundings) (hsheet : here.sheet = box.sheet) (inlet : Nat) (atoms : List Atom) :
    box.Reacts (box.machine.receive here inlet atoms)
  | tick (here : Surroundings) (hsheet : here.sheet = box.sheet) : box.Reacts (box.machine.tick here)

namespace Patch

/-- Computing a block gives out no number. -/
theorem nextId_runBlock (patch : Patch) : (patch.runBlock Machine.processor).nextId = patch.nextId := by
  unfold runBlock
  split <;> rfl

theorem nextId_tick (patch : Patch) : (patch.tick Machine.processor).1.nextId = patch.nextId := by
  unfold tick
  split
  · exact patch.nextId_runBlock
  · rfl

theorem nextId_process (patch : Patch) (inputs : List (Buffer Sample)) (sizes : List Nat) :
    (patch.process Machine.processor inputs sizes).1.nextId = patch.nextId := by
  unfold process
  split
  · exact nextId_runBlock _
  · rfl

end Patch

namespace Studio

/-- A property of patches that nothing in a studio takes from them. -/
structure Lasting (P : Patch → Prop) : Prop where
  change : ∀ {patch later : Patch}, P patch → patch.Change later → later.nextId = patch.nextId → P later
  reserve : ∀ {patch : Patch}, P patch → P patch.reserve.1
  install : ∀ {patch : Patch} {model : Model} {site : Site} {plan : Plan Machine}, P patch →
    site.id = patch.nextId → model.plan site = .ok plan → ∀ detail service,
      P (patch.reserve.1.install (assemble site plan detail service))
  react : ∀ {patch : Patch} {id : Nat} {box : Box} {reaction : Reaction Machine}, P patch →
    patch.boxOrRetired? id = some box → box.Reacts reaction →
      P (patch.updateBox id fun box => { box with machine := reaction.state, sheet := reaction.sheet })

/-- All patches of a studio have a property. -/
def All (P : Patch → Prop) (studio : Studio) : Prop :=
  ∀ number patch, studio.patch? number = some patch → P patch

namespace All

variable {P : Patch → Prop} {studio later : Studio} {number : Nat} {patch : Patch}

/-- The same patches have it. -/
theorem of_patches (h : studio.All P) (hpatches : later.patches = studio.patches) : later.All P := by
  intro number patch hpatch
  rw [patch?, hpatches] at hpatch
  exact h number patch hpatch

/-- A patch that has it may be put in the place of another. -/
theorem setPatch (h : studio.All P) (hpatch : studio.patch? number = some patch) {other : Patch}
    (hother : P other) : (studio.setPatch number other).All P := by
  intro place found hfound
  by_cases hplace : place = number
  · rw [hplace, patch?_setPatch hpatch, Option.some.injEq] at hfound
    exact hfound ▸ hother
  · rw [patch?_setPatch_of_ne other hplace] at hfound
    exact h place found hfound

/-- A patch may be adjusted. -/
theorem adjust (h : studio.All P) {change : Patch → Patch} (hchange : ∀ now, P now → P (change now)) :
    (studio.adjust number change).All P := by
  unfold Studio.adjust
  split
  · exact h
  · next patch hpatch => exact h.setPatch hpatch (hchange patch (h number patch hpatch))

/-- A patch may be edited. -/
theorem editPatch (h : studio.All P) {edit : Patch → Except PatchError Patch}
    (hedit : ∀ now other : Patch, edit now = .ok other → P now → P other) :
    (studio.editPatch number edit).1.All P := by
  unfold Studio.editPatch
  split
  · exact h
  next patch hpatch =>
  split
  · exact h
  next other hother =>
  exact (h.setPatch hpatch (hedit patch other hother (h number patch hpatch))).of_patches rfl

/-- Getting a service leaves the patches as they are. -/
theorem provide (h : studio.All P) (handle : Handle) (service : Service) :
    (studio.provide handle service).1.All P := by
  cases service <;> exact h.of_patches rfl

end All

namespace Lasting

variable {P : Patch → Prop} {studio later : Studio} {number : Nat} {patch : Patch}

/-! ### Operations -/

/-- A box may be removed. -/
theorem remove (hP : Lasting P) (h : studio.All P) (id : Nat) :
    (studio.editPatch number fun patch => patch.remove id).1.All P := by
  refine h.editPatch fun now other hother hnow => ?_
  refine hP.change hnow (.remove id hother) ?_
  obtain ⟨box, -, rfl⟩ := Patch.remove_eq_ok hother
  exact (Patch.sameWiring_rebuildIf _ _).nextId

/-- All boxes may be removed. -/
theorem clear (hP : Lasting P) (h : studio.All P) :
    (studio.editPatch number fun patch => .ok patch.clear).1.All P := by
  refine h.editPatch fun now other hother hnow => ?_
  obtain rfl := Except.ok.inj hother
  exact hP.change hnow (.clear now) (Patch.sameWiring_rebuildIf _ true).nextId

/-- A wire may be drawn. -/
theorem connect (hP : Lasting P) (h : studio.All P) (source outlet target inlet : Nat) :
    (studio.editPatch number fun patch => patch.connect source outlet target inlet).1.All P := by
  refine h.editPatch fun now other hother hnow => ?_
  refine hP.change hnow (.connect source outlet target inlet hother) ?_
  obtain ⟨signal, -, rfl⟩ := Patch.connect_eq_ok hother
  exact (Patch.sameWiring_rebuildIf _ _).nextId

/-- A wire may be taken away. -/
theorem disconnect (hP : Lasting P) (h : studio.All P) (source outlet target inlet : Nat) :
    (studio.editPatch number fun patch => patch.disconnect source outlet target inlet).1.All P := by
  refine h.editPatch fun now other hother hnow => ?_
  refine hP.change hnow (.disconnect source outlet target inlet hother) ?_
  obtain ⟨wire, -, rfl⟩ := Patch.disconnect_eq_ok hother
  exact (Patch.sameWiring_rebuildIf _ _).nextId

/-- A box may be built. -/
theorem create (hP : Lasting P) (h : studio.All P) (detail : Dico) :
    (studio.create number detail).1.All P := by
  unfold Studio.create
  split
  · exact h
  next patch hpatch =>
  have hpatchP := h number patch hpatch
  split
  · exact h
  split
  · exact h
  dsimp only
  split
  · exact h.setPatch hpatch (hP.reserve hpatchP)
  · next plan hplan =>
    have hprovided := (patch?_provide studio ⟨number, patch.nextId⟩ plan.service number).trans hpatch
    exact (h.provide ⟨number, patch.nextId⟩ plan.service).setPatch hprovided
      (hP.install hpatchP rfl hplan _ _)

/-- A saved patch may be read. -/
theorem readPatch (hP : Lasting P) (h : studio.All P) (saved : Dico) :
    (studio.readPatch number saved).1.All P :=
  readPatch_induction (P := All P) (fun _ h => hP.clear h) (fun _ detail h => hP.create h detail)
    (fun _ source outlet target inlet h => hP.connect h source outlet target inlet) saved h

/-- The property outlasts every operation. -/
theorem operate (hP : Lasting P) (h : studio.All P) (operation : Operation) :
    (studio.operate number operation).All P := by
  cases operation with
  | create detail => exact hP.create h detail
  | createFromText text => exact hP.create h _
  | remove id => exact hP.remove h id
  | clear => exact hP.clear h
  | connect source outlet target inlet => exact hP.connect h source outlet target inlet
  | disconnect source outlet target inlet => exact hP.disconnect h source outlet target inlet
  | read saved => exact hP.readPatch h saved
  | setChannels inputs outputs =>
    exact h.adjust fun now hnow => hP.change hnow (.setChannels now inputs outputs) rfl
  | start sampleRate blockSize =>
    exact h.adjust fun now hnow => hP.change hnow (.start now sampleRate blockSize)
      (now.sameWiring_start sampleRate blockSize).nextId
  | stop => exact h.adjust fun now hnow => hP.change hnow (.stop now) now.sameWiring_stop.nextId
  | tick => exact h.adjust fun now hnow => hP.change hnow (.tick now) now.nextId_tick
  | process inputs sizes =>
    exact h.adjust fun now hnow =>
      hP.change hnow (.process now inputs sizes) (now.nextId_process inputs sizes)

/-! ### Messages -/

/-- A box takes on the state that it has after a reaction. -/
theorem settleReaction (hP : Lasting P) (h : studio.All P) {handle : Handle}
    (hpatch : studio.patch? handle.patch = some patch) {box : Box}
    (hbox : patch.boxOrRetired? handle.box = some box) {reaction : Reaction Machine}
    (hreacts : box.Reacts reaction) : (studio.settleReaction handle reaction).All P := by
  simp only [Studio.settleReaction, hpatch]
  exact h.setPatch hpatch (hP.react (h _ patch hpatch) hbox hreacts)

/-- A box takes in a message. -/
theorem receive (hP : Lasting P) (h : studio.All P) {handle : Handle} {box : Box}
    (hbox : studio.taker? handle = some box) (inlet : Nat) (atoms : List Atom) :
    ((studio.entered handle inlet atoms).settleReaction handle
      (box.machine.receive (studio.surroundings handle box.sheet) inlet atoms)).All P := by
  obtain ⟨patch, hpatch, htaker⟩ := Option.bind_eq_some_iff.mp hbox
  have hentered : (studio.entered handle inlet atoms).All P := h.of_patches rfl
  have hpatchEntered : (studio.entered handle inlet atoms).patch? handle.patch = some patch := hpatch
  split at htaker
  · exact hP.settleReaction hentered hpatchEntered htaker (.receive _ rfl inlet atoms)
  · cases htaker

/-- An edit that a box asks for is carried out. -/
theorem applyEdit (hP : Lasting P) (h : studio.All P) (edit : Patchbay.Edit) :
    (studio.applyEdit number edit).1.All P := by
  cases edit with
  | remove id => exact hP.remove h id
  | connect source outlet target inlet => exact hP.connect h source outlet target inlet
  | disconnect source outlet target inlet => exact hP.disconnect h source outlet target inlet
  | create words => exact hP.create h _
  | clear => exact hP.clear h

/-- So does the property outlast what is done at once. -/
theorem atOnce (hP : Lasting P) (h : studio.All P) {handle : Handle} {effect : Effect} {outcome : Bool}
    (hdone : studio.atOnce? handle effect = some (later, outcome)) : later.All P := by
  cases effect with
  | send outlet atoms | broadcast beacon atoms => cases hdone
  | print line =>
    obtain ⟨hsame, -⟩ := Prod.mk.inj (Option.some.inj hdone)
    exact hsame ▸ h.of_patches (by simp only [Studio.print])
  | tickAfter clock wait =>
    obtain rfl : (studio.tickAfter handle clock wait).1 = later :=
      congrArg Prod.fst (Option.some.inj hdone)
    refine h.of_patches ?_
    unfold Studio.tickAfter
    split <;> rfl
  | edit edit =>
    obtain rfl : (studio.applyEdit handle.patch edit).1 = later :=
      congrArg Prod.fst (Option.some.inj hdone)
    exact hP.applyEdit h _

/-- So it does what a listener does at once. -/
theorem hearing (h : studio.All P) {atoms : List Atom} {listener : Nat} {reply? : Option Reply}
    (hheard : studio.hearing atoms listener = (later, reply?)) : later.All P := by
  unfold Studio.hearing at hheard
  split at hheard
  · obtain ⟨rfl, -⟩ := Prod.mk.inj hheard
    exact h
  · obtain ⟨rfl, -⟩ := Prod.mk.inj hheard
    exact h.of_patches rfl

variable {most depth : Nat} {call : Call} {after : Studio} {outcome : Bool}

/-- The property outlasts every run. -/
theorem runs (hP : Lasting P) (hruns : Runs most depth call studio after outcome) (h : studio.All P) :
    after.All P := by
  induction hruns with
  | dropped | noTarget | nowhere | absent | reachedAll | noEffect => exact h
  | taken hroom hbox hreaction heffects ih =>
    subst hreaction
    exact (ih (hP.receive h hbox _ _)).of_patches rfl
  | sent hpatch htargets ih => exact ih (h.of_patches rfl)
  | heard hheard => exact hearing h hheard
  | replied hheard hreply ih => exact ih (hearing h hheard)
  | atOnce hdone => exact hP.atOnce h hdone
  | present halive hrun ih => exact ih h
  | send hrun ih | broadcast hrun ih => exact ih h
  | target hfirst hrest ihFirst ihRest | reached hfirst hrest ihFirst ihRest
  | effect hfirst hrest ihFirst ihRest => exact ihRest (ihFirst h)

/-- It outlasts what a request does before its call. -/
theorem opening (hP : Lasting P) (h : studio.All P) {request : Request} {opened : Studio}
    (hopening : request.opening? studio = some (opened, call)) : opened.All P := by
  cases request with
  | send handle inlet atoms =>
    simp only [Request.opening?] at hopening
    split at hopening
    · obtain ⟨rfl, -⟩ := Prod.mk.inj (Option.some.inj hopening)
      exact h
    · cases hopening
  | sendFrom handle outlet atoms =>
    simp only [Request.opening?] at hopening
    split at hopening
    · obtain ⟨rfl, -⟩ := Prod.mk.inj (Option.some.inj hopening)
      exact h
    · cases hopening
  | tick handle =>
    obtain ⟨box, hbox, hopened⟩ := Option.map_eq_some_iff.mp hopening
    obtain ⟨rfl, -⟩ := Prod.mk.inj hopened
    obtain ⟨patch, hpatch, hbox⟩ := Option.bind_eq_some_iff.mp hbox
    let ticked : Studio := { studio with events := .ticked handle :: studio.events }
    have hticked : ticked.All P := h.of_patches rfl
    have hpatchTicked : ticked.patch? handle.patch = some patch := hpatch
    have hfound : patch.boxOrRetired? handle.box = some box := by
      rw [Patch.boxOrRetired?, hbox, Option.orElse_some]
    exact hP.settleReaction hticked hpatchTicked hfound (.tick _ rfl)
  | broadcast name atoms =>
    obtain ⟨rfl, -⟩ := Prod.mk.inj (Option.some.inj hopening)
    exact h.of_patches rfl

/-- It outlasts every request. -/
theorem perform (hP : Lasting P) (h : studio.All P) (request : Request) :
    (request.perform studio).All P := by
  cases hopening : request.opening? studio with
  | none =>
    rw [Request.perform_of_none hopening]
    exact h
  | some entry =>
    obtain ⟨opened, call⟩ := entry
    have hends : request.Ends studio.highest studio _ := (Request.perform_ends rfl request).1
    unfold Request.Ends at hends
    rw [hopening] at hends
    obtain ⟨outcome, hruns, -⟩ := hends
    exact hP.runs hruns (hP.opening h hopening)

/-! ### Time -/

/-- It outlasts the task that is due first. -/
theorem runNext (hP : Lasting P) (h : studio.All P) : studio.runNext.1.All P := by
  unfold Studio.runNext
  split
  · exact h
  next entry timeline _ =>
  have hadvanced : ({ studio with timeline } : Studio).All P := h.of_patches rfl
  split
  · next handle _ => exact hP.perform hadvanced (.tick handle)
  · exact hadvanced

/-- It outlasts the passing of time. -/
theorem pass (hP : Lasting P) (h : studio.All P) (wait : Nat) : (studio.pass wait).All P := by
  have hrun : ∀ number steps (studio : Studio), studio.All P → (runToMark number steps studio).All P := by
    intro number steps
    induction steps with
    | zero => exact fun studio h => h
    | succ steps ih =>
      intro studio h
      have hnext := hP.runNext h
      unfold runToMark
      split
      · next later heq =>
        rw [heq] at hnext
        exact hnext
      · next later entry heq =>
        rw [heq] at hnext
        split
        · exact hnext
        · exact ih later hnext
  exact hrun _ _ _ (h.of_patches rfl)

end Lasting

end Studio

end Patchbay
