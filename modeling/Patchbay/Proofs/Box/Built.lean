import Patchbay.Studio.Editing
import Patchbay.Proofs.Atom.Words
import Patchbay.Proofs.Attribute.Declaring
import Patchbay.Proofs.Attribute.Restoring
import Patchbay.Proofs.Patch.Wired

/-!
# Boxes built again

What the boxes that every studio knows make of their arguments: arguments that have been written on a
line and read back give the same inlets and outlets, and a sheet of the same outline. Only the channels
of audio inputs and outputs and the names of beacons decide whether a box can be built, and these come
back as they are.
-/

namespace Patchbay

/-- The sheet of a box that is built by a plan, before it is restored. -/
def Plan.sheet {M : Type} (plan : Plan M) : Sheet :=
  plan.attributes.foldl Sheet.add Box.commonSheet

/-- An argument read back is that argument of the site. -/
theorem Site.argument_reread {site later : Site}
    (h : later.arguments = site.arguments.map Words.reread) (index : Nat) :
    later.argument index = Words.reread (site.argument index) := by
  rw [argument, argument, h, List.getElem?_map]
  cases site.arguments[index]? <;> rfl

/-- The name of a beacon comes back. -/
theorem Wireless.beaconName_reread {site later : Site} {name : String}
    (h : beaconName site = .ok name) (hlater : later.arguments = site.arguments.map Words.reread) :
    beaconName later = .ok name := by
  unfold beaconName at h ⊢
  rw [Site.argument_reread hlater]
  split at h
  · next text htext => rwa [htext]
  · cases h

/-- If a list of computations has a result, each of them has one. -/
theorem exists_of_mapM_eq_ok {ε A B : Type} {f : A → Except ε B} {items : List A} {found : List B}
    (h : items.mapM f = .ok found) : ∀ item ∈ items, ∃ result, f item = .ok result := by
  induction items generalizing found with
  | nil => simp
  | cons item items ih =>
    rw [List.mapM_cons] at h
    cases hitem : f item with
    | error error =>
      rw [hitem] at h
      cases h
    | ok result =>
      cases hitems : items.mapM f with
      | error error =>
        rw [hitem, hitems] at h
        cases h
      | ok results => exact List.forall_mem_cons.mpr ⟨⟨result, hitem⟩, ih hitems⟩

/-- The channels come back. -/
theorem Audio.channels_reread {site later : Site} {found : List Nat} (h : channels site = .ok found)
    (hlater : later.arguments = site.arguments.map Words.reread) : channels later = .ok found := by
  have hsame : later.arguments = site.arguments := by
    rw [hlater]
    unfold channels at h
    split at h
    · next hnone => rw [List.isEmpty_iff.mp hnone, List.map_nil]
    · refine (List.map_congr_left fun atom hatom => ?_).trans (List.map_id _)
      -- Only an integer names a channel.
      obtain ⟨channel, hchannel⟩ := exists_of_mapM_eq_ok h atom hatom
      cases atom with
      | long n => rfl
      | undefined | bool | double | symbol | vector | dico => cases hchannel
  rw [← h, channels, channels, hsame]

namespace Model

/-- Decide whether a model is one that every studio knows. -/
def isBuiltin (model : Model) : Bool := (Catalog.builtins.map Prod.snd).contains model

variable {model : Model} {site : Site} {plan : Plan Machine}

/-- Arguments read back build a box with the same inlets and outlets. -/
theorem plan_reread (hbuiltin : model.isBuiltin = true) (hplan : model.plan site = .ok plan)
    {later : Site} (hlater : later.arguments = site.arguments.map Words.reread) :
    ∃ again, model.plan later = .ok again ∧ again.inlets = plan.inlets ∧
      again.outlets = plan.outlets := by
  cases model with
  | plus | times | print | pass | delay | metro | constant | oscillator | timesSignal | plusSignal =>
    obtain rfl := Except.ok.inj hplan
    exact ⟨_, rfl, rfl, rfl⟩
  | speaker | hearer =>
    obtain ⟨before, hbefore, rfl⟩ := exists_of_map_eq_ok hplan
    obtain ⟨name, hname, rfl⟩ := exists_of_map_eq_ok hbefore
    have hagain := Wireless.beaconName_reread hname hlater
    simp only [Model.plan, Wireless.planSpeaker, Wireless.planHearer, hagain]
    exact ⟨_, rfl, rfl, rfl⟩
  | input | output =>
    obtain ⟨before, hbefore, rfl⟩ := exists_of_map_eq_ok hplan
    obtain ⟨channels, hchannels, rfl⟩ := exists_of_map_eq_ok hbefore
    have hagain := Audio.channels_reread hchannels hlater
    simp only [Model.plan, Audio.planInput, Audio.planOutput, hagain]
    exact ⟨_, rfl, rfl, rfl⟩
  | idle | twin | late | agent | panel => exact absurd hbuiltin (by decide)

/-- The attribute that holds the interval of a metronome. -/
def intervalAttribute (interval : Float) : Attribute :=
  (((Attribute.declare Timing.intervalName .double [.double interval]).withLabel
    "Interval (ms)").withCategory "Behavior").withMin 1.0

/-- It is sound, and has no snapshot, if the interval is a number. -/
theorem sound_intervalAttribute {interval : Float} (h : interval.isNaN = false) :
    (intervalAttribute interval).Sound ∧ (intervalAttribute interval).frozen? = none := by
  have hone : (1.0 : Float).isNaN = false := by decide +kernel
  have hatoms : ∀ atom ∈ [Atom.double interval], atom.toDouble.isNaN = false :=
    List.forall_mem_singleton.mpr h
  have hdeclared : (Attribute.declare Timing.intervalName .double [.double interval]).Sound :=
    (Attribute.sound_declare (Or.inr rfl) hatoms _).1
  have hlabelled : (((Attribute.declare Timing.intervalName .double
      [.double interval]).withLabel "Interval (ms)").withCategory "Behavior").Sound :=
    hdeclared.congr rfl rfl rfl rfl
  exact ⟨hlabelled.withMin rfl hone, rfl⟩

/-- The interval that a metronome is built with. -/
def givenInterval (site : Site) : Float :=
  match site.number? 0 with
  | some given => Attribute.raise 1.0 given
  | none => Timing.defaultInterval

/-- It is a number, whatever is given. -/
theorem isNaN_givenInterval (site : Site) : (givenInterval site).isNaN = false := by
  have hone : (1.0 : Float).isNaN = false := by decide +kernel
  have hdefault : Timing.defaultInterval.isNaN = false := by decide +kernel
  unfold givenInterval
  split
  · exact Attribute.isNaN_raise hone _
  · exact hdefault

/-- Of these boxes only the metronome has attributes besides the common ones. -/
theorem attributes_of_plan (hbuiltin : model.isBuiltin = true) (hplan : model.plan site = .ok plan) :
    plan.attributes =
      if model = .metro then [intervalAttribute (givenInterval site)] else [] := by
  cases model with
  | plus | times | print | pass | delay | metro | constant | oscillator | timesSignal | plusSignal =>
    obtain rfl := Except.ok.inj hplan
    rfl
  | speaker | hearer | input | output =>
    obtain ⟨before, hbefore, rfl⟩ := exists_of_map_eq_ok hplan
    obtain ⟨found, -, rfl⟩ := exists_of_map_eq_ok hbefore
    rfl
  | idle | twin | late | agent | panel => exact absurd hbuiltin (by decide)

/-- The sheet with which a box is built is sound, and only the model decides its outline. -/
theorem fresh_sheet (hbuiltin : model.isBuiltin = true) (hplan : model.plan site = .ok plan) :
    plan.sheet.Fresh ∧ plan.sheet.outline = Box.commonSheet.outline ++
      if model = .metro then
        [(Timing.intervalName, (intervalAttribute Timing.defaultInterval).outline)]
      else [] := by
  rw [Plan.sheet, attributes_of_plan hbuiltin hplan]
  split
  · have hnames : (Sheet.reservedKeys ++ (Keyed.keys Box.commonSheet ++
        [intervalAttribute (givenInterval site)].map Attribute.name)).Nodup := by
      rw [Box.keys_commonSheet]
      change (Sheet.reservedKeys ++ (_ ++ ["interval"])).Nodup
      decide
    have hsound := sound_intervalAttribute (isNaN_givenInterval site)
    refine ⟨Box.fresh_commonSheet.foldl_add hnames (List.forall_mem_singleton.mpr hsound), ?_⟩
    rw [Sheet.foldl_add (List.nodup_append.mp hnames).2.1, Sheet.outline, List.map_append]
    rfl
  · exact ⟨Box.fresh_commonSheet, (List.append_nil _).symm⟩

end Model

end Patchbay
