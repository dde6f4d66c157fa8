import Patchbay.Proofs.Patch.Stills
import Patchbay.Proofs.Studio.Building
import Patchbay.Proofs.Studio.Lasting
import Patchbay.Proofs.Text.Spoken

/-!
# The names of attributes

Attributes are declared when a box is built, under names without blanks, and there are no others as long
as the box is there: setting, restoring and freezing keep the names in their order. So every attribute of
every box can be named in a line of words.
-/

namespace Patchbay

namespace Sheet

variable {sheet later : Sheet}

/-- The names of all attributes are words. -/
def Worded (sheet : Sheet) : Prop := ∀ name ∈ Keyed.keys sheet, Text.IsWord name.toList

/-- A value that is stored keeps the names. -/
theorem keys_store? {name : String} {atoms : List Atom} {force : Bool}
    (h : sheet.store? name atoms force = some later) : Keyed.keys later = Keyed.keys sheet := by
  obtain ⟨attr, hattr, h⟩ := Option.bind_eq_some_iff.mp h
  split at h
  · cases h
  obtain ⟨value, -, h⟩ := Option.bind_eq_some_iff.mp h
  split at h
  · cases h
  · rw [← Option.some.inj h]
    exact Keyed.keys_set_of_mem (List.mem_map_of_mem (Keyed.mem_of_get? hattr)) _

/-- So does one that may be refused. -/
theorem keys_getD_store? (sheet : Sheet) (name : String) (atoms : List Atom) (force : Bool) :
    Keyed.keys ((sheet.store? name atoms force).getD sheet) = Keyed.keys sheet := by
  cases hstore : sheet.store? name atoms force with
  | none => rfl
  | some later => exact keys_store? hstore

/-- So does a snapshot. -/
theorem keys_freeze (sheet : Sheet) (name : String) (on : Bool) :
    Keyed.keys (sheet.freeze name on) = Keyed.keys sheet := Keyed.map_modify fun _ _ => rfl

/-- So do saved values. -/
theorem keys_restore (sheet : Sheet) (dico : Dico) (all : Bool) :
    Keyed.keys (sheet.restore dico all) = Keyed.keys sheet := by
  unfold restore
  generalize sheet.restored dico all = names
  induction names generalizing sheet with
  | nil => rfl
  | cons name names ih =>
    rw [List.foldl_cons, ih]
    dsimp only
    split
    · rw [keys_freeze, keys_getD_store?]
    · exact keys_getD_store? sheet name _ true

/-- Attributes may be declared under words. -/
theorem Worded.add (h : sheet.Worded) {attributes : List Attribute}
    (hattributes : ∀ attr ∈ attributes, Text.IsWord attr.name.toList) :
    (attributes.foldl Sheet.add sheet).Worded := by
  induction attributes generalizing sheet with
  | nil => exact h
  | cons attr attributes ih =>
    obtain ⟨hattr, hrest⟩ := List.forall_mem_cons.mp hattributes
    refine ih (fun name hname => ?_) hrest
    by_cases hnew : attr.name ∈ Keyed.keys sheet
    · rw [Sheet.add, Keyed.keys_set_of_mem hnew] at hname
      exact h name hname
    · rw [Sheet.add, Keyed.set_of_notMem hnew, Keyed.keys, List.map_append] at hname
      rcases List.mem_append.mp hname with hold | hlast
      · exact h name hold
      · exact List.mem_singleton.mp hlast ▸ hattr

end Sheet

namespace Model

variable {model : Model} {site : Site} {plan : Plan Machine}

/-- The names of attributes besides the common ones. -/
theorem name_mem_of_plan (hplan : model.plan site = .ok plan) :
    ∀ attr ∈ plan.attributes, attr.name ∈ ["interval", "label", "scratch", "notes"] := by
  by_cases hbuiltin : model.isBuiltin = true
  · rw [attributes_of_plan hbuiltin hplan]
    split
    · exact List.forall_mem_singleton.mpr List.mem_cons_self
    · exact List.forall_mem_nil _
  · cases model with
    | idle | twin | late | agent =>
      obtain rfl := Except.ok.inj hplan
      exact List.forall_mem_nil _
    | panel =>
      obtain rfl := Except.ok.inj hplan
      have hpanel : (Bench.planPanel site).attributes.map Attribute.name = ["label", "scratch", "notes"] :=
        rfl
      intro attr hattr
      exact List.mem_cons_of_mem _ (hpanel ▸ List.mem_map_of_mem hattr)
    | plus | times | print | pass | speaker | hearer | delay | metro | constant | oscillator | timesSignal
    | plusSignal | input | output => exact absurd (by decide) hbuiltin

/-- All attributes of a box are declared under words. -/
theorem worded_plan (hplan : model.plan site = .ok plan) : plan.sheet.Worded := by
  have hnames : ∀ name ∈ ["interval", "label", "scratch", "notes"], Text.IsWord name.toList := by decide
  have hcommon : Box.commonSheet.Worded := by
    rw [Sheet.Worded, Box.keys_commonSheet]
    decide
  exact hcommon.add fun attr hattr => hnames attr.name (name_mem_of_plan hplan attr hattr)

end Model

namespace Machine

/-- Reacting to a message keeps the names of attributes. Only a metronome changes a value. -/
theorem keys_receive (here : Surroundings) (inlet : Nat) (atoms : List Atom) (machine : Machine) :
    Keyed.keys (machine.receive here inlet atoms).sheet = Keyed.keys here.sheet := by
  cases machine with
  | control state =>
    change Keyed.keys (state.receive here inlet atoms).sheet = _
    fun_cases Control.receive here inlet atoms state <;> rfl
  | wireless state => cases state <;> rfl
  | timing state =>
    change Keyed.keys (state.receive here inlet atoms).sheet = _
    fun_cases Timing.receive here inlet atoms state <;> first | rfl | exact here.sheet.keys_getD_store? _ _ _
  | audio state =>
    change Keyed.keys (state.receive here inlet atoms).sheet = _
    fun_cases Audio.receive here inlet atoms state <;> rfl
  | bench state =>
    change Keyed.keys (state.receive here atoms).sheet = _
    fun_cases Bench.receive here atoms state <;> rfl

/-- So does reacting to a tick. -/
theorem keys_tick (here : Surroundings) (machine : Machine) :
    Keyed.keys (machine.tick here).sheet = Keyed.keys here.sheet := by
  cases machine with
  | timing state =>
    change Keyed.keys (state.tick here).sheet = _
    fun_cases Timing.tick here state <;> rfl
  | control | wireless | audio | bench => rfl

end Machine

/-- Whatever a box makes of a message or a tick, its attributes keep their names. -/
theorem Box.Reacts.keys {box : Box} {reaction : Reaction Machine} (h : box.Reacts reaction) :
    Keyed.keys reaction.sheet = Keyed.keys box.sheet := by
  cases h with
  | receive here hsheet inlet atoms => rw [Machine.keys_receive, hsheet]
  | tick here hsheet => rw [Machine.keys_tick, hsheet]

/-- Boxes that look the same have the same attributes. -/
theorem Box.sheet_eq_of_still {box other : Box} (h : box.still = other.still) : box.sheet = other.sheet := by
  have hsheet : box.still.sheet = other.still.sheet := by rw [h]
  exact hsheet

namespace Patch

variable {patch later : Patch}

/-- Every box, be it in the patch or taken out, has a number of its own and words for the names of its
attributes. -/
structure Worded (patch : Patch) : Prop where
  tagged : patch.Tagged
  sheets : ∀ box ∈ patch.everyone, box.sheet.Worded

namespace Worded

theorem empty : Worded {} := ⟨⟨List.nodup_nil, nofun⟩, nofun⟩

/-- It stays so if nobody comes. -/
theorem rearranged (h : patch.Worded) (hrearranged : patch.Rearranged later) : later.Worded := by
  refine ⟨hrearranged.tagged h.tagged, fun box hbox => ?_⟩
  obtain ⟨old, hold, hstill⟩ :=
    List.mem_map.mp (hrearranged.everyone.subset (List.mem_map_of_mem hbox))
  exact Box.sheet_eq_of_still hstill ▸ h.sheets old hold

/-- A box whose attributes have words for names may be put in. -/
theorem install (h : patch.Worded) {box : Box} (hid : box.id = patch.nextId) (hbox : box.sheet.Worded) :
    (patch.reserve.1.install box).Worded := by
  refine ⟨tagged_install h.tagged hid, fun other hother => ?_⟩
  rcases List.mem_cons.mp ((everyone_install patch box).subset (List.mem_map_of_mem hother)) with
    hnew | hold
  · exact Box.sheet_eq_of_still hnew ▸ hbox
  · obtain ⟨old, hold, hstill⟩ := List.mem_map.mp hold
    exact Box.sheet_eq_of_still hstill ▸ h.sheets old hold

/-- A box may change as long as it keeps its number and its attributes have words for names. -/
theorem updateBox (h : patch.Worded) (id : Nat) {change : Box → Box} (hid : ∀ box, (change box).id = box.id)
    (hsheet : ∀ box, (change box).sheet.Worded) : (patch.updateBox id change).Worded := by
  let update (box : Box) := if box.id = id then change box else box
  have heveryone : (patch.updateBox id change).everyone = patch.everyone.map update :=
    List.map_append.symm
  have hids : (patch.everyone.map update).map Box.id = patch.everyone.map Box.id := by
    rw [List.map_map]
    refine List.map_congr_left fun box _ => ?_
    simp only [update, Function.comp_apply]
    split
    · exact hid box
    · rfl
  refine ⟨h.tagged.of_everyone (heveryone ▸ hids ▸ .refl _) (Nat.le_refl _), fun box hbox => ?_⟩
  rw [heveryone] at hbox
  obtain ⟨old, hold, rfl⟩ := List.mem_map.mp hbox
  simp only [update]
  split
  · exact hsheet old
  · exact h.sheets old hold

/-- An attribute may be set. -/
theorem setAttribute (h : patch.Worded) {id : Nat} {name : String} {atoms : List Atom} {changed : Bool}
    (hset : patch.setAttribute id name atoms = .ok (later, changed)) : later.Worded := by
  unfold Patch.setAttribute at hset
  split at hset
  · cases hset
  next box hbox =>
  split at hset
  · next sheet hstore =>
    obtain ⟨rfl, -⟩ := Prod.mk.inj (Except.ok.inj hset)
    have hbox := h.sheets box (List.mem_append_left _ (List.mem_of_find?_eq_some hbox))
    refine h.updateBox id (fun _ => rfl) fun _ => ?_
    rwa [Sheet.Worded, Sheet.keys_store? hstore]
  · obtain ⟨rfl, -⟩ := Prod.mk.inj (Except.ok.inj hset)
    exact h

end Worded

end Patch

/-- Nothing in a studio changes the names of attributes. -/
theorem Studio.lasting_worded : Lasting Patch.Worded where
  change h hchange hsame := by
    rcases hchange.rearranged h.tagged with hrearranged | ⟨box, -, rfl⟩
    · exact h.rearranged hrearranged
    · rw [Patch.nextId_install] at hsame
      exact absurd hsame (Nat.succ_ne_self _)
  reserve h := h.rearranged ⟨.refl _, Nat.le_succ _⟩
  install h hid hplan detail service := by
    refine h.install hid ?_
    rw [Sheet.Worded, assemble, Sheet.keys_restore]
    exact Model.worded_plan hplan
  react h hbox hreacts := by
    have hbox := h.sheets _ (List.mem_of_find?_eq_some (Patch.boxOrRetired?_eq_find? _ _ ▸ hbox))
    refine h.updateBox _ (fun _ => rfl) fun _ => ?_
    rwa [Sheet.Worded, hreacts.keys]

end Patchbay
