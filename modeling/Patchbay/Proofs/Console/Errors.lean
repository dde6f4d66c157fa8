import Patchbay.Console.Session
import Patchbay.Proofs.Studio.Refusals
import Patchbay.Storage.Disk

/-!
# Lines that end in an error

A line of the console that ends in an error leaves the patch as it is, and signal processing too, with
one exception: starting with a rate or a block size of zero. Such a start stops what was started from the
console before it looks at the settings.
-/

namespace Patchbay

/-- A sheet that took in a value for an attribute still has the attribute. -/
theorem Sheet.has_of_store? {sheet later : Sheet} {name : String} {atoms : List Atom} {force : Bool}
    (h : sheet.store? name atoms force = some later) : later.has name = true := by
  obtain ⟨attr, -, h⟩ := Option.bind_eq_some_iff.mp h
  split at h
  · cases h
  obtain ⟨value, -, h⟩ := Option.bind_eq_some_iff.mp h
  split at h
  · cases h
  · rw [← Option.some.inj h, Keyed.has, Keyed.get?_set_self]
    rfl

namespace Patch

/-- The box of which an attribute is set is there afterwards, with the attribute. -/
theorem box?_setAttribute {patch later : Patch} {id : Nat} {name : String} {atoms : List Atom} {changed : Bool}
    {box : Box} (hbox : patch.box? id = some box) (hhas : box.sheet.has name = true)
    (h : patch.setAttribute id name atoms = .ok (later, changed)) :
    ∃ found, later.box? id = some found ∧ found.sheet.has name = true := by
  unfold setAttribute at h
  rw [hbox] at h
  dsimp only at h
  split at h
  · next sheet hsheet =>
    obtain ⟨rfl, -⟩ := Prod.mk.inj (Except.ok.inj h)
    have hid : box.id = id := by simpa using List.find?_some hbox
    refine ⟨{ box with sheet }, ?_, Sheet.has_of_store? hsheet⟩
    have hsame : ((fun other : Box => other.id == id) ∘ fun other =>
        if other.id = id then { other with sheet } else other) = fun other => other.id == id := by
      funext other
      simp only [Function.comp_apply]
      split <;> rfl
    have hfound : patch.boxes.find? (fun other => other.id == id) = some box := hbox
    rw [box?, updateBox, List.find?_map, hsame, hfound, Option.map_some, if_pos hid]
  · obtain ⟨rfl, -⟩ := Prod.mk.inj (Except.ok.inj h)
    exact ⟨box, hbox, hhas⟩

end Patch

namespace Console

variable {console later : Console} {patch : Patch} {error : ConsoleError}

/-- All that may have changed at a console is the number of the next box. -/
def Spares (console later : Console) (patch : Patch) : Prop :=
  ∃ nextId studio, later = { console with studio } ∧
    console.studio.Only studio console.number { patch with nextId }

theorem spares_of_eq (hpatch : console.studio.patch? console.number = some patch) (h : later = console) :
    console.Spares later patch := ⟨patch.nextId, console.studio, h, Studio.only_refl hpatch⟩

/-- An edit that fails changes nothing. -/
theorem edit_error {change : Patch → Except PatchError Patch} {reply : String}
    (h : console.edit change reply = (later, .error error)) : later = console := by
  obtain ⟨⟨studio, result⟩, hresult⟩ : ∃ result, console.studio.editPatch console.number change = result :=
    ⟨_, rfl⟩
  rw [edit, hresult] at h
  cases result with
  | ok => cases (Prod.mk.inj h).2
  | error reason =>
    obtain ⟨rfl, -⟩ := Prod.mk.inj h
    rw [Studio.editPatch_error hresult]

/-- An attribute that cannot be shown changes nothing. -/
theorem get_error {id : Nat} {name : String} (h : console.get id name = (later, .error error)) :
    later = console := (Prod.mk.inj h).1.symm

/-- An attribute that was set can be shown. -/
theorem get_setAttribute {id : Nat} {name : String} {atoms : List Atom} {box : Box} {changed : Bool}
    {set : Patch} (hpatch : console.studio.patch? console.number = some patch)
    (hbox : console.boxWith id name = .ok box) (hset : patch.setAttribute id name atoms = .ok (set, changed)) :
    ((console.setPatch set).get id name).2.isOk = true := by
  have hsame : console.patch = patch := by rw [Console.patch, hpatch, Option.getD_some]
  have hlater : (console.setPatch set).patch = set := by
    rw [Console.patch, setPatch, Studio.patch?_setPatch hpatch, Option.getD_some]
  rw [boxWith, hsame] at hbox
  split at hbox
  · cases hbox
  next other hother =>
  split at hbox
  · next hhas =>
    obtain ⟨found, hfound, hkept⟩ := Patch.box?_setAttribute hother hhas hset
    rw [get, boxWith, hlater, hfound]
    simp only [hkept, if_true]
    rfl
  · cases hbox

/-- A start fails for its settings, after what ran was stopped. -/
theorem start_error {sampleRate blockSize : Nat}
    (h : console.start sampleRate blockSize = (later, .error error)) :
    (sampleRate = 0 ∨ blockSize = 0) ∧ later = console.stopDriving := by
  unfold start at h
  dsimp only at h
  split at h
  · next hzero => exact ⟨by simpa using hzero, (Prod.mk.inj h).1.symm⟩
  · cases (Prod.mk.inj h).2

/-- A command that fails leaves the patch as it is, unless it is a start. -/
theorem perform_error (hpatch : console.studio.patch? console.number = some patch) {command : Command}
    (h : console.perform command = (later, .error error)) : console.Spares later patch ∨
      ∃ sampleRate? blockSize?, command = .start sampleRate? blockSize? ∧
        (sampleRate?.getD console.settings.sampleRate = 0 ∨ blockSize?.getD console.settings.blockSize = 0) ∧
        later = console.stopDriving := by
  cases command with
  | create text =>
    left
    obtain ⟨⟨studio, result⟩, hresult⟩ : ∃ result,
      console.studio.createFromText console.number text = result := ⟨_, rfl⟩
    simp only [perform, hresult] at h
    cases result with
    | ok id => cases (Prod.mk.inj h).2
    | error reason =>
      obtain ⟨rfl, -⟩ := Prod.mk.inj h
      obtain ⟨nextId, -, honly⟩ := Studio.create_error hpatch hresult
      exact ⟨nextId, studio, rfl, honly⟩
  | remove | connect | disconnect => exact .inl (spares_of_eq hpatch (edit_error h))
  | send id inlet atoms =>
    left
    obtain ⟨⟨studio, result⟩, hresult⟩ : ∃ result,
      console.studio.send ⟨console.number, id⟩ inlet atoms = result := ⟨_, rfl⟩
    simp only [perform, hresult] at h
    cases result with
    | ok => cases (Prod.mk.inj h).2
    | error reason =>
      obtain ⟨rfl, -⟩ := Prod.mk.inj h
      exact spares_of_eq hpatch (by rw [Studio.send_error hresult])
  | set id name atoms =>
    left
    have hsame : console.patch = patch := by rw [Console.patch, hpatch, Option.getD_some]
    simp only [perform, hsame] at h
    split at h
    · exact spares_of_eq hpatch (Prod.mk.inj h).1.symm
    next box hbox =>
    split at h
    · exact spares_of_eq hpatch (Prod.mk.inj h).1.symm
    · next set changed hset =>
      have hok := get_setAttribute hpatch hbox hset
      rw [h] at hok
      cases hok
  | get id name => exact .inl (spares_of_eq hpatch (get_error h))
  | start sampleRate? blockSize? =>
    obtain ⟨hzero, hlater⟩ := start_error h
    exact .inr ⟨sampleRate?, blockSize?, rfl, hzero, hlater⟩
  | nothing | list | objects | stop | save | load | help | quit => cases (Prod.mk.inj h).2

/-- What is done after something else takes the disk over from it. -/
theorem exists_run_bind {α β : Type} {first : StateM Disk α} {next : α → StateM Disk β} {disk : Disk}
    {result : β × Disk} (h : (first >>= next).run disk = result) :
    ∃ value middle, (next value).run middle = result := ⟨(first.run disk).1, (first.run disk).2, h⟩

/-- A command that has to do with files leaves the console as it is if it fails. -/
theorem execute_error {command : Command} {disk after : Disk}
    (h : (console.execute command : StateM Disk _).run disk = ((later, .error error), after)) :
    later = console ∨ console.perform command = (later, .error error) := by
  unfold execute at h
  split at h
  · left
    obtain ⟨written, middle, h⟩ := exists_run_bind h
    split at h
    · exact (Prod.mk.inj (Prod.mk.inj h).1).1.symm
    · cases (Prod.mk.inj (Prod.mk.inj h).1).2
  · left
    obtain ⟨found, middle, h⟩ := exists_run_bind h
    split at h
    · exact (Prod.mk.inj (Prod.mk.inj h).1).1.symm
    · obtain ⟨loaded, rest, h⟩ := exists_run_bind h
      split at h
      · exact (Prod.mk.inj (Prod.mk.inj h).1).1.symm
      · cases (Prod.mk.inj (Prod.mk.inj h).1).2
  · exact .inr (Prod.mk.inj h).1

/-- Stopping what was started from the console stops the patch and changes nothing else. -/
theorem stopDriving_eq (hpatch : console.studio.patch? console.number = some patch) :
    console.stopDriving = console ∨ console.driving = true ∧ ∃ studio,
      console.stopDriving = { console with studio, driving := false } ∧
      console.studio.Only studio console.number patch.stop := by
  have hsame : console.patch = patch := by rw [Console.patch, hpatch, Option.getD_some]
  unfold stopDriving
  split
  · next hdriving =>
    exact .inr ⟨hdriving, _, rfl, hsame ▸ Studio.only_setPatch hpatch _⟩
  · exact .inl rfl

/-- Whatever the console and the disk are like, a line that ends in an error leaves boxes, wires, attributes
and signal processing as they are, but for the number of the next box. The one exception is a start with a
rate or a block size of zero while signal processing is on that was started from the console: that is
stopped. Boxes, wires and attributes stay even then. -/
theorem errors_leave_patch (hpatch : console.studio.patch? console.number = some patch) {line : List Char}
    {disk after : Disk}
    (h : (console.executeLine line : StateM Disk _).run disk = ((later, .error error), after)) :
    (∃ nextId studio, later = { console with studio } ∧
      console.studio.Only studio console.number { patch with nextId }) ∨
    ∃ sampleRate? blockSize? studio, Command.read line = .ok (.start sampleRate? blockSize?) ∧
      (sampleRate?.getD console.settings.sampleRate = 0 ∨
        blockSize?.getD console.settings.blockSize = 0) ∧
      console.driving = true ∧ later = { console with studio, driving := false } ∧
      console.studio.Only studio console.number patch.stop ∧ patch.stop.engine.running = false ∧
      patch.stop.bodies = patch.bodies ∧ patch.stop.connections = patch.connections := by
  unfold executeLine at h
  split at h
  · exact .inl (spares_of_eq hpatch (Prod.mk.inj (Prod.mk.inj h).1).1.symm)
  next command hcommand =>
  rcases execute_error h with hsame | hperform
  · exact .inl (spares_of_eq hpatch hsame)
  rcases perform_error hpatch hperform with hspares | ⟨sampleRate?, blockSize?, rfl, hzero, rfl⟩
  · exact .inl hspares
  rcases stopDriving_eq hpatch with hsame | ⟨hdriving, studio, hlater, honly⟩
  · exact .inl (spares_of_eq hpatch hsame)
  · exact .inr ⟨sampleRate?, blockSize?, studio, hcommand, hzero, hdriving, hlater, honly,
      patch.running_stop, patch.bodies_stop, patch.sameWiring_stop.connections⟩

/-- A console at which signal processing was started. -/
def humming : Console :=
  ((Console.executeLine (openEmpty {} "") "dsp on 8000 16".toList : StateM Disk _).run {}).1.1

/-- A box that is not known is not built, and signal processing goes on. -/
theorem errors_leave_patch_humming : ∃ patch later error after,
    humming.studio.patch? humming.number = some patch ∧
    (humming.executeLine "create noise~".toList : StateM Disk _).run {} = ((later, .error error), after) ∧
    patch.engine.running = true ∧ ∃ nextId studio, later = { humming with studio } ∧
      humming.studio.Only studio humming.number { patch with nextId } := by
  have hrunning : (humming.studio.patch? humming.number).any (·.engine.running) = true := by decide +kernel
  have hrefused : ((humming.executeLine "create noise~".toList : StateM Disk _).run {}).1.2.isOk = false := by
    decide +kernel
  have hcommand : (Command.read "create noise~".toList).toOption.map (· matches .start ..) = some false := by
    decide +kernel
  obtain ⟨patch, hpatch, hrunning⟩ := (Option.any_eq_true _ _).mp hrunning
  obtain ⟨⟨⟨later, result⟩, after⟩, hrun⟩ : ∃ outcome,
    (humming.executeLine "create noise~".toList : StateM Disk _).run {} = outcome := ⟨_, rfl⟩
  rw [hrun] at hrefused
  cases result with
  | ok => cases hrefused
  | error error =>
    refine ⟨patch, later, error, after, hpatch, hrun, hrunning, ?_⟩
    rcases errors_leave_patch hpatch hrun with hsame | ⟨_, _, _, hstart, -⟩
    · exact hsame
    · rw [hstart] at hcommand
      cases hcommand

/-- A start with a rate of zero is an error, and signal processing that was on is off after it. -/
theorem start_at_zero_stops :
    let refused := ((humming.executeLine "dsp on 0 16".toList : StateM Disk _).run {}).1
    humming.patch.engine.running = true ∧ refused.2.isOk = false ∧
      refused.1.patch.engine.running = false := by
  decide +kernel

end Console

end Patchbay
