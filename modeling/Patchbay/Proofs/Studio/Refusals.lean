import Patchbay.Proofs.Studio.Building
import Patchbay.Proofs.Studio.Limits

/-!
# Operations that are refused

An operation that is refused changes nothing, but for the number that was given out to a box which could
not be built. A start on a patch whose signals go round in a cycle is reported but not refused: what ran
before is stopped, and the patch runs in silence from then on.
-/

namespace Patchbay

/-- An operation on a patch that may be refused. -/
inductive Attempt where
  | create (detail : Dico)
  | createFromText (text : String)
  | remove (id : Nat)
  | connect (source outlet target inlet : Nat)
  | disconnect (source outlet target inlet : Nat)
  | send (id inlet : Nat) (atoms : List Atom)
  | setAttribute (id : Nat) (name : String) (atoms : List Atom)
  | start (sampleRate : Float32) (blockSize : Nat)

/-- Decide whether a cycle of signals is the reason. -/
def PatchError.isCycle : PatchError → Bool
  | .chain (.cycle _) => true
  | _ => false

namespace Patch

variable {patch later : Patch} {sampleRate : Float32} {blockSize : Nat} {error : PatchError}

/-- What a start leaves that found a cycle: the patch runs, without a chain, and its machines are all that
has changed of its boxes. -/
structure Muted (patch later : Patch) (sampleRate : Float32) (blockSize : Nat) : Prop where
  running : later.engine.running = true
  rate : later.engine.sampleRate = sampleRate
  size : later.engine.blockSize = blockSize
  chain : later.engine.chain? = none
  channels : later.channels = patch.channels
  bodies : later.bodies = patch.bodies
  connections : later.connections = patch.connections
  retired : later.retired = patch.retired
  nextId : later.nextId = patch.nextId
  depthLimit : later.depthLimit = patch.depthLimit

/-- Stopping changes machines only. -/
theorem bodies_stop (patch : Patch) : patch.stop.bodies = patch.bodies := patch.map_boxes_stop fun _ => rfl

/-- Starting changes machines only, as far as boxes are concerned. -/
theorem bodies_start (patch : Patch) (sampleRate : Float32) (blockSize : Nat) :
    (patch.start sampleRate blockSize).1.bodies = patch.bodies := by
  unfold start
  split
  · exact (bodies_rebuildIf _ true).trans patch.bodies_stop
  · rfl

/-- Making the chain anew leaves the numbers of channels as they are. -/
theorem channels_rebuild (patch : Patch) : patch.rebuild.1.channels = patch.channels := by
  unfold rebuild
  split
  · dsimp only
    split <;> rfl
  · rfl

/-- So does starting. -/
theorem channels_start (patch : Patch) (sampleRate : Float32) (blockSize : Nat) :
    (patch.start sampleRate blockSize).1.channels = patch.channels := by
  unfold start
  split
  · rw [← patch.channels_stop]
    exact (channels_rebuild _).trans (by simp [channels, Bus.resize, Bus.silent])
  · rfl

/-- Starting takes no box out of the patch. -/
theorem retired_start (patch : Patch) (sampleRate : Float32) (blockSize : Nat) :
    (patch.start sampleRate blockSize).1.retired = patch.retired := by
  have hrebuild (patch : Patch) : patch.rebuild.1.retired = patch.retired := by
    unfold rebuild
    split
    · dsimp only
      split <;> rfl
    · rfl
  have hstop : patch.stop.retired = patch.retired := by
    unfold stop
    split <;> rfl
  unfold start
  split
  · exact (hrebuild _).trans hstop
  · rfl

/-- With settings that can be used only a cycle is in the way of a chain. -/
theorem isCycle_of_build {graph : SignalGraph} {reason : ChainError}
    (hvalid : Chain.validSettings sampleRate blockSize = true)
    (h : Chain.build Sample.zero graph sampleRate blockSize = .error reason) :
    (PatchError.chain reason).isCycle = true := by
  rw [Chain.build, if_pos hvalid, Chain.steps?] at h
  dsimp only at h
  split at h
  · cases h
  · cases Except.error.inj h
    rfl

/-- A start is refused for its settings before anything is done, or it reports a cycle. -/
theorem start_error (h : patch.start sampleRate blockSize = (later, some error)) :
    error.isCycle = false ∧ later = patch ∨
      error.isCycle = true ∧ patch.Muted later sampleRate blockSize := by
  have hlater : (patch.start sampleRate blockSize).1 = later := congrArg Prod.fst h
  have hchannels := hlater ▸ patch.channels_start sampleRate blockSize
  have hbodies := hlater ▸ patch.bodies_start sampleRate blockSize
  have hwiring := hlater ▸ patch.sameWiring_start sampleRate blockSize
  have hretired := hlater ▸ patch.retired_start sampleRate blockSize
  have hlimit := hlater ▸ patch.depthLimit_start sampleRate blockSize
  unfold start at h
  split at h
  · next hvalid =>
    dsimp only [rebuild] at h
    rw [if_pos rfl] at h
    split at h
    · cases (Prod.mk.inj h).2
    · next reason hreason =>
      obtain ⟨rfl, herror⟩ := Prod.mk.inj h
      obtain rfl := Option.some.inj herror
      exact .inr ⟨isCycle_of_build hvalid hreason, rfl, rfl, rfl, rfl, hchannels, hbodies,
        hwiring.connections, hretired, hwiring.nextId, hlimit⟩
  · obtain ⟨rfl, herror⟩ := Prod.mk.inj h
    obtain rfl := Option.some.inj herror
    exact .inl ⟨rfl, rfl⟩

end Patch

namespace Studio

/-- What an operation leaves, and the reason if it was refused. -/
def outcome {α : Type} : Studio × Except PatchError α → Studio × Option PatchError
  | (studio, .ok _) => (studio, none)
  | (studio, .error error) => (studio, some error)

/-- Try to carry out an operation on the patch of a number. -/
def attempt (studio : Studio) (number : Nat) : Attempt → Studio × Option PatchError
  | .create detail => outcome (studio.create number detail)
  | .createFromText text => outcome (studio.createFromText number text)
  | .remove id => outcome (studio.editPatch number fun patch => patch.remove id)
  | .connect source outlet target inlet =>
    outcome (studio.editPatch number fun patch => patch.connect source outlet target inlet)
  | .disconnect source outlet target inlet =>
    outcome (studio.editPatch number fun patch => patch.disconnect source outlet target inlet)
  | .send id inlet atoms => outcome (studio.send ⟨number, id⟩ inlet atoms)
  | .setAttribute id name atoms =>
    match studio.patch? number with
    | none => (studio, none)
    | some patch =>
      match patch.setAttribute id name atoms with
      | .error error => (studio, some error)
      | .ok (patch, _) => (studio.setPatch number patch, none)
  | .start sampleRate blockSize =>
    match studio.patch? number with
    | none => (studio, none)
    | some patch =>
      let (patch, error?) := patch.start sampleRate blockSize
      (studio.setPatch number patch, error?)

/-- One studio is like another but for the patch of a number, and that has become another patch. -/
structure Only (studio later : Studio) (number : Nat) (patch : Patch) : Prop where
  patch : later.patch? number = some patch
  others : ∀ other, other ≠ number → later.patch? other = studio.patch? other
  rest : later = { studio with patches := later.patches }

variable {studio later : Studio} {number : Nat} {patch : Patch} {error : PatchError}

theorem only_refl (hpatch : studio.patch? number = some patch) : studio.Only studio number patch :=
  ⟨hpatch, fun _ _ => rfl, rfl⟩

theorem only_setPatch (hpatch : studio.patch? number = some patch) (other : Patch) :
    studio.Only (studio.setPatch number other) number other :=
  ⟨patch?_setPatch hpatch other, fun _ hother => patch?_setPatch_of_ne other hother, rfl⟩

theorem outcome_eq {α : Type} {result : Studio × Except PatchError α}
    (h : outcome result = (later, some error)) : result = (later, .error error) := by
  obtain ⟨after, result⟩ := result
  cases result with
  | ok => cases (Prod.mk.inj h).2
  | error reason =>
    obtain ⟨rfl, hreason⟩ := Prod.mk.inj h
    rw [Option.some.inj hreason]

/-- A box that cannot be built takes a number at most. -/
theorem create_error (hpatch : studio.patch? number = some patch) {detail : Dico}
    (h : studio.create number detail = (later, .error error)) :
    ∃ nextId, patch.nextId ≤ nextId ∧ studio.Only later number { patch with nextId } := by
  rcases create_inversion hpatch detail with ⟨_, -, hcreate⟩ |
    ⟨name, arguments, -, ⟨-, hcreate⟩ |
      ⟨registration, -, ⟨reason, -, hcreate⟩ | ⟨plan, -, hresult, -⟩⟩⟩
  · obtain ⟨rfl, -⟩ := Prod.mk.inj (hcreate.symm.trans h)
    exact ⟨patch.nextId, Nat.le_refl _, only_refl hpatch⟩
  · obtain ⟨rfl, -⟩ := Prod.mk.inj (hcreate.symm.trans h)
    exact ⟨patch.nextId, Nat.le_refl _, only_refl hpatch⟩
  · obtain ⟨rfl, -⟩ := Prod.mk.inj (hcreate.symm.trans h)
    exact ⟨patch.nextId + 1, Nat.le_succ _, only_setPatch hpatch _⟩
  · rw [h] at hresult
    cases hresult

/-- An edit that is refused changes nothing. -/
theorem editPatch_error {edit : Patch → Except PatchError Patch}
    (h : studio.editPatch number edit = (later, .error error)) : later = studio := by
  unfold editPatch at h
  split at h
  · cases (Prod.mk.inj h).2
  split at h
  · exact (Prod.mk.inj h).1.symm
  · cases (Prod.mk.inj h).2

/-- A message that is refused changes nothing. -/
theorem send_error {handle : Handle} {inlet : Nat} {atoms : List Atom}
    (h : studio.send handle inlet atoms = (later, .error error)) : later = studio := by
  unfold send at h
  split at h
  · exact (Prod.mk.inj h).1.symm
  split at h
  · exact (Prod.mk.inj h).1.symm
  · cases (Prod.mk.inj h).2

/-- Whatever is the state of a studio and of a patch in it, an operation on the patch that is refused leaves
all boxes, wires and tasks, the beacons and the signal processing of all patches as they are; all that may
be used up is a number for a box. A start that reports a cycle leaves the patch running in silence with the
settings that were asked for, and changes nothing else but machines. -/
theorem refusals_change_nothing (hpatch : studio.patch? number = some patch) {attempt : Attempt}
    (h : studio.attempt number attempt = (later, some error)) :
    ((∀ sampleRate blockSize, attempt = .start sampleRate blockSize → error.isCycle = false) →
      ∃ nextId, patch.nextId ≤ nextId ∧ studio.Only later number { patch with nextId }) ∧
    ∀ sampleRate blockSize, attempt = .start sampleRate blockSize → error.isCycle = true →
      ∃ muted, studio.Only later number muted ∧ patch.Muted muted sampleRate blockSize := by
  have hsame (hlater : later = studio) : ∃ nextId, patch.nextId ≤ nextId ∧
      studio.Only later number { patch with nextId } := by
    obtain rfl := hlater
    exact ⟨patch.nextId, Nat.le_refl _, only_refl hpatch⟩
  cases attempt with
  | create detail => exact ⟨fun _ => create_error hpatch (outcome_eq h), nofun⟩
  | createFromText text => exact ⟨fun _ => create_error hpatch (outcome_eq h), nofun⟩
  | remove id => exact ⟨fun _ => hsame (editPatch_error (outcome_eq h)), nofun⟩
  | connect source outlet target inlet =>
    exact ⟨fun _ => hsame (editPatch_error (outcome_eq h)), nofun⟩
  | disconnect source outlet target inlet =>
    exact ⟨fun _ => hsame (editPatch_error (outcome_eq h)), nofun⟩
  | send id inlet atoms => exact ⟨fun _ => hsame (send_error (outcome_eq h)), nofun⟩
  | setAttribute id name atoms =>
    refine ⟨fun _ => hsame ?_, nofun⟩
    simp only [Studio.attempt, hpatch] at h
    split at h
    · exact (Prod.mk.inj h).1.symm
    · cases (Prod.mk.inj h).2
  | start sampleRate blockSize =>
    obtain ⟨⟨started, error?⟩, hstart⟩ : ∃ result, patch.start sampleRate blockSize = result := ⟨_, rfl⟩
    simp only [Studio.attempt, hpatch, hstart] at h
    obtain ⟨rfl, rfl⟩ := Prod.mk.inj h
    rcases Patch.start_error hstart with ⟨hsettings, rfl⟩ | ⟨hcycle, hmuted⟩
    · refine ⟨fun _ => ⟨started.nextId, Nat.le_refl _, only_setPatch hpatch started⟩,
        fun _ _ _ hcycle => ?_⟩
      exact absurd (hsettings.symm.trans hcycle) nofun
    · refine ⟨fun hsettings => ?_, fun _ _ hsame _ => ?_⟩
      · exact absurd ((hsettings _ _ rfl).symm.trans hcycle) nofun
      · obtain ⟨rfl, rfl⟩ := Attempt.start.inj hsame
        exact ⟨started, only_setPatch hpatch started, hmuted⟩

/-- Two multiplications that feed each other. -/
def circle : Studio := fresh.operateAll 0 [.createFromText "*~", .createFromText "*~",
  .connect 0 0 1 0, .connect 1 0 0 0]

/-- Joining them once more is refused, and a start reports the cycle. -/
theorem refusals_change_nothing_circle : ∃ patch later error muted, circle.patch? 0 = some patch ∧
    (circle.attempt 0 (.connect 0 0 1 0)).2.isSome = true ∧
    (∃ nextId, patch.nextId ≤ nextId ∧
      circle.Only (circle.attempt 0 (.connect 0 0 1 0)).1 0 { patch with nextId }) ∧
    circle.attempt 0 (.start 44100.0 64) = (later, some error) ∧ error.isCycle = true ∧
    circle.Only later 0 muted ∧ patch.Muted muted 44100.0 64 := by
  have hpatch : (circle.patch? 0).isSome = true := by decide +kernel
  have hrefused : (circle.attempt 0 (.connect 0 0 1 0)).2.isSome = true := by decide +kernel
  have hreported : (circle.attempt 0 (.start 44100.0 64)).2.any PatchError.isCycle = true := by
    decide +kernel
  obtain ⟨patch, hpatch⟩ := Option.isSome_iff_exists.mp hpatch
  obtain ⟨reason, hreason⟩ := Option.isSome_iff_exists.mp hrefused
  obtain ⟨error, herror, hcycle⟩ := (Option.any_eq_true _ _).mp hreported
  have hsame := (refusals_change_nothing hpatch (Prod.ext rfl hreason)).1 nofun
  obtain ⟨muted, honly, hmuted⟩ := (refusals_change_nothing hpatch (Prod.ext rfl herror)).2 _ _ rfl hcycle
  exact ⟨patch, _, error, muted, hpatch, hrefused, hsame, Prod.ext rfl herror, hcycle, honly, hmuted⟩

end Studio

end Patchbay
