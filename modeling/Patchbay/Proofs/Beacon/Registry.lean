import Patchbay.Beacon.Registry
import Patchbay.Proofs.Keyed

/-!
# Registries that grow

Whatever is done to a registry, its beacons keep their numbers and names, and a change of one beacon's
list leaves the lists of the others alone.
-/

namespace Patchbay.Registry

variable {C : Type}

/-- Beacons that were made stay, with their numbers and names. -/
structure Grows (registry later : Registry C) : Prop where
  size : registry.beacons.length ≤ later.beacons.length
  name : ∀ number < registry.beacons.length, later.nameOf number = registry.nameOf number

/-- Whatever number a name has is that of a beacon. -/
def Numbered (registry : Registry C) : Prop :=
  ∀ entry ∈ registry.names, entry.2 < registry.beacons.length

variable {registry later last : Registry C} {number : Nat}

theorem Grows.refl (registry : Registry C) : registry.Grows registry :=
  ⟨Nat.le_refl _, fun _ _ => rfl⟩

theorem Grows.trans (h : registry.Grows later) (hlast : later.Grows last) : registry.Grows last where
  size := Nat.le_trans h.size hlast.size
  name number hnumber := by
    rw [hlast.name number (Nat.lt_of_lt_of_le hnumber h.size), h.name number hnumber]

theorem update_size (number : Nat) (change : List C → List C) :
    (registry.update number change).beacons.length = registry.beacons.length :=
  List.length_modify ..

theorem update_grows (number : Nat) (change : List C → List C) :
    registry.Grows (registry.update number change) where
  size := Nat.le_of_eq (update_size number change).symm
  name other _ := by
    simp only [nameOf, update, List.getElem?_modify]
    cases registry.beacons[other]? with
    | none => rfl
    | some beacon => by_cases heq : number = other <;> simp [heq]

theorem forget_size (gone : C → Bool) :
    (registry.forget gone).beacons.length = registry.beacons.length :=
  List.length_map ..

theorem forget_grows (gone : C → Bool) : registry.Grows (registry.forget gone) where
  size := Nat.le_of_eq (forget_size gone).symm
  name other _ := by
    simp only [nameOf, forget, List.getElem?_map, Option.map_map]
    rfl

/-- The list of the beacon that changes. -/
theorem castaways_update (h : number < registry.beacons.length) (change : List C → List C) :
    (registry.update number change).castaways number = change (registry.castaways number) := by
  simp [castaways, update, h]

/-- The others keep theirs. -/
theorem castaways_update_of_ne {other : Nat} (h : number ≠ other) (change : List C → List C) :
    (registry.update number change).castaways other = registry.castaways other := by
  simp [castaways, update, h]

theorem castaways_forget (gone : C → Bool) (number : Nat) :
    (registry.forget gone).castaways number =
      (registry.castaways number).filter fun castaway => !gone castaway := by
  simp only [castaways, forget, List.getElem?_map, Option.map_map]
  cases registry.beacons[number]? <;> rfl

/-- What finding or making a beacon does: it is there already, or it is a new one, the last, that has
nobody on its list. -/
theorem create_cases (registry : Registry C) (name : String) :
    registry.find? name = some (registry.create name).2 ∧ (registry.create name).1 = registry ∨
      (registry.create name).2 = registry.beacons.length ∧ (registry.create name).1 =
        ⟨registry.beacons ++ [⟨name, []⟩], registry.names.set name registry.beacons.length⟩ := by
  unfold create
  cases registry.find? name with
  | none => exact Or.inr ⟨rfl, rfl⟩
  | some number => exact Or.inl ⟨rfl, rfl⟩

theorem create_grows (registry : Registry C) (name : String) :
    registry.Grows (registry.create name).1 := by
  rcases registry.create_cases name with ⟨-, heq⟩ | ⟨-, heq⟩
  · rw [heq]
    exact Grows.refl registry
  · rw [heq]
    refine ⟨by simp, ?_⟩
    intro number hnumber
    simp only [nameOf, List.getElem?_append_left hnumber]

theorem Numbered.create (h : registry.Numbered) (name : String) :
    (registry.create name).1.Numbered := by
  rcases registry.create_cases name with ⟨-, heq⟩ | ⟨-, heq⟩
  · rw [heq]
    exact h
  · intro entry hentry
    simp only [heq, List.length_append, List.length_singleton] at hentry ⊢
    rcases Keyed.mem_set hentry with hold | rfl
    · exact Nat.lt_succ_of_lt (h entry hold)
    · exact Nat.lt_succ_self _

/-- The beacon of a name is there once it was asked for. -/
theorem Numbered.create_lt (h : registry.Numbered) (name : String) :
    (registry.create name).2 < (registry.create name).1.beacons.length := by
  rcases registry.create_cases name with ⟨hfound, heq⟩ | ⟨hnumber, heq⟩
  · rw [heq]
    exact h _ (Keyed.mem_of_get? hfound)
  · simp [hnumber, heq]

theorem castaways_create (registry : Registry C) (name : String) (number : Nat) :
    (registry.create name).1.castaways number = registry.castaways number := by
  rcases registry.create_cases name with ⟨-, heq⟩ | ⟨-, heq⟩
  · rw [heq]
  · simp only [heq, castaways]
    rcases Nat.lt_trichotomy number registry.beacons.length with hlt | rfl | hgt
    · rw [List.getElem?_append_left hlt]
    · simp
    · rw [List.getElem?_eq_none (by simp; omega), List.getElem?_eq_none (Nat.le_of_lt hgt)]

/-- The beacon made for a name is found by it. -/
theorem find?_create_self (registry : Registry C) (name : String) :
    (registry.create name).1.find? name = some (registry.create name).2 := by
  rcases registry.create_cases name with ⟨hfound, heq⟩ | ⟨hnumber, heq⟩
  · rw [heq, hfound]
  · rw [heq, hnumber, find?, Keyed.get?_set_self]

/-- Beacons of other names are found, or not, as before. -/
theorem find?_create_of_ne (registry : Registry C) {name other : String} (h : name ≠ other) :
    (registry.create name).1.find? other = registry.find? other := by
  rcases registry.create_cases name with ⟨-, heq⟩ | ⟨-, heq⟩
  · rw [heq]
  · rw [heq, find?, Keyed.get?_set_of_ne _ _ h, find?]

/-- What a name stands for it stands for when more beacons are made. -/
theorem find?_create_of_some {name other : String} (h : registry.find? other = some number) :
    (registry.create name).1.find? other = some number := by
  by_cases hname : name = other
  · subst hname
    rcases registry.create_cases name with ⟨-, heq⟩ | ⟨hnumber, heq⟩
    · rw [heq, h]
    · simp only [create, h] at heq ⊢
  · rw [registry.find?_create_of_ne hname, h]

/-- A beacon is found by its own name only. -/
def Named (registry : Registry C) : Prop :=
  ∀ name number, registry.find? name = some number →
    number < registry.beacons.length ∧ registry.nameOf number = name

theorem Named.of_grows (h : registry.Named) (hgrows : registry.Grows later)
    (hfind : ∀ name, later.find? name = registry.find? name) : later.Named := by
  intro name number hfound
  obtain ⟨hless, hname⟩ := h name number (hfind name ▸ hfound)
  exact ⟨Nat.lt_of_lt_of_le hless hgrows.size, (hgrows.name number hless).trans hname⟩

theorem Named.create (h : registry.Named) (name : String) : (registry.create name).1.Named := by
  rcases registry.create_cases name with ⟨-, heq⟩ | ⟨-, heq⟩
  · rw [heq]
    exact h
  · intro other number hfound
    by_cases hother : name = other
    · rw [heq, find?, hother, Keyed.get?_set_self, Option.some.injEq] at hfound
      rw [heq, ← hfound, ← hother]
      simp [nameOf]
    · rw [registry.find?_create_of_ne hother] at hfound
      obtain ⟨hless, hname⟩ := h other number hfound
      have hgrows := registry.create_grows name
      exact ⟨Nat.lt_of_lt_of_le hless hgrows.size, (hgrows.name number hless).trans hname⟩

/-- Two names do not stand for one beacon. -/
theorem Named.inj (h : registry.Named) {name other : String} (hname : registry.find? name = some number)
    (hother : registry.find? other = some number) : name = other :=
  (h name number hname).2.symm.trans (h other number hother).2

/-- Nobody is bound to a beacon that is only just made. -/
theorem castaways_create_new {name : String} (h : registry.find? name = none) :
    (registry.create name).1.castaways (registry.create name).2 = [] := by
  rw [castaways_create]
  rcases registry.create_cases name with ⟨hfound, -⟩ | ⟨hnumber, -⟩
  · rw [h] at hfound
    cases hfound
  · rw [hnumber, castaways, List.getElem?_eq_none (Nat.le_refl _)]
    rfl

/-- A castaway that is new to a beacon comes last there, and nowhere else. -/
theorem castaways_bind_new [DecidableEq C] (h : registry.Named) {name other : String}
    (hname : registry.find? name = some number) {castaway : C}
    (hnew : castaway ∉ registry.castaways number) {wanted : Nat}
    (hother : registry.find? other = some wanted) :
    (registry.bind number castaway).castaways wanted =
      registry.castaways wanted ++ if name = other then [castaway] else [] := by
  split
  · next heq =>
    obtain rfl := Option.some.inj ((heq ▸ hname).symm.trans hother)
    rw [Registry.bind, castaways_update (h name number hname).1, if_neg hnew]
  · next hne =>
    have hplaces : number ≠ wanted := by
      rintro rfl
      exact hne (h.inj hname hother)
    rw [Registry.bind, castaways_update_of_ne hplaces, List.append_nil]

/-- Binding adds nobody else. -/
theorem mem_castaways_bind [DecidableEq C] {castaway other : C} {wanted : Nat}
    (h : other ∈ (registry.bind number castaway).castaways wanted) :
    other = castaway ∨ other ∈ registry.castaways wanted := by
  by_cases hplace : number = wanted
  · subst hplace
    by_cases hless : number < registry.beacons.length
    · rw [Registry.bind, castaways_update hless] at h
      split at h
      · exact Or.inr h
      · exact (List.mem_append.mp h).symm.imp_left List.mem_singleton.mp
    · simp [castaways, Registry.bind, update, hless] at h
  · rw [Registry.bind, castaways_update_of_ne hplace] at h
    exact Or.inr h

end Patchbay.Registry
