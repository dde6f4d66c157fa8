import Patchbay.Proofs.Attribute.Reading
import Patchbay.Proofs.Attribute.Setting

/-!
# Sheets that requests have made

Whatever is asked of a sheet, its attributes stand under their names, of which no two are the same, and
hold values that stay. An enumeration without items, which takes nothing in, holds the zero it began with.

What a sheet loads from a dico and what it saves into one is told name by name. So it does not matter in
which order the attributes of two sheets were declared.
-/

namespace Patchbay

namespace Attribute

variable {attr other : Attribute} {atoms : List Atom}

/-! ### Enumerations without items -/

/-- An enumeration without items holds the zero of its kind only. -/
def Idle (attr : Attribute) : Prop := attr.kind = .enum [] → ∀ held ∈ attr.holdings, held = [.long 0]

/-- Such an enumeration takes nothing in. -/
theorem conform_of_enum_nil (hkind : attr.kind = .enum []) (atoms : List Atom) :
    attr.conform atoms = none := by
  have hindex : ∀ atom, itemIndex? [] atom = none := by
    intro atom
    cases atom <;> simp [itemIndex?]
  simp only [conform, hkind, Option.map_eq_none_iff, Option.bind_eq_none_iff]
  exact fun atom _ => hindex atom

/-- So it stays as it is. -/
theorem accept_of_enum_nil (hkind : attr.kind = .enum []) (atoms : List Atom) :
    attr.accept atoms = attr := by
  rw [accept, conform_of_enum_nil hkind]

/-- It stays idle if it comes to hold nothing new. -/
theorem Idle.of_subset (h : attr.Idle) (hkind : other.kind = attr.kind)
    (hheld : attr.kind = .enum [] → other.holdings ⊆ attr.holdings) : other.Idle :=
  fun hitems held hmem => h (hkind ▸ hitems) held (hheld (hkind ▸ hitems) hmem)

/-- It does when it accepts atoms. -/
theorem Idle.accept (h : attr.Idle) (atoms : List Atom) : (attr.accept atoms).Idle := by
  refine h.of_subset (congrArg Outline.kind (attr.outline_accept atoms)) fun hkind => ?_
  rw [accept_of_enum_nil hkind]
  exact List.Subset.refl _

/-- It does when it keeps a snapshot, or forgets it. -/
theorem Idle.freeze (h : attr.Idle) (on : Bool) : (attr.freeze on).Idle := by
  refine h.of_subset rfl fun _ => ?_
  cases on <;> simp [holdings, Attribute.freeze]

/-- It does when its declaration goes on. -/
theorem Idle.endow (h : attr.Idle) (trait : Trait) : (attr.endow trait).Idle := by
  have hlimits : ∀ other : Attribute, other.kind = attr.kind → other.default = attr.default →
      other.frozen? = attr.frozen? → other.redefault.Idle := by
    intro other hkind hdefault hfrozen
    refine h.of_subset hkind fun hitems => ?_
    simp [holdings, redefault, conform_of_enum_nil (hkind.trans hitems), hdefault, hfrozen]
  cases trait with
  | label | category | order | flags => exact h
  | range | min | ratio => exact hlimits _ rfl rfl rfl

end Attribute

/-- A declared attribute is idle if it is an enumeration without items. -/
theorem Declaration.idle_declared (declaration : Declaration) : declaration.declared.Idle := by
  have hfold : ∀ (traits : List Attribute.Trait) {attr : Attribute}, attr.Idle →
      (traits.foldl Attribute.endow attr).Idle := by
    intro traits
    induction traits with
    | nil => exact fun h => h
    | cons trait traits ih => exact fun h => ih (h.endow trait)
  apply hfold
  intro hkind held hheld
  have hitems : declaration.kind = .enum [] := hkind
  have hblank : (Attribute.blank declaration.name declaration.kind).kind = .enum [] := hkind
  have hconformed : ((Attribute.blank declaration.name declaration.kind).conform
      declaration.default).getD declaration.kind.zero = [.long 0] := by
    rw [Attribute.conform_of_enum_nil hblank, Option.getD_none, hitems]
    rfl
  rw [← hconformed]
  rcases List.mem_cons.mp hheld with rfl | hheld
  · rfl
  · exact List.mem_singleton.mp hheld

namespace Sheet

/-- The attributes stand under their names, of which no two are the same, and hold values that stay. -/
structure Regular (sheet : Sheet) : Prop where
  names : ∀ entry ∈ sheet, entry.2.name = entry.1
  distinct : (Keyed.keys sheet).Nodup
  attributes : ∀ entry ∈ sheet, entry.2.Orderly ∧ entry.2.Idle

variable {sheet other later : Sheet} {attr : Attribute} {name : String}

/-- A sheet stays regular if one attribute changes but for its outline. -/
theorem Regular.modify (h : sheet.Regular) (name : String) {change : Attribute → Attribute}
    (houtline : ∀ attr, (change attr).outline = attr.outline)
    (hchange : ∀ attr, attr.Orderly ∧ attr.Idle → (change attr).Orderly ∧ (change attr).Idle) :
    Regular (Keyed.modify sheet name change) := by
  have hsame := outline_modify sheet name houtline
  refine ⟨names_of_outline hsame h.names, by rw [keys_eq_of_outline hsame]; exact h.distinct, ?_⟩
  intro entry hentry
  rcases Keyed.mem_modify hentry with hmem | ⟨old, hold, heq⟩
  · exact h.attributes entry hmem
  · rw [heq]
    exact hchange old (h.attributes _ hold)

/-- An attribute may be put in under its name. -/
theorem Regular.set (h : sheet.Regular) (hattr : attr.Orderly ∧ attr.Idle) (hname : attr.name = name) :
    Regular (Keyed.set sheet name attr) := by
  refine ⟨fun entry hentry => ?_, Keyed.nodup_set h.distinct name attr, fun entry hentry => ?_⟩
  · rcases Keyed.mem_set hentry with hmem | rfl
    · exact h.names entry hmem
    · exact hname
  · rcases Keyed.mem_set hentry with hmem | rfl
    · exact h.attributes entry hmem
    · exact hattr

/-- It may be taken away. -/
theorem Regular.erase (h : sheet.Regular) (name : String) : Regular (Keyed.erase sheet name) :=
  ⟨fun entry hentry => h.names entry (Keyed.mem_erase hentry), Keyed.nodup_erase h.distinct name,
    fun entry hentry => h.attributes entry (Keyed.mem_erase hentry)⟩

/-- A sheet stays regular when a value is stored. -/
theorem Regular.store? (h : sheet.Regular) {atoms : List Atom} {force : Bool}
    (hstore : sheet.store? name atoms force = some later) : later.Regular := by
  obtain rfl := store?_eq_some hstore
  exact h.modify name (fun attr => attr.outline_accept atoms)
    fun attr hattr => ⟨hattr.1.accept atoms, hattr.2.accept atoms⟩

/-- It does when a snapshot is kept or forgotten. -/
theorem Regular.freeze (h : sheet.Regular) (name : String) (on : Bool) : (sheet.freeze name on).Regular := by
  rw [freeze_eq_modify]
  exact h.modify name (fun _ => rfl) fun attr hattr => ⟨hattr.1.freeze on, hattr.2.freeze on⟩

/-- It does when flags are set or cleared. -/
theorem Regular.setFlags? (h : sheet.Regular) {flags : Flags} {on : Bool}
    (hset : sheet.setFlags? name flags on = some later) : later.Regular := by
  obtain ⟨attr, updated, hattr, rfl⟩ := setFlags?_eq_some hset
  have hmem := Keyed.mem_of_get? hattr
  obtain ⟨horderly, hidle⟩ := h.attributes _ hmem
  have hupdated : ({ attr with flags := updated } : Attribute).Orderly := horderly.congr rfl rfl rfl rfl
  exact h.set ⟨hupdated, hidle⟩ (h.names _ hmem)

/-- A sheet without attributes is regular. -/
theorem regular_nil : Regular [] := ⟨by simp, by simp [Keyed.keys], by simp⟩

end Sheet

namespace Watch

variable {L : Type} [DecidableEq L] {react : Reactions L} {watch later : Watch L}

/-- Every step keeps a sheet regular. -/
theorem Step.regular {step : Step L} (h : watch.sheet.Regular) (hrun : step.run react watch = some later) :
    later.sheet.Regular := by
  refine Step.keeps (fun h hstore => h.store? hstore) ?_ ?_ ?_ ?_ h hrun
  · intro declaration _ sheet hsheet
    exact hsheet.set ⟨declaration.fresh_declared.2, declaration.idle_declared⟩ rfl
  · exact fun name _ sheet hsheet => hsheet.erase name
  · exact fun name flags on _ sheet later hsheet hset => hsheet.setFlags? hset
  · exact fun sheet name on hsheet => hsheet.freeze name on

/-- So a sheet is regular whatever was asked of it. -/
theorem regular_of_runAll {steps : List (Step L)} (hrun : runAll react steps {} = some watch) :
    watch.sheet.Regular :=
  of_foldlM (P := fun watch : Watch L => watch.sheet.Regular)
    (fun _ _ _ _ h hrun => Step.regular h hrun) Sheet.regular_nil hrun

end Watch

end Patchbay
