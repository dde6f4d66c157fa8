import Patchbay.Patch.Basic
import Patchbay.Proofs.Attribute.Saving

/-!
# Attributes as they are declared

An attribute of truth values or of doubles is sound from its declaration on: its default has passed its
own limits. A sheet that attributes are added to under new names stays sound, and so does every box
start with a sound sheet.
-/

namespace Patchbay

namespace Attribute

/-- The zero of a kind is no NaN. -/
theorem isNaN_zero (kind : Kind) : ∀ atom ∈ kind.zero, atom.toDouble.isNaN = false := by
  cases kind with
  | enum items =>
    change ∀ atom ∈ [Atom.long 0], atom.toDouble.isNaN = false
    decide +kernel
  | bool | long | double | symbol | point | size | rect | color | list => decide +kernel

/-- An attribute that has just been declared is sound, and has no snapshot. -/
theorem sound_declare {kind : Kind} (hkind : kind = .bool ∨ kind.isNumeric = true)
    {default : List Atom} (hdefault : ∀ atom ∈ default, atom.toDouble.isNaN = false)
    (name : String) : (declare name kind default).Sound ∧ (declare name kind default).frozen? = none := by
  let blank : Attribute := { name, label := name, kind, value := kind.zero, default := [] }
  have hplain : blank.Plain := ⟨hkind, rfl, by simp [blank], by simp [blank], rfl⟩
  have hzero : blank.Settled kind.zero := by
    rcases hkind with hkind | hkind
    · subst hkind
      exact .truth rfl false
    · have hnumber : (0.0 : Float).isNaN = false := by decide +kernel
      have hzeros : blank.bound 0.0 = 0.0 → ∀ count, ∀ x ∈ List.replicate count (0.0 : Float),
          x.isNaN = false ∧ blank.bound x = x := by
        intro hbound count x hx
        obtain rfl := List.eq_of_mem_replicate hx
        exact ⟨hnumber, hbound⟩
      cases kind with
      | bool | long | symbol | enum | list => cases hkind
      | double => exact .numbers rfl [0.0] rfl (hzeros rfl 1)
      | point | size => exact .numbers rfl [0.0, 0.0] rfl (hzeros rfl 2)
      | rect => exact .numbers rfl [0.0, 0.0, 0.0, 0.0] rfl (hzeros rfl 4)
      | color =>
        refine .numbers rfl [0.0, 0.0, 0.0, 1.0] rfl ?_
        rw [bound_of_color rfl]
        decide +kernel
  have hconformed : blank.Settled ((blank.conform default).getD kind.zero) := by
    cases hconform : blank.conform default with
    | none => exact hzero
    | some value => exact hplain.settled_conform (isNaN_zero kind) hdefault hconform
  exact ⟨⟨hplain.congr rfl, hconformed.congr rfl, hconformed.congr rfl, by simp [declare]⟩, rfl⟩

/-- What a label, a category or a place is changed to does not matter. -/
theorem Sound.congr {attr other : Attribute} (h : attr.Sound) (houtline : other.outline = attr.outline)
    (hvalue : other.value = attr.value) (hdefault : other.default = attr.default)
    (hfrozen : other.frozen? = attr.frozen?) : other.Sound := by
  refine ⟨h.plain.congr houtline, ?_, ?_, fun snapshot hsnapshot => ?_⟩
  · rw [hvalue]
    exact h.value.congr houtline
  · rw [hdefault]
    exact h.default.congr houtline
  · exact (h.frozen snapshot (hfrozen ▸ hsnapshot)).congr houtline

/-- A lower limit that is a number keeps an attribute sound: the default is brought up to it. -/
theorem Sound.withMin {attr : Attribute} (h : attr.Sound) (hfresh : attr.frozen? = none)
    {least : Float} (hleast : least.isNaN = false) : (attr.withMin least).Sound := by
  let limited : Attribute := { attr with least? := some least }
  have hplain : limited.Plain :=
    ⟨h.plain.kind, h.plain.ratio, by simpa [limited] using hleast, h.plain.greatest, h.plain.saved⟩
  have hdefault : limited.Settled ((limited.conform attr.default).getD attr.default) := by
    generalize hvalue : attr.default = value
    have hsettled := h.default
    rw [hvalue] at hsettled
    cases hsettled with
    | truth hkind value =>
      have hbool : limited.kind = .bool := hkind
      have hconform : limited.conform [.bool value] = some [.bool value] := by
        simp only [conform, hbool]
        rfl
      rw [hconform]
      exact .truth hbool value
    | numbers hkind xs hlength hbound =>
      have hnumbers : ∀ x ∈ xs, (Atom.double x).isNumber = true ∧ (Atom.double x).toDouble = x :=
        fun _ _ => ⟨rfl, rfl⟩
      rw [hplain.conform_numbers hkind hlength hnumbers]
      exact hplain.settled_bound hkind xs hlength fun x hx => (hbound x hx).1
  refine ⟨hplain.congr rfl, hdefault.congr rfl, hdefault.congr rfl, ?_⟩
  intro snapshot hsnapshot
  have hsnapshot : attr.frozen? = some snapshot := hsnapshot
  rw [hfresh] at hsnapshot
  cases hsnapshot

end Attribute

namespace Sheet

/-- A sound sheet without snapshots, as a box has it when it is built. -/
structure Fresh (sheet : Sheet) : Prop where
  sound : sheet.Sound
  unfrozen : ∀ entry ∈ sheet, entry.2.frozen? = none

/-- Attributes added under new names stand behind the others. -/
theorem foldl_add {sheet : Sheet} {attributes : List Attribute}
    (h : (Keyed.keys sheet ++ attributes.map Attribute.name).Nodup) :
    attributes.foldl add sheet = sheet ++ attributes.map fun attr => (attr.name, attr) := by
  have hkeys : (Keyed.keys (sheet ++ attributes.map fun attr => (attr.name, attr))).Nodup := by
    simpa [Keyed.keys, Function.comp_def] using h
  rw [← Keyed.merge_of_nodup hkeys, Keyed.merge, List.foldl_map]
  rfl

/-- A sheet stays sound when attributes are added that are sound and have new names. -/
theorem Fresh.foldl_add {sheet : Sheet} (h : sheet.Fresh) {attributes : List Attribute}
    (hnames : (reservedKeys ++ (Keyed.keys sheet ++ attributes.map Attribute.name)).Nodup)
    (hattributes : ∀ attr ∈ attributes, attr.Sound ∧ attr.frozen? = none) :
    Fresh (attributes.foldl add sheet) := by
  rw [Sheet.foldl_add (List.nodup_append.mp hnames).2.1]
  have hentry : ∀ entry ∈ attributes.map (fun attr => (attr.name, attr)), entry.2.name = entry.1 ∧
      entry.2.Sound ∧ entry.2.frozen? = none := by
    intro entry hmem
    obtain ⟨attr, hattr, rfl⟩ := List.mem_map.mp hmem
    exact ⟨rfl, hattributes attr hattr⟩
  refine ⟨⟨?_, ?_, ?_⟩, ?_⟩
  · exact List.forall_mem_append.mpr ⟨h.sound.names, fun entry hmem => (hentry entry hmem).1⟩
  · simpa [Keyed.keys, Function.comp_def] using hnames
  · exact List.forall_mem_append.mpr ⟨h.sound.attributes, fun entry hmem => (hentry entry hmem).2.1⟩
  · exact List.forall_mem_append.mpr ⟨h.unfrozen, fun entry hmem => (hentry entry hmem).2.2⟩

/-- A sheet without attributes is sound. -/
theorem fresh_nil : Fresh [] := ⟨⟨by simp, by decide, by simp⟩, by simp⟩

end Sheet

namespace Box

/-- The names of the attributes of every box. -/
theorem keys_commonSheet : Keyed.keys commonSheet =
    ["position", "size", "color", "hidden", "presentation", "ignore_click"] := rfl

/-- The attributes of every box are sound. -/
theorem fresh_commonSheet : commonSheet.Fresh := by
  have hlook : ∀ (name : String) (kind : Kind) (default : List Float) (label : String) (order : Int),
      kind.isNumeric = true → (∀ x ∈ default, x.isNaN = false) →
      ((((Attribute.declare name kind (default.map (.double ·))).withLabel label).withCategory
        "Appearance").withOrder order).Sound := by
    intro name kind default label order hkind hdefault
    refine (Attribute.sound_declare (Or.inr hkind) ?_ name).1.congr rfl rfl rfl rfl
    intro atom hatom
    obtain ⟨x, hx, rfl⟩ := List.mem_map.mp hatom
    exact hdefault x hx
  have hhabit : ∀ (name label : String) (order : Int),
      ((((Attribute.declare name .bool [.bool false]).withLabel label).withCategory
        "Behavior").withOrder order).Sound := by
    intro name label order
    have hfalse : ∀ atom ∈ [Atom.bool false], atom.toDouble.isNaN = false := by decide +kernel
    exact (Attribute.sound_declare (Or.inl rfl) hfalse name).1.congr rfl rfl rfl rfl
  refine Sheet.fresh_nil.foldl_add (by decide) ?_
  simp only [List.mem_cons, List.not_mem_nil, or_false, forall_eq_or_imp, forall_eq]
  refine ⟨⟨hlook _ _ _ _ _ rfl (by decide +kernel), rfl⟩, ⟨?_, rfl⟩,
    ⟨hlook _ _ _ _ _ rfl (by decide +kernel), rfl⟩, ⟨hhabit _ _ _, rfl⟩, ⟨hhabit _ _ _, rfl⟩,
    hhabit _ _ _, rfl⟩
  exact (hlook _ _ _ _ _ rfl (by decide +kernel)).withMin rfl (by decide +kernel)

end Box

end Patchbay
