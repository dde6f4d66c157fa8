import Patchbay.Proofs.Attribute.Saving
import Patchbay.Proofs.Number.Whole

/-!
# Values that conform

What an attribute makes of atoms has the shape of its kind, and the attribute makes the same of it once
more, whatever the limits are: inverted, empty, infinite or no number. The declaration of an attribute
and every builder call end with a default that conforms.

For integers this rests on the order of doubles, since a limit is rounded toward the inside of the range
and a range may have no inside. An enumeration without items takes in nothing.
-/

namespace Patchbay

/-- A list of items whose places can be told by integers, as they can for every list that fits into
memory. -/
def Kind.Indexed : Kind → Prop
  | .enum items => items.length ≤ 2 ^ 63
  | _ => True

/-- The shape of the values of a kind: one truth value, integer or symbol, the place of an item, or as
many doubles as there are components. A list may be anything. -/
inductive Kind.Shape : Kind → List Atom → Prop
  | truth (value : Bool) : Shape .bool [.bool value]
  | whole (n : Int64) : Shape .long [.long n]
  | word (text : String) : Shape .symbol [.symbol text]
  | item (items : List String) (n : Int64) (hlow : 0 ≤ n.toInt) (hhigh : n.toInt < items.length) :
    Shape (.enum items) [.long n]
  | numbers {kind : Kind} (hkind : kind.isNumeric = true) (xs : List Float)
    (hlength : xs.length = kind.components) : Shape kind (xs.map (.double ·))
  | list (atoms : List Atom) : Shape .list atoms

namespace Attribute

/-! ### Integers within limits -/

/-- Bring an integer up to a lower limit. -/
def raiseLong (limit : Float) (n : Int64) : Int64 :=
  if Long.toDouble n < limit then Long.ofDouble Binary.ceil limit else n

/-- Bring an integer down to an upper limit. -/
def lowerLong (limit : Float) (n : Int64) : Int64 :=
  if Long.toDouble n > limit then Long.ofDouble Binary.floor limit else n

/-- An integer that has been brought up to a limit stays. -/
theorem raiseLong_raiseLong (limit : Float) (n : Int64) :
    raiseLong limit (raiseLong limit n) = raiseLong limit n := by
  by_cases h : Long.toDouble n < limit
  · have hraise : raiseLong limit n = Long.ofDouble Binary.ceil limit := if_pos h
    rw [hraise]
    exact ite_self _
  · have hraise : raiseLong limit n = n := if_neg h
    rw [hraise, hraise]

/-- An integer that has been brought down to a limit stays. -/
theorem lowerLong_lowerLong (limit : Float) (n : Int64) :
    lowerLong limit (lowerLong limit n) = lowerLong limit n := by
  by_cases h : Long.toDouble n > limit
  · have hlower : lowerLong limit n = Long.ofDouble Binary.floor limit := if_pos h
    rw [hlower]
    exact ite_self _
  · have hlower : lowerLong limit n = n := if_neg h
    rw [hlower, hlower]

/-- Nor does it leave the upper limit if it is brought up to the lower one once more. -/
theorem lowerLong_raiseLong_lowerLong_raiseLong (least greatest : Float) (n : Int64) :
    lowerLong greatest (raiseLong least (lowerLong greatest (raiseLong least n))) =
      lowerLong greatest (raiseLong least n) := by
  by_cases h : Long.toDouble (raiseLong least n) > greatest
  swap
  · have hlower : lowerLong greatest (raiseLong least n) = raiseLong least n := if_neg h
    rw [hlower, raiseLong_raiseLong, hlower]
  have hlower : lowerLong greatest (raiseLong least n) = Long.ofDouble Binary.floor greatest :=
    if_pos h
  rw [hlower]
  by_cases hleast : Long.toDouble (Long.ofDouble Binary.floor greatest) < least
  · -- The limits cross. The lower one takes the integer back above the upper one, or leaves it there.
    have hraise : raiseLong least (Long.ofDouble Binary.floor greatest) =
        Long.ofDouble Binary.ceil least := if_pos hleast
    rw [hraise]
    by_cases hgreatest : Long.toDouble (Long.ofDouble Binary.ceil least) > greatest
    · exact if_pos hgreatest
    · have hstays : lowerLong greatest (Long.ofDouble Binary.ceil least) =
          Long.ofDouble Binary.ceil least := if_neg hgreatest
      exact hstays.trans (Long.ceil_eq_floor (Double.isNaN_of_lt h) hleast hgreatest)
  · have hraise : raiseLong least (Long.ofDouble Binary.floor greatest) =
        Long.ofDouble Binary.floor greatest := if_neg hleast
    rw [hraise]
    exact ite_self _

/-- An integer within the limits of an attribute stays. -/
theorem clampLong_clampLong (attr : Attribute) (n : Int64) :
    attr.clampLong (attr.clampLong n) = attr.clampLong n := by
  unfold clampLong
  cases attr.least? with
  | none =>
    cases attr.greatest? with
    | none => rfl
    | some greatest => exact lowerLong_lowerLong greatest n
  | some least =>
    cases attr.greatest? with
    | none => exact raiseLong_raiseLong least n
    | some greatest => exact lowerLong_raiseLong_lowerLong_raiseLong least greatest n

/-! ### Doubles within limits -/

variable {attr other : Attribute} {atoms value : List Atom}

/-- Tying leaves the number of components as it is. -/
theorem length_tie (xs : List Float) : (attr.tie xs).length = xs.length := by
  unfold tie
  split <;> rfl

/-- So does an attribute. -/
theorem length_fit (xs : List Float) : (attr.fit xs).length = xs.length := by
  rw [fit, length_tie, List.length_map]

/-- Doubles that an attribute has made stay as they are. -/
theorem fit_fit (xs : List Float) : attr.fit (attr.fit xs) = attr.fit xs := by
  have hbound : ∀ ys : List Float, (ys.map attr.bound).map attr.bound = ys.map attr.bound := by
    intro ys
    rw [List.map_map]
    exact List.map_congr_left fun y _ => attr.bound_bound y
  by_cases htied : ∃ ratio width height, attr.kind = .size ∧ attr.ratio? = some ratio ∧
      xs = [width, height]
  · obtain ⟨ratio, width, height, hkind, hratio, rfl⟩ := htied
    have hclamp : attr.bound = attr.clamp := bound_of_ne_color (by simp [hkind])
    simp only [fit, tie, hkind, hratio, hclamp, List.map_cons, List.map_nil, clamp_clamp]
  · have hloose : ∀ ys : List Float, ys.length = xs.length → attr.tie ys = ys := by
      intro ys hlength
      unfold tie
      split
      · next ratio width height hkind hratio =>
        obtain ⟨first, second, rfl⟩ := List.length_eq_two.mp hlength.symm
        exact absurd ⟨ratio, first, second, hkind, hratio, rfl⟩ htied
      · rfl
    have hfit : attr.fit xs = xs.map attr.bound := hloose _ (by simp)
    rw [hfit, fit, hbound, hloose _ (by simp)]

/-- What an attribute of doubles takes in are as many doubles as its kind has components. -/
theorem exists_of_conform (hkind : attr.kind.isNumeric = true)
    (h : attr.conform atoms = some value) :
    ∃ xs : List Float, xs.length = attr.kind.components ∧ value = (attr.fit xs).map (.double ·) := by
  have hloose : attr.kind ≠ .size → attr.kind ≠ .color → attr.fit = List.map attr.clamp := by
    intro hsize hcolor
    funext xs
    rw [fit, tie_of_ne_size hsize, bound_of_ne_color hcolor]
  cases hkind' : attr.kind with
  | bool | long | symbol | enum | list =>
    rw [hkind'] at hkind
    cases hkind
  | double =>
    simp only [conform, hkind', Option.map_eq_some_iff] at h
    obtain ⟨atom, -, rfl⟩ := h
    refine ⟨[atom.toDouble], rfl, ?_⟩
    rw [hloose (by simp [hkind']) (by simp [hkind'])]
    rfl
  | point | rect =>
    simp only [conform, hkind', Option.map_eq_some_iff] at h
    obtain ⟨xs, hxs, rfl⟩ := h
    obtain ⟨ys, hlength, rfl, -⟩ := exists_of_components? hxs
    rw [hkind'] at hlength
    exact ⟨ys, hlength, by rw [hloose (by simp [hkind']) (by simp [hkind'])]⟩
  | size =>
    rw [conform_size hkind', Option.map_eq_some_iff] at h
    obtain ⟨xs, hxs, rfl⟩ := h
    obtain ⟨ys, hlength, rfl, -⟩ := exists_of_components? hxs
    rw [hkind'] at hlength
    exact ⟨ys, hlength, by rw [fit, bound_of_ne_color (by simp [hkind'])]⟩
  | color =>
    simp only [conform, hkind'] at h
    split at h
    · next red green blue rest hleading =>
      obtain rfl := Option.some.inj h
      refine ⟨[red, green, blue, rest.head?.getD 1.0], rfl, ?_⟩
      rw [fit, tie_of_ne_size (by simp [hkind']), bound_of_color hkind']
      rfl
    · cases h

/-! ### Places of items -/

/-- The place that an atom selects is the place of an item. -/
theorem lt_of_itemIndex? {items : List String} {atom : Atom} {index : Nat}
    (h : itemIndex? items atom = some index) : index < items.length := by
  have hnumber : (if atom.isNumber && !items.isEmpty then
      some (min atom.toLong.toInt.toNat (items.length - 1)) else none) = some index →
        index < items.length := by
    intro h
    split at h
    · next hsome =>
      obtain rfl := Option.some.inj h
      have hpos : 0 < items.length := by
        rw [Bool.and_eq_true, Bool.not_eq_true'] at hsome
        exact List.length_pos_iff.mpr (List.isEmpty_eq_false_iff.mp hsome.2)
      omega
    · cases h
  cases atom with
  | symbol text =>
    simp only [itemIndex?] at h
    split at h
    · next hmem =>
      obtain rfl := Option.some.inj h
      exact List.idxOf_lt_length_of_mem (List.contains_iff_mem.mp hmem)
    · cases h
  | _ => exact hnumber h

/-- The place of an item is selected by its integer. -/
theorem itemIndex?_long {items : List String} {n : Int64} (hlow : 0 ≤ n.toInt)
    (hhigh : n.toInt < items.length) : itemIndex? items (.long n) = some n.toInt.toNat := by
  have hsome : items.isEmpty = false := by
    rw [List.isEmpty_eq_false_iff, ← List.length_pos_iff]
    omega
  simp only [itemIndex?, Atom.isNumber, hsome, Bool.not_false, Bool.and_true, if_true, Atom.toLong,
    Option.some.injEq]
  omega

/-- The integer of the place of an item. -/
theorem toInt_ofNat_index {items : List String} (hindexed : items.length ≤ 2 ^ 63) {index : Nat}
    (h : index < items.length) : (Int64.ofNat index).toInt = index := by
  rw [Int64.toInt_ofNat_of_lt (by omega)]

/-! ### Values taken in -/

/-- The kind and the limits of an attribute. -/
def scope (attr : Attribute) : Kind × Option Float × Option Float × Option Float :=
  (attr.kind, attr.least?, attr.greatest?, attr.ratio?)

/-- What an attribute takes in has the shape of its kind. -/
theorem shape_conform (hindexed : attr.kind.Indexed) (h : attr.conform atoms = some value) :
    attr.kind.Shape value := by
  by_cases hnumeric : attr.kind.isNumeric = true
  · obtain ⟨xs, hlength, rfl⟩ := exists_of_conform hnumeric h
    exact .numbers hnumeric _ (by rw [length_fit, hlength])
  cases hkind : attr.kind with
  | double | point | size | rect | color => exact absurd (by rw [hkind]; rfl) hnumeric
  | list => exact .list value
  | bool =>
    simp only [conform, hkind, Option.map_eq_some_iff] at h
    obtain ⟨atom, -, rfl⟩ := h
    exact .truth _
  | long =>
    simp only [conform, hkind, Option.map_eq_some_iff] at h
    obtain ⟨atom, -, rfl⟩ := h
    exact .whole _
  | symbol =>
    simp only [conform, hkind, Option.map_eq_some_iff] at h
    obtain ⟨atom, -, rfl⟩ := h
    cases atom <;> exact .word _
  | enum items =>
    simp only [conform, hkind, Option.map_eq_some_iff, Option.bind_eq_some_iff] at h
    obtain ⟨index, ⟨atom, -, hindex⟩, rfl⟩ := h
    rw [hkind] at hindexed
    have hinside := lt_of_itemIndex? hindex
    have hinteger := toInt_ofNat_index hindexed hinside
    exact .item items _ (by omega) (by omega)

/-- What an attribute has taken in is taken in again as it is. -/
theorem conform_conform (hindexed : attr.kind.Indexed) (h : attr.conform atoms = some value) :
    attr.conform value = some value := by
  by_cases hnumeric : attr.kind.isNumeric = true
  · obtain ⟨xs, hlength, rfl⟩ := exists_of_conform hnumeric h
    rw [conform_numbers hnumeric (by rw [length_fit, hlength]) fun _ _ => ⟨rfl, rfl⟩, fit_fit]
  cases hkind : attr.kind with
  | double | point | size | rect | color => exact absurd (by rw [hkind]; rfl) hnumeric
  | list => simp only [conform, hkind]
  | bool =>
    simp only [conform, hkind, Option.map_eq_some_iff] at h ⊢
    obtain ⟨atom, -, rfl⟩ := h
    exact ⟨_, rfl, rfl⟩
  | long =>
    simp only [conform, hkind, Option.map_eq_some_iff] at h ⊢
    obtain ⟨atom, -, rfl⟩ := h
    exact ⟨_, rfl, by rw [Atom.toLong, clampLong_clampLong]⟩
  | symbol =>
    simp only [conform, hkind, Option.map_eq_some_iff] at h ⊢
    obtain ⟨atom, -, rfl⟩ := h
    cases atom <;> exact ⟨_, rfl, rfl⟩
  | enum items =>
    simp only [conform, hkind, Option.map_eq_some_iff, Option.bind_eq_some_iff] at h ⊢
    obtain ⟨index, ⟨atom, -, hindex⟩, rfl⟩ := h
    rw [hkind] at hindexed
    have hinside := lt_of_itemIndex? hindex
    have hinteger := toInt_ofNat_index hindexed hinside
    refine ⟨index, ⟨_, rfl, ?_⟩, rfl⟩
    rw [itemIndex?_long (by omega) (by omega), hinteger, Int.toNat_natCast]

/-- A value of the shape of its kind is taken in. -/
theorem exists_conform (hshape : attr.kind.Shape value) : ∃ taken, attr.conform value = some taken := by
  generalize hkind : attr.kind = kind at hshape
  cases hshape with
  | numbers hnumeric xs hlength =>
    exact ⟨_, conform_numbers (hkind ▸ hnumeric) (hkind ▸ hlength) fun _ _ => ⟨rfl, rfl⟩⟩
  | item items n hlow hhigh =>
    simp only [conform, hkind, List.head?_cons, Option.bind_some, itemIndex?_long hlow hhigh]
    exact ⟨_, rfl⟩
  | truth | whole | word | list =>
    simp only [conform, hkind]
    exact ⟨_, rfl⟩

/-- A value of the shape of its kind is taken in alike by attributes of the same limits, whatever they
hold. -/
theorem conform_congr (hscope : other.scope = attr.scope) (hshape : attr.kind.Shape value) :
    other.conform value = attr.conform value := by
  simp only [scope, Prod.mk.injEq] at hscope
  obtain ⟨hkindEq, hleast, hgreatest, hratio⟩ := hscope
  have hclamp : other.clamp = attr.clamp := by
    funext x
    simp only [clamp, hleast, hgreatest]
  have hbound : other.bound = attr.bound := by
    funext x
    simp only [bound, hclamp, hkindEq]
  have hfit : other.fit = attr.fit := by
    funext xs
    simp only [fit, tie, hbound, hclamp, hkindEq, hratio]
  generalize hkind : attr.kind = kind at hshape
  rw [hkind] at hkindEq
  cases hshape with
  | numbers hnumeric xs hlength =>
    rw [conform_numbers (hkindEq ▸ hnumeric) (hkindEq ▸ hlength) fun _ _ => ⟨rfl, rfl⟩,
      conform_numbers (hkind ▸ hnumeric) (hkind ▸ hlength) fun _ _ => ⟨rfl, rfl⟩, hfit]
  | whole n => simp only [conform, hkind, hkindEq, clampLong, hleast, hgreatest]
  | truth | word | item | list => simp only [conform, hkind, hkindEq]

/-- The value has the shape of the kind, and the attribute takes it in as it is. -/
structure Stays (attr : Attribute) (value : List Atom) : Prop where
  shape : attr.kind.Shape value
  conform : attr.conform value = some value

/-- What an attribute has taken in stays. -/
theorem stays_conform (hindexed : attr.kind.Indexed) (h : attr.conform atoms = some value) :
    attr.Stays value := ⟨shape_conform hindexed h, conform_conform hindexed h⟩

/-- Which values stay depends on the kind and the limits only. -/
theorem Stays.congr (h : attr.Stays value) (hscope : other.scope = attr.scope) : other.Stays value where
  shape := by
    rw [show other.kind = attr.kind from congrArg Prod.fst hscope]
    exact h.shape
  conform := (conform_congr hscope h.shape).trans h.conform

/-! ### Declarations -/

/-- What an attribute is before anything is known about it, its value being that of its kind. -/
def blank (name : String) (kind : Kind) : Attribute :=
  { name, label := name, kind, value := kind.zero, default := [] }

/-- The value of a kind is one that attributes of the kind take in, unless there are no items. -/
theorem stays_zero (name : String) {kind : Kind} (hkind : kind ≠ .enum []) :
    (blank name kind).Stays kind.zero := by
  have hself : ∀ (hnumeric : kind.isNumeric = true) (xs : List Float),
      xs.length = kind.components → (blank name kind).fit xs = xs → kind.zero = xs.map (.double ·) →
        (blank name kind).Stays kind.zero := by
    intro hnumeric xs hlength hfit hzero
    rw [hzero]
    refine ⟨.numbers hnumeric xs hlength, ?_⟩
    rw [conform_numbers hnumeric hlength fun _ _ => ⟨rfl, rfl⟩, hfit]
  cases kind with
  | bool => exact ⟨.truth false, rfl⟩
  | long => exact ⟨.whole 0, rfl⟩
  | symbol => exact ⟨.word "", rfl⟩
  | list => exact ⟨.list [], rfl⟩
  | double => exact hself rfl [0.0] rfl rfl rfl
  | point => exact hself rfl [0.0, 0.0] rfl rfl rfl
  | size => exact hself rfl [0.0, 0.0] rfl rfl rfl
  | rect => exact hself rfl [0.0, 0.0, 0.0, 0.0] rfl rfl rfl
  | color =>
    refine hself rfl [0.0, 0.0, 0.0, 1.0] rfl ?_ rfl
    rw [fit, tie_of_ne_size (by simp [blank]), bound_of_color rfl]
    decide +kernel
  | enum items =>
    cases items with
    | nil => exact absurd rfl hkind
    | cons item items => exact ⟨.item _ 0 (by decide) (by simp), rfl⟩

/-- The values that an attribute holds stay. An enumeration without items has none that could. -/
structure Orderly (attr : Attribute) : Prop where
  indexed : attr.kind.Indexed
  value : attr.kind ≠ .enum [] → attr.Stays attr.value
  default : attr.kind ≠ .enum [] → attr.Stays attr.default
  frozen : attr.kind ≠ .enum [] → ∀ snapshot, attr.frozen? = some snapshot → attr.Stays snapshot

/-- What an attribute holds: its value, its default and, if there is one, its snapshot. -/
def holdings (attr : Attribute) : List (List Atom) :=
  attr.value :: attr.default :: attr.frozen?.toList

/-- What an orderly attribute holds stays. -/
theorem Orderly.stays (h : attr.Orderly) (hitems : attr.kind ≠ .enum []) {held : List Atom}
    (hheld : held ∈ attr.holdings) :
    attr.Stays held := by
  rcases List.mem_cons.mp hheld with rfl | hheld
  · exact h.value hitems
  rcases List.mem_cons.mp hheld with rfl | hheld
  · exact h.default hitems
  · exact h.frozen hitems held (Option.mem_toList.mp hheld)

/-- A declared attribute is orderly. -/
theorem orderly_declare (name : String) {kind : Kind} (hindexed : kind.Indexed)
    (default : List Atom) : (declare name kind default).Orderly := by
  have hconformed : kind ≠ .enum [] →
      (blank name kind).Stays (((blank name kind).conform default).getD kind.zero) := by
    intro hkind
    cases hconform : (blank name kind).conform default with
    | none => exact stays_zero name hkind
    | some value => exact stays_conform hindexed hconform
  exact ⟨hindexed, fun hkind => (hconformed hkind).congr rfl, fun hkind => (hconformed hkind).congr rfl,
    fun _ _ hsnapshot => by cases hsnapshot⟩

/-- An attribute is orderly if it holds what an orderly one of its kind and limits holds. -/
theorem Orderly.congr (h : attr.Orderly) (hscope : other.scope = attr.scope)
    (hvalue : other.value = attr.value) (hdefault : other.default = attr.default)
    (hfrozen : other.frozen? = attr.frozen?) : other.Orderly := by
  have hkind : other.kind = attr.kind := congrArg Prod.fst hscope
  refine ⟨hkind ▸ h.indexed, fun hitems => ?_, fun hitems => ?_, fun hitems snapshot hsnapshot => ?_⟩
  · exact hvalue ▸ (h.value (hkind ▸ hitems)).congr hscope
  · exact hdefault ▸ (h.default (hkind ▸ hitems)).congr hscope
  · exact (h.frozen (hkind ▸ hitems) snapshot (hfrozen ▸ hsnapshot)).congr hscope

/-- Going back to a default that is conformed to other limits makes an attribute orderly. -/
theorem orderly_redefault (h : attr.Orderly) (hkind : other.kind = attr.kind)
    (hdefault : other.default = attr.default) (hfrozen : other.frozen? = none) :
    other.redefault.Orderly := by
  have hconformed : other.kind ≠ .enum [] →
      other.Stays ((other.conform other.default).getD other.default) := by
    intro hitems
    have hshape : other.kind.Shape attr.default := hkind ▸ (h.default (hkind ▸ hitems)).shape
    obtain ⟨taken, htaken⟩ := exists_conform hshape
    rw [hdefault, htaken]
    exact stays_conform (hkind ▸ h.indexed) htaken
  refine ⟨hkind ▸ h.indexed, fun hitems => (hconformed hitems).congr rfl,
    fun hitems => (hconformed hitems).congr rfl, fun _ snapshot hsnapshot => ?_⟩
  rw [show other.redefault.frozen? = other.frozen? from rfl, hfrozen] at hsnapshot
  cases hsnapshot

/-- What a declaration may add. -/
inductive Trait where
  | label (label : String)
  | category (category : String)
  | order (order : Int)
  | range (least greatest : Float)
  | min (least : Float)
  | ratio (ratio : Float)
  | flags (flags : Flags)

/-- Add a trait. -/
def endow (attr : Attribute) : Trait → Attribute
  | .label label => attr.withLabel label
  | .category category => attr.withCategory category
  | .order order => attr.withOrder order
  | .range least greatest => attr.withRange least greatest
  | .min least => attr.withMin least
  | .ratio ratio => attr.withRatio ratio
  | .flags flags => attr.withFlags flags

/-- A trait leaves an attribute orderly that has no snapshot yet. -/
theorem Orderly.endow (h : attr.Orderly) (hfresh : attr.frozen? = none) (trait : Trait) :
    (attr.endow trait).Orderly := by
  cases trait with
  | label | category | order | flags => exact h.congr rfl rfl rfl rfl
  | range | min | ratio => exact orderly_redefault h rfl rfl hfresh

end Attribute

/-- What an attribute is declared with. -/
structure Declaration where
  name : String
  kind : Kind
  indexed : kind.Indexed
  default : List Atom := []
  traits : List Attribute.Trait := []

namespace Declaration

/-- The declared attribute. -/
def declared (declaration : Declaration) : Attribute :=
  declaration.traits.foldl Attribute.endow
    (Attribute.declare declaration.name declaration.kind declaration.default)

/-- A declared attribute has its name and its kind, and it holds its default without a snapshot. -/
structure Fresh (declaration : Declaration) (attr : Attribute) : Prop where
  name : attr.name = declaration.name
  kind : attr.kind = declaration.kind
  value : attr.value = attr.default
  frozen : attr.frozen? = none

variable {declaration : Declaration} {attr : Attribute}

/-- No trait changes that. -/
theorem Fresh.endow (h : declaration.Fresh attr) (trait : Attribute.Trait) :
    declaration.Fresh (attr.endow trait) := by
  cases trait with
  | label | category | order | flags => exact ⟨h.name, h.kind, h.value, h.frozen⟩
  | range | min | ratio => exact ⟨h.name, h.kind, rfl, h.frozen⟩

/-- The declared attribute is as it was declared, and orderly. -/
theorem fresh_declared (declaration : Declaration) :
    declaration.Fresh declaration.declared ∧ declaration.declared.Orderly := by
  have hfold : ∀ (traits : List Attribute.Trait) {attr : Attribute}, declaration.Fresh attr →
      attr.Orderly → declaration.Fresh (traits.foldl Attribute.endow attr) ∧
        (traits.foldl Attribute.endow attr).Orderly := by
    intro traits
    induction traits with
    | nil => exact fun hfresh horderly => ⟨hfresh, horderly⟩
    | cons trait traits ih =>
      exact fun hfresh horderly => ih (hfresh.endow trait) (horderly.endow hfresh.frozen trait)
  exact hfold declaration.traits ⟨rfl, rfl, rfl, rfl⟩
    (Attribute.orderly_declare declaration.name declaration.indexed declaration.default)

end Declaration

namespace Attribute

variable {attr : Attribute}

/-! ### Values stored and kept -/

/-- An attribute that accepts atoms stays orderly. -/
theorem Orderly.accept (h : attr.Orderly) (atoms : List Atom) : (attr.accept atoms).Orderly := by
  unfold Attribute.accept
  split
  · next value hvalue =>
    split
    · exact h
    · have hstays := stays_conform h.indexed hvalue
      exact ⟨h.indexed, fun _ => hstays.congr rfl, fun hitems => (h.default hitems).congr rfl,
        fun hitems snapshot hsnapshot => (h.frozen hitems snapshot hsnapshot).congr rfl⟩
  · exact h

/-- So does one that keeps a snapshot, or forgets it. -/
theorem Orderly.freeze (h : attr.Orderly) (on : Bool) : (attr.freeze on).Orderly := by
  refine ⟨h.indexed, fun hitems => (h.value hitems).congr rfl, fun hitems => (h.default hitems).congr rfl,
    fun hitems snapshot hsnapshot => ?_⟩
  cases on with
  | false => cases hsnapshot
  | true =>
    obtain rfl := Option.some.inj hsnapshot
    exact (h.value hitems).congr rfl

end Attribute

end Patchbay
