import Patchbay.Attribute.Sheet
import Patchbay.Proofs.Dico.Inline

/-!
# Settled values

What an attribute of truth values or of doubles has taken in once is taken in again as it is: limits
that have been applied leave a number alone, and a value written down with its numerals comes back from
them. No order of doubles is used for this. Where the two limits of an attribute cross, a number ends at
the upper one and stays there.
-/

namespace Patchbay

/-- Decide whether an atom, if it is a double, is read back from its numeral. -/
def Atom.readsBack : Atom → Bool
  | .double x _ => decide (Numeral.ReadsBack x)
  | _ => true

/-- Decide whether the values of a kind are a fixed number of doubles. -/
def Kind.isNumeric : Kind → Bool
  | .double | .point | .size | .rect | .color => true
  | _ => false

namespace Attribute

/-! ### Limits -/

/-- A number that has been brought up to a limit stays. -/
theorem raise_raise (limit x : Float) : raise limit (raise limit x) = raise limit x := by
  by_cases h : (limit.isNaN || decide (x > limit)) = true
  · have hraise : raise limit x = x := if_pos h
    rw [hraise, hraise]
  · have hraise : raise limit x = limit := if_neg h
    rw [hraise]
    exact ite_self limit

/-- A number that has been brought down to a limit stays. -/
theorem lower_lower (limit x : Float) : lower limit (lower limit x) = lower limit x := by
  by_cases h : (limit.isNaN || decide (x < limit)) = true
  · have hlower : lower limit x = x := if_pos h
    rw [hlower, hlower]
  · have hlower : lower limit x = limit := if_neg h
    rw [hlower]
    exact ite_self limit

/-- Nor does it leave the upper limit if it is brought up to the lower one once more. -/
theorem lower_raise_lower_raise (least greatest x : Float) :
    lower greatest (raise least (lower greatest (raise least x))) =
      lower greatest (raise least x) := by
  by_cases h : (greatest.isNaN || decide (raise least x < greatest)) = true
  · have hlower : lower greatest (raise least x) = raise least x := if_pos h
    rw [hlower, raise_raise, hlower]
  · have hlower : lower greatest (raise least x) = greatest := if_neg h
    have hself : lower greatest greatest = greatest := ite_self greatest
    rw [hlower]
    by_cases hgreatest : (least.isNaN || decide (greatest > least)) = true
    · have hraise : raise least greatest = greatest := if_pos hgreatest
      rw [hraise, hself]
    · -- The lower limit is not below the upper one.
      have hraise : raise least greatest = least := if_neg hgreatest
      rw [Bool.or_eq_true, not_or] at h hgreatest
      have hleast : lower greatest least = greatest := by
        refine if_neg ?_
        rw [Bool.or_eq_true, not_or]
        exact ⟨h.1, hgreatest.2⟩
      rw [hraise, hleast]

/-- A number within the limits of an attribute stays. -/
theorem clamp_clamp (attr : Attribute) (x : Float) : attr.clamp (attr.clamp x) = attr.clamp x := by
  unfold clamp
  cases attr.least? with
  | none =>
    cases attr.greatest? with
    | none => rfl
    | some greatest => exact lower_lower greatest x
  | some least =>
    cases attr.greatest? with
    | none => exact raise_raise least x
    | some greatest => exact lower_raise_lower_raise least greatest x

/-- A component of a color stays. -/
theorem clampUnit_clampUnit (x : Float) : clampUnit (clampUnit x) = clampUnit x := by
  have hzero : clampUnit 0.0 = 0.0 := by decide +kernel
  have hone : clampUnit 1.0 = 1.0 := by decide +kernel
  by_cases hlow : x < 0.0
  · have hclamp : clampUnit x = clampUnit 0.0 := by
      simp only [clampUnit, if_pos hlow]
      rfl
    rw [hclamp, hzero, hzero]
  by_cases hhigh : x > 1.0
  · have hclamp : clampUnit x = 1.0 := by simp only [clampUnit, if_neg hlow, if_pos hhigh]
    rw [hclamp, hone]
  · have hclamp : clampUnit x = x := by simp only [clampUnit, if_neg hlow, if_neg hhigh]
    rw [hclamp, hclamp]

/-- Bringing a number up to a limit makes no NaN, not even of a NaN. -/
theorem isNaN_raise {limit : Float} (h : limit.isNaN = false) (x : Float) :
    (raise limit x).isNaN = false := by
  unfold raise
  split
  · next habove =>
    rw [h, Bool.false_or, decide_eq_true_eq] at habove
    exact Double.isNaN_of_gt habove
  · exact h

/-- Nor does bringing a number down. -/
theorem isNaN_lower {limit x : Float} (h : limit.isNaN = false) (hx : x.isNaN = false) :
    (lower limit x).isNaN = false := by
  unfold lower
  split <;> assumption

/-- A component of a color that is a number stays one. -/
theorem isNaN_clampUnit {x : Float} (h : x.isNaN = false) : (clampUnit x).isNaN = false := by
  have hzero : (0.0 : Float).isNaN = false := by decide +kernel
  have hone : (1.0 : Float).isNaN = false := by decide +kernel
  unfold clampUnit
  dsimp only
  split
  · exact hone
  · split <;> assumption

/-- What the kind and the limits of an attribute make of a number. -/
def bound (attr : Attribute) (x : Float) : Float :=
  if attr.kind = .color then clampUnit x else attr.clamp x

/-- A color has limits of its own. -/
theorem bound_of_color {attr : Attribute} (h : attr.kind = .color) : attr.bound = clampUnit :=
  funext fun _ => if_pos h

/-- Other attributes have the limits that were set. -/
theorem bound_of_ne_color {attr : Attribute} (h : attr.kind ≠ .color) : attr.bound = attr.clamp :=
  funext fun _ => if_neg h

/-- A number within bounds stays. -/
theorem bound_bound (attr : Attribute) (x : Float) : attr.bound (attr.bound x) = attr.bound x := by
  by_cases h : attr.kind = .color
  · rw [bound_of_color h, clampUnit_clampUnit]
  · rw [bound_of_ne_color h, clamp_clamp]

/-! ### Plain attributes -/

/-- An attribute of truth values or of doubles that is saved. Its limits are numbers, and it ties no
height to a width. -/
structure Plain (attr : Attribute) : Prop where
  kind : attr.kind = .bool ∨ attr.kind.isNumeric = true
  ratio : attr.ratio? = none
  least : ∀ limit, attr.least? = some limit → limit.isNaN = false
  greatest : ∀ limit, attr.greatest? = some limit → limit.isNaN = false
  saved : attr.flags.unsaved = false

/-- A number within the bounds of a plain attribute is one. -/
theorem Plain.isNaN_bound {attr : Attribute} (h : attr.Plain) {x : Float} (hx : x.isNaN = false) :
    (attr.bound x).isNaN = false := by
  by_cases hcolor : attr.kind = .color
  · rw [bound_of_color hcolor]
    exact isNaN_clampUnit hx
  rw [bound_of_ne_color hcolor, clamp]
  cases hleast : attr.least? with
  | none =>
    cases hgreatest : attr.greatest? with
    | none => exact hx
    | some greatest => exact isNaN_lower (h.greatest greatest hgreatest) hx
  | some least =>
    have hraised := isNaN_raise (h.least least hleast) x
    cases hgreatest : attr.greatest? with
    | none => exact hraised
    | some greatest => exact isNaN_lower (h.greatest greatest hgreatest) hraised

/-- A value that an attribute has taken in: one truth value, or as many numbers within bounds as its
kind has components. -/
inductive Settled (attr : Attribute) : List Atom → Prop
  | truth (hkind : attr.kind = .bool) (value : Bool) : Settled attr [.bool value]
  | numbers (hkind : attr.kind.isNumeric = true) (xs : List Float)
    (hlength : xs.length = attr.kind.components)
    (hbound : ∀ x ∈ xs, x.isNaN = false ∧ attr.bound x = x) : Settled attr (xs.map (.double ·))

/-- No atom of a settled value is a NaN. -/
theorem Settled.isNaN {attr : Attribute} {value : List Atom} (h : attr.Settled value) :
    ∀ atom ∈ value, atom.toDouble.isNaN = false := by
  intro atom hatom
  cases h with
  | truth hkind value =>
    obtain rfl := List.mem_singleton.mp hatom
    exact Atom.isNaN_toDouble _ (by simp)
  | numbers hkind xs hlength hbound =>
    obtain ⟨x, hx, rfl⟩ := List.mem_map.mp hatom
    exact (hbound x hx).1

/-- Numbers brought within bounds are settled. -/
theorem Plain.settled_bound {attr : Attribute} (h : attr.Plain) (hkind : attr.kind.isNumeric = true)
    (ys : List Float) (hlength : ys.length = attr.kind.components)
    (hys : ∀ y ∈ ys, y.isNaN = false) : attr.Settled ((ys.map attr.bound).map (.double ·)) := by
  refine .numbers hkind (ys.map attr.bound) (by rw [List.length_map, hlength]) fun x hx => ?_
  obtain ⟨y, hy, rfl⟩ := List.mem_map.mp hx
  exact ⟨h.isNaN_bound (hys y hy), attr.bound_bound y⟩

/-! ### Taking in values -/

/-- No NaN is among the numbers in front if none is among the atoms. -/
theorem isNaN_of_mem_leadingNumbers {atoms : List Atom}
    (h : ∀ atom ∈ atoms, atom.toDouble.isNaN = false) {count : Nat} {x : Float}
    (hx : x ∈ leadingNumbers count atoms) : x.isNaN = false := by
  obtain ⟨atom, hatom, rfl⟩ := List.mem_map.mp hx
  exact h atom (List.takeWhile_subset _ (List.mem_of_mem_take hatom))

/-- The components of a geometric value are as many as the kind has, each brought within the limits. They
are those that were given, then those that are held, and zeros if there are too few of both. -/
theorem exists_of_components? {attr : Attribute} {atoms : List Atom} {xs : List Float}
    (h : attr.components? atoms = some xs) :
    ∃ ys : List Float, ys.length = attr.kind.components ∧ xs = ys.map attr.clamp ∧
      ∀ y ∈ ys, y ∈ leadingNumbers attr.kind.components atoms ∨
        (∃ atom ∈ attr.value, y = atom.toDouble) ∨ y = 0.0 := by
  unfold components? at h
  dsimp only at h
  split at h
  · cases h
  obtain rfl := Option.some.inj h
  refine ⟨(List.range attr.kind.components).map fun i =>
    (leadingNumbers attr.kind.components atoms)[i]?.getD
      ((attr.value[i]?.map Atom.toDouble).getD 0.0), by simp, by simp, fun y hy => ?_⟩
  obtain ⟨i, -, rfl⟩ := List.mem_map.mp hy
  cases hgiven : (leadingNumbers attr.kind.components atoms)[i]? with
  | some x => exact Or.inl (List.mem_of_getElem? hgiven)
  | none =>
    cases hcurrent : attr.value[i]? with
    | some atom => exact Or.inr (Or.inl ⟨atom, List.mem_of_getElem? hcurrent, rfl⟩)
    | none => exact Or.inr (Or.inr rfl)

/-- What a plain attribute takes in is settled. -/
theorem Plain.settled_conform {attr : Attribute} (h : attr.Plain)
    (hvalue : ∀ atom ∈ attr.value, atom.toDouble.isNaN = false) {atoms : List Atom}
    (hatoms : ∀ atom ∈ atoms, atom.toDouble.isNaN = false) {value : List Atom}
    (hconform : attr.conform atoms = some value) : attr.Settled value := by
  have hgeometric : attr.kind.isNumeric = true → attr.kind ≠ .color → ∀ {xs : List Float},
      attr.components? atoms = some xs → attr.Settled (xs.map (.double ·)) := by
    intro hnumeric hcolor xs hxs
    obtain ⟨ys, hlength, rfl, hys⟩ := exists_of_components? hxs
    rw [← bound_of_ne_color hcolor]
    refine h.settled_bound hnumeric ys hlength fun y hy => ?_
    rcases hys y hy with hgiven | ⟨atom, hatom, rfl⟩ | rfl
    · exact isNaN_of_mem_leadingNumbers hatoms hgiven
    · exact hvalue atom hatom
    · exact Atom.isNaN_toDouble .undefined (by simp)
  unfold conform at hconform
  cases hkind : attr.kind with
  | list | long | symbol | enum =>
    have hplain := h.kind
    simp [hkind, Kind.isNumeric] at hplain
  | bool =>
    simp only [hkind, Option.map_eq_some_iff] at hconform
    obtain ⟨atom, -, rfl⟩ := hconform
    exact .truth hkind _
  | double =>
    simp only [hkind, Option.map_eq_some_iff] at hconform
    obtain ⟨atom, hatom, rfl⟩ := hconform
    have hmem := List.mem_of_head? (Option.filter_eq_some_iff.mp hatom).1
    have hsettled := h.settled_bound (by rw [hkind]; rfl) [atom.toDouble] (by rw [hkind]; rfl)
      (by simpa using hatoms atom hmem)
    rwa [bound_of_ne_color (by simp [hkind])] at hsettled
  | point | rect =>
    simp only [hkind, Option.map_eq_some_iff] at hconform
    obtain ⟨xs, hxs, rfl⟩ := hconform
    exact hgeometric (by rw [hkind]; rfl) (by simp [hkind]) hxs
  | size =>
    simp only [hkind, h.ratio, Option.map_eq_some_iff] at hconform
    obtain ⟨xs, hxs, rfl⟩ := hconform
    exact hgeometric (by rw [hkind]; rfl) (by simp [hkind]) hxs
  | color =>
    simp only [hkind] at hconform
    split at hconform
    · next red green blue rest hleading =>
      obtain rfl := Option.some.inj hconform
      have hgiven : ∀ x ∈ red :: green :: blue :: rest, x.isNaN = false := fun x hx =>
        isNaN_of_mem_leadingNumbers hatoms (hleading ▸ hx)
      have hone : (1.0 : Float).isNaN = false := by decide +kernel
      have hlast : (rest.head?.getD 1.0).isNaN = false := by
        cases rest with
        | nil => exact hone
        | cons last rest => exact hgiven last (by simp)
      have hsettled := h.settled_bound (by rw [hkind]; rfl) [red, green, blue, rest.head?.getD 1.0]
        (by rw [hkind]; rfl) (by simp_all)
      rwa [bound_of_color hkind] at hsettled
    · cases hconform

/-- The numbers in front of atoms that stand for numbers. -/
theorem leadingNumbers_map {xs : List Float} {atomOf : Float → Atom}
    (h : ∀ x ∈ xs, (atomOf x).isNumber = true ∧ (atomOf x).toDouble = x) (count : Nat) :
    leadingNumbers count (xs.map atomOf) = xs.take count := by
  have hall : (xs.map atomOf).takeWhile Atom.isNumber = xs.map atomOf := by
    rw [List.takeWhile_eq_self_iff]
    intro atom hatom
    obtain ⟨x, hx, rfl⟩ := List.mem_map.mp hatom
    exact (h x hx).1
  rw [leadingNumbers, hall, ← List.map_take, List.map_map]
  refine (List.map_congr_left fun x hx => ?_).trans (List.map_id _)
  exact (h x (List.mem_of_mem_take hx)).2

/-- All components given, each is brought within the limits. -/
theorem components?_of_length {attr : Attribute} {atoms : List Atom} {xs : List Float}
    (hxs : leadingNumbers attr.kind.components atoms = xs) (hne : xs ≠ [])
    (hlength : xs.length = attr.kind.components) :
    attr.components? atoms = some (xs.map attr.clamp) := by
  have hsome : xs.isEmpty = false := by simpa using hne
  simp only [components?, hxs, hsome, Bool.false_eq_true, if_false, Option.some.injEq]
  refine List.ext_getElem (by simp [hlength]) fun i hi hi' => ?_
  have hinside : i < xs.length := by simpa using hi'
  simp [List.getElem?_eq_getElem hinside]

/-- The sides of a size with the height tied to the width; other values stay as they are. -/
def tie (attr : Attribute) (sides : List Float) : List Float :=
  match attr.kind, attr.ratio?, sides with
  | .size, some ratio, [width, _] => [width, attr.clamp (width * ratio)]
  | _, _, _ => sides

/-- What an attribute makes of as many doubles as its kind has components. -/
def fit (attr : Attribute) (xs : List Float) : List Float := attr.tie (xs.map attr.bound)

/-- Only sizes are tied. -/
theorem tie_of_ne_size {attr : Attribute} (h : attr.kind ≠ .size) (xs : List Float) : attr.tie xs = xs := by
  unfold tie
  split
  · next hsize _ => exact absurd hsize h
  · rfl

/-- A size is taken in side by side, and then its height is tied to its width. -/
theorem conform_size {attr : Attribute} {atoms : List Atom} (hkind : attr.kind = .size) :
    attr.conform atoms =
      (attr.components? atoms).map fun sides => (attr.tie sides).map (.double ·) := by
  simp only [conform, tie, hkind]
  congr 1
  funext sides
  split
  · next ratio width height hratio => simp only [hratio, List.map_cons, List.map_nil]
  · next hloose =>
    congr 1
    split
    · next ratio width height _ hratio =>
      exact absurd rfl (hloose ratio width height hratio)
    · rfl

/-- As many numbers as there are components are taken in, whatever numbers they are. -/
theorem conform_numbers {attr : Attribute} (hkind : attr.kind.isNumeric = true) {xs : List Float}
    (hlength : xs.length = attr.kind.components) {atomOf : Float → Atom}
    (hatoms : ∀ x ∈ xs, (atomOf x).isNumber = true ∧ (atomOf x).toDouble = x) :
    attr.conform (xs.map atomOf) = some ((attr.fit xs).map (.double ·)) := by
  have hleading := leadingNumbers_map hatoms
  have hne : xs ≠ [] := by
    rintro rfl
    cases hkind' : attr.kind <;> rw [hkind'] at hkind hlength <;> cases hkind <;> cases hlength
  have hcomponents := components?_of_length
    (by rw [hleading, ← hlength, List.take_length]) hne hlength
  have hloose : attr.kind ≠ .size → attr.fit xs = xs.map attr.bound := fun h => tie_of_ne_size h _
  have hclamp : attr.kind ≠ .color → attr.bound = attr.clamp := bound_of_ne_color
  cases hkind' : attr.kind with
  | bool | long | symbol | enum | list =>
    rw [hkind'] at hkind
    cases hkind
  | double =>
    obtain ⟨x, rfl⟩ := List.length_eq_one_iff.mp (hlength.trans (by rw [hkind']; rfl))
    obtain ⟨hnumber, hvalue⟩ := hatoms x List.mem_cons_self
    rw [hloose (by simp [hkind']), hclamp (by simp [hkind'])]
    simp [conform, hkind', hnumber, hvalue]
  | point | rect =>
    rw [hloose (by simp [hkind']), hclamp (by simp [hkind'])]
    simp only [conform, hkind', hcomponents, Option.map_some]
  | size =>
    rw [conform_size hkind', hcomponents, fit, hclamp (by simp [hkind'])]
    rfl
  | color =>
    rw [hkind'] at hlength
    obtain ⟨red, green, blue, last, rfl⟩ : ∃ red green blue last, xs = [red, green, blue, last] := by
      match xs, hlength with
      | [red, green, blue, last], _ => exact ⟨red, green, blue, last, rfl⟩
    rw [hloose (by simp [hkind']), bound_of_color hkind']
    simp only [conform, hkind', hleading]
    rfl

/-- A plain attribute brings each of them within bounds. -/
theorem Plain.conform_numbers {attr : Attribute} (h : attr.Plain)
    (hkind : attr.kind.isNumeric = true) {xs : List Float}
    (hlength : xs.length = attr.kind.components) {atomOf : Float → Atom}
    (hatoms : ∀ x ∈ xs, (atomOf x).isNumber = true ∧ (atomOf x).toDouble = x) :
    attr.conform (xs.map atomOf) = some ((xs.map attr.bound).map (.double ·)) := by
  have hfit : attr.fit xs = xs.map attr.bound := by
    unfold fit tie
    rw [h.ratio]
    split
    · next hratio _ => cases hratio
    · rfl
  rw [Attribute.conform_numbers hkind hlength hatoms, hfit]

/-- The number that is read for a double that is read back has its value. -/
theorem number_reread {x : Float} {minus : Bool} (h : Numeral.ReadsBack x) :
    (Notation.reread (.double x minus)).isNumber = true ∧
      (Notation.reread (.double x minus)).toDouble = x := by
  obtain ⟨found, hfound, hnumber, hvalue⟩ := Notation.number?_atomDouble h
  rw [Notation.reread, hfound, Option.getD_some]
  exact ⟨hnumber, hvalue⟩

/-- A settled value is taken in from its numerals as it is. -/
theorem Plain.conform_reread {attr : Attribute} (h : attr.Plain) {value : List Atom}
    (hsettled : attr.Settled value) (hback : ∀ atom ∈ value, atom.readsBack = true) :
    attr.conform (value.map Notation.reread) = some value := by
  cases hsettled with
  | truth hkind value =>
    simp only [conform, hkind]
    rfl
  | numbers hkind xs hlength hbound =>
    have hfound : ∀ x ∈ xs, (Notation.reread (.double x)).isNumber = true ∧
        (Notation.reread (.double x)).toDouble = x := fun x hx =>
      number_reread (of_decide_eq_true (hback (.double x) (List.mem_map_of_mem hx)))
    have hstays : xs.map attr.bound = xs :=
      (List.map_congr_left fun x hx => (hbound x hx).2).trans (List.map_id _)
    have hconform := h.conform_numbers hkind hlength hfound
    rw [hstays] at hconform
    rw [List.map_map]
    exact hconform

end Attribute

end Patchbay
